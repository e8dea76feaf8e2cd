import Lossless.Telemetry.Log
import Lossless.Telemetry.Span

/-!
# Telemetry — redaction

Before a span is exported, attributes under keys that are not known are dropped and long texts are
cut.  A dropped key is reported once.

A redactor does both in one loop over the attributes of each span that ends, and remembers the keys
that it has reported.
-/

namespace Lossless.Telemetry

/-- The greatest number of bytes of an exported text. -/
def textLimit : Nat := 512

/-- A value cut to the limit. -/
def Value.cut : Value → Value
  | .text t => .text (t.take textLimit)
  | v => v

/-- Whether an attribute is exported. -/
def Attribute.exported (a : Attribute) : Bool := Span.exportedKeys.contains a.key

/-- The span as it is exported. -/
def Span.redact (s : Span) : Span :=
  { s with attrs := (s.attrs.filter Attribute.exported).map fun a => ⟨a.key, a.value.cut⟩ }

/-- The report of a dropped key. -/
def droppedRecord (key : String) : Record :=
  { level := Level.warn, message := "span attribute dropped", fields := [.str "key" key] }

/-- The keys that are dropped from a list of attributes and were not dropped before, in order. -/
def newlyDropped : (seen : List String) → List Attribute → List String
  | _, [] => []
  | seen, a :: rest =>
    if a.exported || seen.contains a.key then newlyDropped seen rest
    else a.key :: newlyDropped (a.key :: seen) rest

/-- The reports of the keys dropped from a sequence of spans. -/
def redactionReport (spans : List Span) : List Record :=
  (newlyDropped [] (spans.flatMap (·.attrs))).map droppedRecord

/-- What is done to the spans that end: whether dropped keys are reported, the keys that were reported,
and the reports. -/
structure Redactor where
  reports : Bool
  dropped : List String := []
  log : List Record := []

namespace Redactor

/-- Reports a dropped key, unless it was reported before. -/
def reportDropped (r : Redactor) (key : String) : Redactor :=
  if !r.reports || r.dropped.contains key then r
  else { r with dropped := key :: r.dropped, log := r.log ++ [droppedRecord key] }

/-- One attribute: it is dropped, or kept behind those kept before. -/
def handle (p : Redactor × List Attribute) (a : Attribute) : Redactor × List Attribute :=
  if a.exported then (p.1, p.2 ++ [⟨a.key, a.value.cut⟩]) else (p.1.reportDropped a.key, p.2)

/-- The attributes that are kept. -/
def redact (r : Redactor) (attrs : List Attribute) : Redactor × List Attribute :=
  attrs.foldl handle (r, [])

/-- A span that ends, as it is handed on. -/
def onEnd (r : Redactor) (s : Span) : Redactor × Span :=
  let (r, kept) := r.redact s.attrs
  (r, { s with attrs := kept })

/-- Spans that end one after the other. -/
def run (r : Redactor) : List Span → Redactor × List Span
  | [] => (r, [])
  | s :: rest =>
    let (r, handed) := r.onEnd s
    let (r, others) := run r rest
    (r, handed :: others)

end Redactor

end Lossless.Telemetry
