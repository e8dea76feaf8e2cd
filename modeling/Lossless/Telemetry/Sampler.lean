import Lossless.Decimal.General
import Lossless.Decimal.Numeral
import Lossless.Telemetry.Span

/-!
# Telemetry — samplers

A sampler decides which spans are recorded.  It is chosen by the settings and by two standard
environment variables, and describes itself by a text.
-/

namespace Lossless.Telemetry

/-- A way to decide which spans are recorded. -/
inductive Sampler where
  | always
  | never
  /-- A fraction of all traces. -/
  | ratio (fraction : Float)
  /-- The decision of the parent span; for spans without one, that of `root`. -/
  | parentBased (root : Sampler)
  /-- Never the spans of steps; for other spans the decision of `base`. -/
  | withoutSteps (base : Sampler)

namespace Sampler

/-- The text that a sampler describes itself with. -/
def description : Sampler → String
  | .always => "AlwaysOnSampler"
  | .never => "AlwaysOffSampler"
  | .ratio x => "TraceIDRatioBased\x7b" ++ Decimal.general x ++ "\x7d"
  | .parentBased root => "ParentBased\x7broot:" ++ root.description
      ++ ",remoteParentSampled:AlwaysOnSampler,remoteParentNotSampled:AlwaysOffSampler"
      ++ ",localParentSampled:AlwaysOnSampler,localParentNotSampled:AlwaysOffSampler\x7d"
  | .withoutSteps base => "StepSampler\x7b" ++ base.description ++ "\x7d"

/-- The sampler for a fraction: fractions from one on keep every trace, and those below zero count
as zero. -/
def ofRatio (x : Float) : Sampler :=
  if 1.0 ≤ x then .always else .ratio (if x ≤ 0.0 then 0.0 else x)

/-- The fraction of an environment variable; one for what is no fraction. -/
def ratioArgument (s : String) : Float :=
  match Decimal.float? s with
  | some x => if x < 0.0 || 1.0 < x then 1.0 else x
  | none => 1.0

/-- The sampler that a name from the environment stands for. -/
def ofName? (name : String) (argument : Float) : Option Sampler :=
  match name with
  | "always_on" => some .always
  | "always_off" => some .never
  | "traceidratio" => some (ofRatio argument)
  | "parentbased_always_on" => some (.parentBased .always)
  | "parentbased_always_off" => some (.parentBased .never)
  | "parentbased_traceidratio" => some (.parentBased (ofRatio argument))
  | _ => none

/-- Whether a span of the given name without parent is recorded, for samplers that decide by the
name alone. -/
def records (name : String) : Sampler → Bool
  | .never => false
  | .withoutSteps base => name ≠ Span.step && base.records name
  | .parentBased root => root.records name
  | _ => true

end Sampler

/-- The settings that choose a sampler. -/
structure Tracing where
  debug : Bool := false
  verbose : Bool := false
  ratio : Float := 0.0
  /-- The environment's name of a sampler; empty for none. -/
  samplerName : String := ""
  /-- The environment's argument for the sampler. -/
  samplerArgument : String := ""

/-- The sampler of the settings: debugging records everything, then the environment decides, then
the ratio. Steps are left out unless asked for. -/
def Tracing.sampler (t : Tracing) : Sampler :=
  let base : Sampler :=
    if t.debug then .always
    else if t.samplerName ≠ "" then
      (Sampler.ofName? t.samplerName (Sampler.ratioArgument t.samplerArgument)).getD
        (.parentBased .always)
    else if 0.0 < t.ratio then .parentBased (.ofRatio t.ratio)
    else .parentBased .always
  if t.verbose || t.debug then base else .withoutSteps base

end Lossless.Telemetry
