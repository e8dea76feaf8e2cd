/-!
# Text — templates

In a template a percent sign starts a directive, which stands for a value: flags, a width, a
precision, a number that picks the value, and a letter.  A template that is given no values shows a
note in the place of each directive; only the percent sign itself needs none.
-/

namespace Lossless.Template

/-- Whether a character is a flag of a directive. -/
def isFlag (c : Char) : Bool := ['#', '0', '+', '-', ' '].contains c

/-- The greatest value that may be followed by another digit. -/
def numberLimit : Nat := 1000000

/-- Passes over a decimal number behind digits of the value `n`: whether there is one, and what
follows. A number that is too large takes all the rest. -/
def passNumber (n : Nat) (found : Bool) : List Char → Bool × List Char
  | [] => (found, [])
  | c :: rest =>
    if !c.isDigit then (found, c :: rest)
    else if numberLimit < n then (false, [])
    else passNumber (10 * n + (c.toNat - '0'.toNat)) true rest

/-- A directive in the reading. -/
structure Directive where
  /-- The notes made so far. -/
  notes : String := ""
  /-- Whether no value was picked by number. -/
  plain : Bool := true
  /-- Whether the last thing read was a number that picks a value. -/
  picked : Bool := false
  rest : List Char

namespace Directive

/-- Reads a number in brackets that picks a value. There is never such a value. -/
def pick (d : Directive) : Directive :=
  match d.rest with
  | '[' :: more =>
    match more.dropWhile (· ≠ ']') with
    | ']' :: after =>
      if more = [']'] then { d with plain := false, picked := false, rest := more }
      else
        let (found, left) := passNumber 0 false (more.takeWhile (· ≠ ']'))
        { d with plain := false, picked := found && left.isEmpty, rest := after }
    | _ => { d with plain := false, picked := false, rest := more }
  | _ => { d with picked := false }

/-- Reads the width. -/
def width (d : Directive) : Directive :=
  match d.rest with
  | '*' :: rest => { d with notes := d.notes ++ "%!(BADWIDTH)", picked := false, rest := rest }
  | cs =>
    let (found, rest) := passNumber 0 false cs
    { d with plain := d.plain && !(d.picked && found), rest := rest }

/-- Reads the precision. -/
def precision (d : Directive) : Directive :=
  match d.rest with
  | '.' :: rest =>
    let d := pick { d with plain := d.plain && !d.picked, rest := rest }
    match d.rest with
    | '*' :: rest => { d with notes := d.notes ++ "%!(BADPREC)", picked := false, rest := rest }
    | cs => { d with rest := (passNumber 0 false cs).2 }
  | _ => d

/-- Reads a directive behind its percent sign: what is shown for it, and what follows it. -/
def read (cs : List Char) : String × List Char :=
  let d := (pick { rest := cs.dropWhile isFlag }).width.precision
  let d := if d.picked then d else d.pick
  match d.rest with
  | [] => (d.notes ++ "%!(NOVERB)", [])
  | '%' :: rest => (d.notes ++ "%", rest)
  | c :: rest =>
    (d.notes ++ "%!" ++ String.ofList [c] ++ (if d.plain then "(MISSING)" else "(BADINDEX)"), rest)

end Directive

/-- What is shown for the characters of a template. Every round takes at least one. -/
def show_ : (fuel : Nat) → List Char → String
  | 0, _ => ""
  | _, [] => ""
  | fuel + 1, c :: rest =>
    if c = '%' then
      let (shown, rest) := Directive.read rest
      shown ++ show_ fuel rest
    else String.ofList [c] ++ show_ fuel rest

/-- The text of a template that is given no values. -/
def withoutValues (template : String) : String := show_ template.length template.toList

end Lossless.Template
