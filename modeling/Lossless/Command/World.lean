import Lossless.Command.Failure
import Lossless.Telemetry.Log

/-!
# Command — what commands act on

A command reads files, variables and standard input, prints on two streams, writes files, and counts
what it does.  All of it is one state, and commands are functions on it that may fail.
-/

namespace Lossless

/-- What commands act on. -/
structure World where
  files : FileSystem := {}
  environment : Config.Environment := []
  /-- What is left to be read on standard input. -/
  stdin : Text := []
  stdout : Text := []
  stderr : Text := []
  measurements : List Telemetry.Measurement := []
  supply : Supply := Supply.start

/-- A command, or part of one. -/
abbrev Command := ExceptT CommandFailure (StateM World)

namespace Command

/-- Fails with an error. -/
def fail {α : Type} (e : CommandError) : Command α := throw { cause := e }

/-- Fails with an error and the status for documents that are not valid. -/
def failInvalid {α : Type} (e : CommandError) : Command α :=
  throw { cause := e, status := some Failed.invalidStatus }

/-- A result, or the failure with its error. -/
def orFail {ε α : Type} (wrap : ε → CommandError) : Except ε α → Command α
  | .ok a => pure a
  | .error e => fail (wrap e)

/-- Prints on standard output. -/
def print (t : Text) : Command Unit := modify fun w => { w with stdout := w.stdout ++ t }

/-- Prints on the error stream. -/
def printError (t : Text) : Command Unit := modify fun w => { w with stderr := w.stderr ++ t }

/-- Prints a line on standard output. -/
def printLine (s : String) : Command Unit := print (Text.ofString (s ++ "\n"))

/-- Reports on records on the error stream. -/
def report (logger : Telemetry.Logger) (records : List Telemetry.Record) : Command Unit :=
  printError (logger.write records)

/-- Reads the input under a path. What was read of standard input is gone. -/
def readInput (path : Text) (limit : UInt64) : Command Text := do
  let w ← get
  if path = Input.stdinPath then set { w with stdin := [] }
  orFail .input (Input.read w.files w.stdin path limit)

/-- Writes a file into a directory that is there. -/
def writeFile (wrap : FileError → CommandError) (path contents : Text) : Command Unit := do
  let w ← get
  let files ← orFail wrap (w.files.write path contents)
  set { w with files := files }

/-- Writes a file, and makes its directory when there is none. -/
def writeOutput (target contents : Text) : Command Unit := do
  let w ← get
  let files ← orFail (.outputNotWritten target) (w.files.makeDirectories (Path.dir target))
  set { w with files := files }
  writeFile (.outputNotWritten target) target contents

/-- Takes note of what a run reports. -/
def observe {α : Type} (logger : Telemetry.Logger) (o : Observed α) : Command α := do
  modify fun w =>
    { w with supply := o.supply, measurements := w.measurements ++ Event.measurements o.events }
  report logger (Event.records o.events)
  return o.value

end Command

end Lossless
