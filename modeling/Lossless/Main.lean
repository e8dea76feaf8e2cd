import Lossless.Command.Run

/-!
# The program

Reads what a command line may need from the system, runs the command, and puts its output and its
files in their places.
-/

namespace Lossless

namespace Program

/-- The contents of a file; an empty directory or nothing for other paths. -/
def readEntry (path : Text) : IO (Option Entry) := do
  try
    return some (.file (← IO.FS.readBinFile path.toStr).toList)
  catch
    | .inappropriateType .. => return some .directory
    | _ => return none

/-- Adds what is found under a path and under the directories above it. -/
def addPath (fs : FileSystem) (path : Text) : IO FileSystem := do
  let mut fs := fs
  for p in (FileSystem.above path ++ [path]).map Path.clean do
    match ← readEntry p with
    | some (.file t) => fs := fs.put p t
    | some .directory => fs := { fs with directories := fs.directories ++ [p] }
    | none => pure ()
  return fs

/-- The variables that settings may come from. -/
def readEnvironment : IO Config.Environment := do
  let mut env := []
  for name in Config.variableNames do
    if let some v ← IO.getEnv name then env := env ++ [(name, v)]
  return env

/-- All of standard input. -/
def readStdin : IO Text := do
  let stdin ← IO.getStdin
  let mut bytes := ByteArray.empty
  repeat
    let more ← stdin.read 65536
    if more.isEmpty then break
    bytes := bytes ++ more
  return bytes.toList

/-- Whether the name ends with the given extension, whatever its case. -/
def hasExtension (name ext : String) : Bool := Text.lower (Path.extension name).toStr == ext

/-- The languages told apart by file name, and for two of them by the opening tag. -/
def detectLanguage : Detector := fun name content =>
  let hackOr (other : String) := if Text.contains "<?hh" content then "Hack" else other
  if name = "Makefile" then some "Makefile"
  else if hasExtension name ".md" then some "Markdown"
  else if hasExtension name ".go" then some "Go"
  else if hasExtension name ".py" then some "Python"
  else if hasExtension name ".json" then some "JSON"
  else if hasExtension name ".php" then some (hackOr "PHP")
  else if hasExtension name ".hh" then some (hackOr "C++")
  else none

/-- Data that are no JSON object, and trees that do not conform to a schema, are not told about in
detail. -/
def externals : Externals where
  detect := detectLanguage
  wording := {
    undecodable := fun _ => "no JSON object"
    objections := fun _ _ =>
      let description := "Must validate one and only one schema (oneOf)"
      [{ field := "(root)", description, text := "(root): " ++ description }] }

/-- The files of `new` that are not in `old` with the same contents. -/
def changes (old new : FileSystem) : List (Text × Text) :=
  new.files.filter fun f => old.files.lookup f.1 ≠ some f.2

/-- Writes bytes to a stream. -/
def writeBytes (out : IO.FS.Stream) (t : Text) : IO Unit := do
  out.write ⟨t.toArray⟩
  out.flush

end Program

open Program in
/-- Runs a command line on the files, variables and streams of the system. -/
def runProgram (args : List Text) : IO UInt32 := do
  let env ← readEnvironment
  let g := match Invocation.read args with
    | .ok (g, _) => g
    | .error _ => {}
  let mut files : FileSystem := {}
  for p in g.config :: Config.candidates do
    if !p.isEmpty then files ← addPath files p
  if let .ok c := Config.load files env g.config then
    for p in [c.catalog.path, c.migrate.outputDir ++ "/x", c.telemetry.metricsFile] do
      if p ≠ "" then files ← addPath files p
  for p in args do
    if p ≠ Input.stdinPath then files ← addPath files p
  let stdin ← if args.contains Input.stdinPath then readStdin else pure []
  let (failed, w) := Command.run externals args { files := files, environment := env, stdin := stdin }
  for (p, t) in changes files w.files do
    IO.FS.createDirAll (Path.dir p).toStr
    IO.FS.writeBinFile p.toStr ⟨t.toArray⟩
  writeBytes (← IO.getStdout) w.stdout
  writeBytes (← IO.getStderr) w.stderr
  match failed with
  | none => return 0
  | some f =>
    writeBytes (← IO.getStderr) (Text.ofString "Error: " ++ f.cause.message ++ [Text.newline])
    return UInt32.ofNat f.exitStatus.toNat

end Lossless

def main (args : List String) : IO UInt32 := Lossless.runProgram (args.map Lossless.Text.ofString)
