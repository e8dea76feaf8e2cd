import Lossless.Text.Path

/-!
# Files — a file system

Files and directories under cleaned paths.  Every directory of a path that is there is there too.
A path is walked element by element, so that the directories it passes through have to be there
even when it leaves them again.  Operations fail with the reason the system would give.
-/

namespace Lossless

/-- The files and directories that there are. Directories without files are listed apart. -/
structure FileSystem where
  files : List (Text × Text) := []
  directories : List Text := []

/-- Why an operation on a path fails. -/
inductive FileFault where
  | notExist
  | notDirectory
  | isDirectory
  | exists_
  | tooLong
  | invalid
  deriving DecidableEq, Repr

/-- The text of a reason. -/
def FileFault.message : FileFault → String
  | .notExist => "no such file or directory"
  | .notDirectory => "not a directory"
  | .isDirectory => "is a directory"
  | .exists_ => "file exists"
  | .tooLong => "file name too long"
  | .invalid => "invalid argument"

/-- A failed operation: what was done, on which path, and why it failed. -/
structure FileError where
  operation : String
  path : Text
  fault : FileFault
  deriving DecidableEq, Repr

/-- The text of a failed operation. -/
def FileError.message (e : FileError) : Text :=
  Text.ofString (e.operation ++ " ") ++ e.path ++ Text.ofString (": " ++ e.fault.message)

/-- What is found under a path. -/
inductive Entry where
  | file (contents : Text)
  | directory
  deriving DecidableEq, Repr

namespace FileSystem

/-- The directories above a cleaned path, from the outermost on. -/
def above (path : Text) : List Text :=
  let parts := Path.elements path
  (List.range (parts.length - 1)).map fun i => List.intercalate [Path.slash] (parts.take (i + 1))

/-- Whether a cleaned path leads from the working directory upwards only. -/
def isUpward (path : Text) : Bool := (Path.elements path).all (· = Path.parent)

/-- The entry under a cleaned path. -/
def find? (fs : FileSystem) (path : Text) : Option Entry :=
  match fs.files.lookup path with
  | some t => some (.file t)
  | none =>
    if path = [Path.dot] || path = [Path.slash] || isUpward path || fs.directories.contains path
        || fs.files.any (fun f => (above f.1).contains path)
        || fs.directories.any (fun d => (above d).contains path) then
      some .directory
    else none

/-- The greatest number of bytes of an element of a path. -/
def nameLimit : Nat := 255

/-- The greatest number of bytes of a path. -/
def pathLimit : Nat := 4095

/-- Why nothing can be under a path or an element of it, whatever files there are. -/
def unusable? (limit : Nat) (path : Text) : Option FileFault :=
  if List.contains path 0 then some .invalid
  else if limit < path.length then some .tooLong
  else none

/-- The entry that an element of a path names in a directory, and its cleaned path. -/
def step (fs : FileSystem) (directory element : Text) : Except FileFault (Text × Option Entry) :=
  let path := Path.join [directory, element]
  if element = [] || element = [Path.dot] || element = Path.parent then .ok (path, some .directory)
  else match unusable? nameLimit element with
    | some f => .error f
    | none => .ok (path, fs.find? path)

/-- The cleaned path of the directory that is reached from a directory through some others. -/
def walk (fs : FileSystem) : (directory : Text) → List Text → Except FileFault Text
  | directory, [] => .ok directory
  | directory, e :: rest => do
    match ← fs.step directory e with
    | (path, some .directory) => fs.walk path rest
    | (_, some (.file _)) => throw .notDirectory
    | (_, none) => throw .notExist

/-- The last step along a path: the entry that is there, if any, and its cleaned path. -/
def follow (fs : FileSystem) (path : Text) : Except FileFault (Text × Option Entry) := do
  if let some f := unusable? pathLimit path then throw f
  if path.isEmpty then throw .notExist
  let start := if List.head? path = some Path.slash then [Path.slash] else [Path.dot]
  let parts := Path.elements path
  fs.step (← fs.walk start parts.dropLast) (parts.getLastD [])

/-- The entry under a path. -/
def open_ (fs : FileSystem) (path : Text) : Except FileFault Entry := do
  match ← fs.follow path with
  | (_, some e) => return e
  | (_, none) => throw .notExist

/-- Puts a file under a cleaned path, in the place of one that is there. -/
def put (fs : FileSystem) (path contents : Text) : FileSystem :=
  if (fs.files.lookup path).isSome then
    { fs with files := fs.files.map fun f => if f.1 = path then (path, contents) else f }
  else { fs with files := fs.files ++ [(path, contents)] }

/-- Writes a file whose directory is there. A path with a slash at its end names no file. -/
def write (fs : FileSystem) (path contents : Text) : Except FileError FileSystem :=
  let named := (path.reverse.dropWhile (· == Path.slash)).reverse
  match fs.follow (if named.isEmpty then path else named) with
  | .error f => .error ⟨"open", path, f⟩
  | .ok (_, some .directory) => .error ⟨"open", path, .isDirectory⟩
  | .ok (target, _) =>
    if named = path then .ok (fs.put target contents) else .error ⟨"open", path, .isDirectory⟩

/-- Why a directory that is not there cannot be made in a directory that is. -/
def unmakeable? (fs : FileSystem) (path : Text) : Option FileFault :=
  match fs.find? path with
  | some (.file _) => some .exists_
  | _ => unusable? nameLimit (Path.base path)

/-- Makes a directory with all directories above it, under a cleaned path. -/
def makeDirectories (fs : FileSystem) (path : Text) : Except FileError FileSystem :=
  match fs.find? path with
  | some .directory => .ok fs
  | some (.file _) => .error ⟨"mkdir", path, .notDirectory⟩
  | none =>
    let upper := (above path).findSome? fun d =>
      (fs.unmakeable? d).map fun f => FileError.mk "mkdir" (d ++ [Path.slash]) f
    match upper, fs.unmakeable? path with
    | some e, _ => .error e
    | none, some f => .error ⟨"mkdir", path, f⟩
    | none, none => .ok { fs with directories := fs.directories ++ [path] }

end FileSystem

end Lossless
