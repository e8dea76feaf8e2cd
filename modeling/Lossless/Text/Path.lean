import Lossless.Text.Rune

/-!
# Text — file paths

Slash-separated paths of bytes: the last element, its extension, and the shortest equivalent path.
-/

namespace Lossless.Path

/-- The byte between the elements of a path. -/
def slash : UInt8 := 47

/-- The byte in front of an extension. -/
def dot : UInt8 := 46

/-- The element that leads to the directory above. -/
def parent : Text := [dot, dot]

/-- The bytes after the last slash. -/
def afterLastSlash (path : Text) : Text := (path.reverse.takeWhile (· != slash)).reverse

/-- The last element of a path without trailing slashes; `.` for the empty path and `/` for a path
of slashes only. -/
def base (path : Text) : Text :=
  if path.isEmpty then [dot]
  else
    let last := afterLastSlash (path.reverse.dropWhile (· == slash)).reverse
    if last.isEmpty then [slash] else last

/-- The extension: from the last dot of the last element on, empty when it has no dot. -/
def extension (path : Text) : Text :=
  let last := afterLastSlash path
  if List.contains last dot then dot :: (last.reverse.takeWhile (· != dot)).reverse else []

/-- The elements of a path with empty ones and `.` dropped and `..` taken back; `rooted` paths
have nothing above their first element. `kept` is the reversed result so far. -/
def resolve (rooted : Bool) : (kept : List Text) → List Text → List Text
  | kept, [] => kept.reverse
  | kept, e :: rest =>
    if e = [] || e = [dot] then resolve rooted kept rest
    else if e = parent then
      match kept with
      | [] => resolve rooted (if rooted then [] else [e]) rest
      | last :: above =>
        if last = parent then resolve rooted (e :: kept) rest else resolve rooted above rest
    else resolve rooted (e :: kept) rest

/-- The elements between the slashes of a path. -/
def elements (path : Text) : List Text := List.splitOn slash path

/-- The shortest path equivalent to the given one. -/
def clean (path : Text) : Text :=
  let rooted := List.head? path = some slash
  let parts := resolve rooted [] (elements path)
  let body := List.intercalate [slash] parts
  if rooted then slash :: body else if parts.isEmpty then [dot] else body

/-- The non-empty paths joined by slashes, cleaned. -/
def join (paths : List Text) : Text :=
  let parts := paths.filter (!·.isEmpty)
  if parts.isEmpty then [] else clean (List.intercalate [slash] parts)

/-- A path without its last element, with a slash at its end. -/
def upToLastSlash (path : Text) : Text := path.take (path.length - (afterLastSlash path).length)

/-- All but the last element of a path, cleaned. -/
def dir (path : Text) : Text := clean (upToLastSlash path)

end Lossless.Path
