import Lossless.Files.Basic
import Lossless.Lz4.Frame
import Lossless.Measure.ByteSize
import Lossless.Text.Blank
import Lossless.Text.Lines
import Lossless.Text.Quoted

/-!
# Command — input and output paths

A document is read from a file, or from standard input for the path `-`.  Compressed files are
decompressed, and no more than a limit is read.  The path of a document tells the source file that
it describes: its extensions for compression and for documents are left out.
-/

namespace Lossless

/-- Why an input cannot be read. -/
inductive InputError where
  | emptyPath
  | zeroInPath (path : Text)
  | isDirectory (path : Text)
  | notOpened (e : FileError)
  | faulty (path : Text) (fault : Lz4.Fault)
  | tooLarge (path : Text) (limit : UInt64)
  | binary (path : Text)

namespace InputError

/-- The text of the error. -/
def message : InputError → Text
  | .emptyPath => "invalid input path: empty"
  | .zeroInPath p => "invalid input path: " ++ Text.quote p ++ " contains NUL"
  | .isDirectory p => Text.ofString "invalid input path: " ++ p ++ Text.ofString " is a directory"
  | .notOpened e => Text.ofString "open input: " ++ e.message
  | .faulty p f => Text.ofString "read " ++ p ++ Text.ofString (": " ++ f.message)
  | .tooLarge p n =>
    Text.ofString "input too large: " ++ p ++ Text.ofString (" exceeds " ++ ByteSize.text n.toNat)
  | .binary p => Text.ofString "input is binary: " ++ p

end InputError

namespace Input

/-- The path of standard input. -/
def stdinPath : Text := "-"

/-- The extension of compressed files. -/
def compressed : String := ".lz4"

/-- The extension of documents. -/
def documents : String := ".json"

/-- Whether a path has the given extension, in any case. -/
def hasExtension (path : Text) (ext : String) : Bool :=
  Text.equalFold (Path.extension path).toStr ext

/-- What can be read: bytes, and a fault behind them. -/
structure Stream where
  bytes : Text
  fault : Option Lz4.Fault := none

/-- The greatest number of bytes that is ever asked for, less one. -/
def greatestLimit : UInt64 := 9223372036854775806

/-- How many bytes are read to tell whether there are more than the limit: one more than the limit,
as far as the count has a sign bit to spare. -/
def readBound (limit : UInt64) : Int64 := (min limit greatestLimit).toInt64 + 1

/-- The first bytes of a stream, at most `bound` many. A fault behind them is not seen. -/
def Stream.read (s : Stream) (bound : Int64) : Except Lz4.Fault Text :=
  let n := bound.toInt.toNat
  let bytes := s.bytes.take n
  match s.fault with
  | none => .ok bytes
  | some f => if bytes.length = n then .ok bytes else .error f

/-- The stream under a path. -/
def openPath (fs : FileSystem) (stdin path : Text) : Except InputError Stream :=
  if path = stdinPath then .ok { bytes := stdin }
  else if (Text.trimChars path.chars).isEmpty then .error .emptyPath
  else if List.contains path 0 then .error (.zeroInPath path)
  else match fs.open_ (Path.clean path) with
    | .error f => .error (.notOpened ⟨"open", Path.clean path, f⟩)
    | .ok .directory => .error (.isDirectory path)
    | .ok (.file t) =>
      if hasExtension path compressed then
        let c := Lz4.read t
        .ok ⟨c.bytes.toList, c.fault⟩
      else .ok { bytes := t }

/-- What a stream holds, when it is no longer than the limit and no binary data. -/
def readStream (s : Stream) (path : Text) (limit : UInt64) : Except InputError Text :=
  match s.read (readBound limit) with
  | .error f => .error (.faulty path f)
  | .ok data =>
    if limit.toNat < data.length then .error (.tooLarge path limit)
    else if Text.isBinary data then .error (.binary path)
    else .ok data

/-- Reads the input under a path. -/
def read (fs : FileSystem) (stdin path : Text) (limit : UInt64) : Except InputError Text := do
  readStream (← openPath fs stdin path) path limit

/-- A path without as many bytes at its end as an extension has, when it has this extension in any
case. -/
def dropExtension (path : Text) (ext : String) : Text :=
  if hasExtension path ext then path.take (path.length - (Text.ofString ext).length) else path

/-- The source file that the document under a path describes. -/
def sourceName (path : Text) : Text :=
  if path = stdinPath then "stdin"
  else dropExtension (dropExtension path compressed) documents

/-- Where the migrated source of a document is written: next to the document, or in a directory. -/
def outputPath (path directory : Text) : Text :=
  if directory.isEmpty then sourceName path
  else Path.join [directory, Path.base (sourceName path)]

end Input

end Lossless
