import OverrideElision.Files.Collect
import OverrideElision.Text.Lines
import OverrideElision.Text.Utf8

/-! # Loading scripts -/

namespace OverrideElision.Files

/-- The bytes of a file read as text: UTF-8, with every line end as a line feed. A byte order mark
stays. -/
def readText (bytes : ByteArray) : String :=
  String.ofList (Text.unifyLineEnds (Text.decodeUtf8 bytes.toList))

/-- What is left after reading files: the names and texts of those that could be read, warnings
about the others, and the error that ended the reading early. -/
structure Loaded where
  sources : List (String × String) := []
  warnings : List String := []
  failure : Option ReadError := none
deriving DecidableEq, Repr

/-- Reads files in their order. A file that the system refuses is left out with a warning; a path
that cannot be asked for ends the reading. -/
def load : List (Located ByteArray) → Loaded
  | [] => {}
  | (path, .ok bytes) :: rest =>
    let loaded := load rest
    { loaded with sources := (path, readText bytes) :: loaded.sources }
  | (path, .error (.refused number reason)) :: rest =>
    let loaded := load rest
    let message := (ReadError.refused number reason).message path
    { loaded with
      warnings := ("[WARN] Failed to read " ++ path ++ ": " ++ message) :: loaded.warnings }
  | (_, .error .nullByte) :: _ => { failure := some .nullByte }

end OverrideElision.Files
