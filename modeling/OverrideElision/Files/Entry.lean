import OverrideElision.Text.Quoted
import OverrideElision.Text.Split

/-! # Directory trees

The files and directories of a file system without links, and what a path leads to in it. -/

namespace OverrideElision.Files

/-- Why nothing can be read at a path: the system says so with a number and a reason, or the path
holds a null character and is not even asked for. -/
inductive ReadError where
  | refused (number : Nat) (reason : String)
  | nullByte
deriving DecidableEq, Repr

namespace ReadError

/-- Nothing stands at the path. -/
def missing : ReadError :=
  .refused 2 "No such file or directory"

/-- The path goes on below a file. -/
def notDirectory : ReadError :=
  .refused 20 "Not a directory"

/-- The error in words. -/
def message (path : String) : ReadError → String
  | .refused number reason =>
    "[Errno " ++ toString number ++ "] " ++ reason ++ ": " ++ Text.quoted path
  | .nullByte => "embedded null byte"

end ReadError

/-- A file with its bytes, or with the reason why they cannot be read; or a directory with its
entries under their names. -/
inductive Entry where
  | file (content : Except ReadError ByteArray)
  | directory (entries : List (String × Entry))

namespace Entry

/-- What the names in turn lead to from `here`, where `above` holds the directories passed on the
way from the root, the last one first. An empty name or a dot stays in a directory and two dots go
back; what is above the root is the root itself. -/
def follow (here : Entry) (above : List Entry) : List String → Except ReadError Entry
  | [] => .ok here
  | name :: rest =>
    match here with
    | .file _ => .error .notDirectory
    | .directory entries =>
      if name = "" ∨ name = "." then follow here above rest
      else if name = ".." then
        match above with
        | [] => follow here [] rest
        | outer :: above => follow outer above rest
      else match entries.lookup name with
        | none => .error .missing
        | some entry => follow entry (here :: above) rest

/-- The names that lead from the root to a path, for a run in the directory that the names `working`
lead to. A path with a slash in front starts at the root. -/
def route (working : List String) (path : String) : List String :=
  let names := (Text.splitAt (· == '/') path.toList).map String.ofList
  if path.toList.head? = some '/' then names else working ++ names

/-- What stands at a path in the file system with this root. No entry has the empty path. -/
def find (root : Entry) (path : String) (working : List String := []) : Except ReadError Entry :=
  if path.toList.contains '\x00' then .error .nullByte
  else if path.toList.isEmpty then .error .missing
  else root.follow [] (route working path)

end Entry

end OverrideElision.Files
