import OverrideElision.Files.Entry

/-! # Collecting scripts

A directory stands for the scripts below it, in an order that depends on their names alone; any
other path stands for itself. -/

namespace OverrideElision.Files

/-- The path of a directory's entry. A directory that is given with a slash at its end keeps it. -/
def join (directory name : String) : String :=
  if directory.toList.getLast? = some '/' then directory ++ name else directory ++ "/" ++ name

/-- Whether a file of this name is taken for a script. -/
def isScriptName (name : String) : Bool :=
  ".js".toList.isSuffixOf name.toList

/-- Named things in the order of their names. -/
def byName {α : Type} (named : List (String × α)) : List (String × α) :=
  named.mergeSort fun a b => a.1 ≤ b.1

/-- A path with what was found there. -/
abbrev Located (α : Type) := String × Except ReadError α

/-- The scripts among the entries of a directory themselves. -/
def ownScripts (path : String) (entries : List (String × Entry)) : List (Located ByteArray) :=
  (byName (entries.filterMap fun (name, entry) => match entry with
    | .file content => if isScriptName name then some (name, content) else none
    | .directory _ => none)).map fun (name, content) => (join path name, content)

mutual

/-- The scripts below an entry with their paths: the own ones of a directory, and then those below
its entries. -/
def Entry.scripts (path : String) : Entry → List (Located ByteArray)
  | .file _ => []
  | .directory entries =>
    ownScripts path entries ++ (byName (nestedScripts path entries)).flatMap (·.2)

/-- For each entry of a directory the scripts below it. -/
def nestedScripts (path : String) :
    List (String × Entry) → List (String × List (Located ByteArray))
  | [] => []
  | (name, entry) :: rest =>
    (name, entry.scripts (join path name)) :: nestedScripts path rest

end

/-- The files to read for paths: the scripts of each directory, and each other path as it is. -/
def collect (paths : List (Located Entry)) : List (Located ByteArray) :=
  paths.flatMap fun (path, found) => match found with
    | .error reason => [(path, .error reason)]
    | .ok (.file content) => [(path, content)]
    | .ok (.directory entries) => (Entry.directory entries).scripts path

/-- Paths with what stands there in the file system with this root, for a run in the directory that
the names `working` lead to. -/
def Entry.locate (root : Entry) (working paths : List String) : List (Located Entry) :=
  paths.map fun path => (path, root.find path working)

/-- The files to read for paths. -/
def Entry.collect (root : Entry) (paths : List String) (working : List String := []) :
    List (Located ByteArray) :=
  Files.collect (root.locate working paths)

end OverrideElision.Files
