import OverrideElision.Files.Load
import OverrideElision.Proofs.Files.Listing
import OverrideElision.Syntax.Reading

/-! # Loading what stands at paths

A directory is loaded as the scripts below it and any other path as it is. Files that the system
refuses to read are told of and left out. Only a path that cannot be asked for stops the reading. -/

namespace OverrideElision

open List

/-- There is one script for each source, in their order. -/
theorem Syntax.names_readScripts (nextScript next : Nat) (sources : List SourceTree) :
    (readScripts nextScript next sources).value.map Script.name = sources.map SourceTree.name := by
  induction sources generalizing nextScript next with
  | nil => rfl
  | cons source rest ih =>
    rw [map_cons, ← ih (nextScript + 1) (next + source.root.size)]
    rfl

namespace Files

/-! ## What stands at a path -/

/-- The same is found: the same error, or entries that are the same but for the order of listing. -/
inductive FoundAlike : Except ReadError Entry → Except ReadError Entry → Prop
  | error (reason : ReadError) : FoundAlike (.error reason) (.error reason)
  | ok {entry other : Entry} (h : entry.Relists other) : FoundAlike (.ok entry) (.ok other)

theorem mem_of_lookup_eq_some {α : Type} {named : List (String × α)} {name : String} {x : α}
    (h : named.lookup name = some x) : (name, x) ∈ named := by
  obtain ⟨front, back, rfl, _⟩ := lookup_eq_some_iff.mp h
  simp

namespace Entry

/-- A name is found in a directory however its entries are listed. -/
theorem Relists.lookup {entries listed : List (String × Entry)}
    (h : (Entry.directory entries).Relists (.directory listed)) (name : String) :
    Option.Rel Relists (entries.lookup name) (listed.lookup name) := by
  rcases h with _ | ⟨hnames, hbelow⟩
  cases hentry : entries.lookup name with
  | none =>
    cases hother : listed.lookup name with
    | none => exact .none
    | some other =>
      obtain ⟨entry, hmem⟩ := exists_mem hnames.symm (mem_of_lookup_eq_some hother)
      simpa using lookup_eq_none_iff.mp hentry _ hmem
  | some entry =>
    have hmem := mem_of_lookup_eq_some hentry
    cases hother : listed.lookup name with
    | none =>
      obtain ⟨other, hother'⟩ := exists_mem hnames hmem
      simpa using lookup_eq_none_iff.mp hother _ hother'
    | some other => exact .some (hbelow _ _ _ hmem (mem_of_lookup_eq_some hother))

theorem follow_directory (entries : List (String × Entry)) (above : List Entry) (name : String)
    (rest : List String) :
    (Entry.directory entries).follow above (name :: rest) =
      if name = "" ∨ name = "." then (Entry.directory entries).follow above rest
      else if name = ".." then
        match above with
        | [] => (Entry.directory entries).follow [] rest
        | outer :: above => outer.follow above rest
      else match entries.lookup name with
        | none => .error .missing
        | some entry => entry.follow (.directory entries :: above) rest :=
  rfl

theorem follow_foundAlike {here here' : Entry} {above above' : List Entry}
    (hhere : here.Relists here') (habove : Forall₂ Relists above above') (names : List String) :
    FoundAlike (here.follow above names) (here'.follow above' names) := by
  induction names generalizing here here' above above' with
  | nil => exact .ok hhere
  | cons name rest ih =>
    cases here with
    | file content =>
      cases hhere
      exact .error _
    | directory entries =>
      rcases here' with _ | listed
      · cases hhere
      have hlookup := hhere.lookup name
      rw [follow_directory, follow_directory]
      by_cases hstay : name = "" ∨ name = "."
      · rw [if_pos hstay, if_pos hstay]
        exact ih hhere habove
      rw [if_neg hstay, if_neg hstay]
      by_cases hback : name = ".."
      · rw [if_pos hback, if_pos hback]
        cases habove with
        | nil => exact ih hhere .nil
        | cons houter habove => exact ih houter habove
      · rw [if_neg hback, if_neg hback]
        generalize entries.lookup name = found at hlookup ⊢
        generalize listed.lookup name = found' at hlookup ⊢
        cases hlookup with
        | none => exact .error _
        | some hentry => exact ih hentry (.cons hhere habove)

/-- A path is not asked for, is empty, or names the way from the root. -/
theorem find_cases (path : String) (working : List String) :
    ('\x00' ∈ path.toList ∧ ∀ root : Entry, root.find path working = .error .nullByte) ∨
    ('\x00' ∉ path.toList ∧ ∀ root : Entry, root.find path working = .error .missing) ∨
    ('\x00' ∉ path.toList ∧ ∀ root : Entry,
      root.find path working = root.follow [] (route working path)) := by
  by_cases hnull : '\x00' ∈ path.toList
  · exact .inl ⟨hnull, fun root => by simp [find, hnull]⟩
  · by_cases hempty : path = ""
    · exact .inr (.inl ⟨hnull, fun root => by simp [find, hempty]⟩)
    · exact .inr (.inr ⟨hnull, fun root => by simp [find, hnull, hempty]⟩)

/-- What is found at a path does not depend on the order of listing. -/
theorem Relists.find {root other : Entry} (h : root.Relists other) (path : String)
    (working : List String) : FoundAlike (root.find path working) (other.find path working) := by
  rcases find_cases path working with ⟨_, hfind⟩ | ⟨_, hfind⟩ | ⟨_, hfind⟩
  · simpa only [hfind] using .error _
  · simpa only [hfind] using .error _
  · simpa only [hfind] using follow_foundAlike h .nil _

theorem WellFormed.follow {here entry : Entry} {above : List Entry} {names : List String}
    (hhere : here.WellFormed) (habove : ∀ outer ∈ above, outer.WellFormed)
    (h : here.follow above names = .ok entry) : entry.WellFormed := by
  fun_induction Entry.follow here above names with
  | case1 here above =>
    cases h
    exact hhere
  | case2 | case6 => cases h
  | case3 above name rest entries hstay ih => exact ih hhere habove h
  | case4 rest entries hstay ih => exact ih hhere habove h
  | case5 rest entries outer above hstay ih =>
    obtain ⟨houter, habove⟩ := forall_mem_cons.mp habove
    exact ih houter habove h
  | case7 above name rest entries hstay hback found hfound ih =>
    have hwell : found.WellFormed := by
      rcases hhere with _ | ⟨_, _, hbelow⟩
      exact hbelow _ (mem_of_lookup_eq_some hfound)
    exact ih hwell (forall_mem_cons.mpr ⟨hhere, habove⟩) h

/-- What stands at a path in a well-formed file system is well-formed. -/
theorem WellFormed.find {root entry : Entry} (h : root.WellFormed) {path : String}
    {working : List String} (hfind : root.find path working = .ok entry) : entry.WellFormed := by
  rcases find_cases path working with ⟨_, hroot⟩ | ⟨_, hroot⟩ | ⟨_, hroot⟩
  · cases (hroot root).symm.trans hfind
  · cases (hroot root).symm.trans hfind
  · exact h.follow (fun _ h => absurd h not_mem_nil) ((hroot root).symm.trans hfind)

theorem follow_ne_nullByte (here : Entry) (above : List Entry) (names : List String) :
    here.follow above names ≠ .error .nullByte := by
  fun_induction Entry.follow here above names with
  | case1 => simp
  | case2 => simp [ReadError.notDirectory]
  | case6 => simp [ReadError.missing]
  | case3 above name rest entries hstay ih => exact ih
  | case4 rest entries hstay ih => exact ih
  | case5 rest entries outer above hstay ih => exact ih
  | case7 above name rest entries hstay hback found hfound ih => exact ih

/-- A path cannot be asked for exactly when it holds a null character. -/
theorem find_eq_nullByte_iff (root : Entry) (path : String) (working : List String) :
    root.find path working = .error .nullByte ↔ '\x00' ∈ path.toList := by
  rcases find_cases path working with ⟨hnull, hfind⟩ | ⟨hnull, hfind⟩ | ⟨hnull, hfind⟩
  · exact iff_of_true (hfind root) hnull
  · exact iff_of_false (by simp [hfind, ReadError.missing]) hnull
  · exact iff_of_false (by simp [hfind, follow_ne_nullByte]) hnull

end Entry

/-! ### What a system says of a path -/

/-- What is said of a path: an entry that a file system can hold, or an error. The path is not asked
for exactly when it holds a null character. -/
structure IsLocated (place : Located Entry) : Prop where
  wellFormed : ∀ entry, place.2 = .ok entry → entry.WellFormed
  asked : place.2 = .error .nullByte ↔ '\x00' ∈ place.1.toList

/-- The same is said of the same path, but for the order in which directories are listed. -/
structure LocatedAlike (place other : Located Entry) : Prop where
  path : place.1 = other.1
  found : FoundAlike place.2 other.2

namespace Entry

theorem WellFormed.isLocated {root : Entry} (h : root.WellFormed) {working paths : List String} :
    ∀ place ∈ root.locate working paths, IsLocated place := by
  intro place hplace
  obtain ⟨path, _, rfl⟩ := mem_map.mp hplace
  exact ⟨fun _ => h.find, root.find_eq_nullByte_iff path working⟩

theorem Relists.locatedAlike {root other : Entry} (h : root.Relists other)
    (working paths : List String) :
    Forall₂ LocatedAlike (root.locate working paths) (other.locate working paths) := by
  refine forall₂_map_left_iff.mpr (forall₂_map_right_iff.mpr (forall₂_same.mpr fun path _ => ?_))
  exact ⟨rfl, h.find path working⟩

end Entry

theorem Entry.WellFormed.content {entry : Entry} (h : entry.WellFormed) {names : List String}
    {content : Content} (hholds : entry.Holds names content) : content ≠ .error .nullByte := by
  induction hholds with
  | here content =>
    cases h with
    | file h => exact h
  | step hentry _ ih =>
    rcases h with _ | ⟨_, _, hbelow⟩
    exact ih (hbelow _ hentry)

/-! ## What is collected -/

/-- The part is what is listed of a directory at this path: the scripts below it and nothing else,
each once, under the paths that their names make up, in the order of the names. -/
structure ListsBelow (directory : Entry) (path : String) (part : List (Located ByteArray)) :
    Prop where
  listed : ∃ listing : List (List String × Content),
    part = listing.map (fun (names, content) => (pathOf path names, content)) ∧
      (listing.Pairwise fun a b => Precedes a.1 b.1) ∧
      ∀ names content, (names, content) ∈ listing ↔
        NamesScript names ∧ directory.Holds names content
  nodup : (part.map Prod.fst).Nodup

/-- The part is what a path stands for: the scripts below it when a directory stands there, and
itself otherwise. -/
def Expands (place : Located Entry) (part : List (Located ByteArray)) : Prop :=
  match place.2 with
  | .error reason => part = [(place.1, .error reason)]
  | .ok (.file content) => part = [(place.1, content)]
  | .ok (.directory entries) => ListsBelow (.directory entries) place.1 part

theorem collect_eq_flatMap (places : List (Located Entry)) :
    collect places = places.flatMap fun place => collect [place] := by
  simp [collect]

theorem collect_cons (place : Located Entry) (places : List (Located Entry)) :
    collect (place :: places) = collect [place] ++ collect places := by
  simp [collect]

theorem collect_directory (path : String) (entries : List (String × Entry)) :
    collect [(path, .ok (.directory entries))] = (Entry.directory entries).scripts path := by
  simp [collect]

theorem Entry.WellFormed.listsBelow {entries : List (String × Entry)}
    (h : (Entry.directory entries).WellFormed) (path : String) :
    ListsBelow (.directory entries) path ((Entry.directory entries).scripts path) where
  listed := ⟨(Entry.directory entries).listing, scripts_eq_map_listing _ path, h.pairwise_listing,
    fun _ _ => mem_listing_iff⟩
  nodup := h.nodup_scripts path

theorem IsLocated.expands {place : Located Entry} (h : IsLocated place) :
    Expands place (collect [place]) := by
  obtain ⟨path, reason | content | entries⟩ := place
  · rfl
  · rfl
  · rw [collect_directory]
    exact (h.wellFormed _ rfl).listsBelow path

theorem IsLocated.collect_eq {place other : Located Entry} (h : IsLocated place)
    (halike : LocatedAlike place other) : collect [other] = collect [place] := by
  obtain ⟨path, found⟩ := place
  obtain ⟨_, found'⟩ := other
  obtain ⟨rfl, hfound⟩ := halike
  cases hfound with
  | error => rfl
  | ok hrelists =>
    have hscripts := hrelists.scripts_eq (h.wellFormed _ rfl) path
    cases hrelists with
    | file => rfl
    | directory names below => rw [collect_directory, collect_directory, hscripts]

/-- What is collected does not depend on the order in which the entries of directories are
listed. -/
theorem collect_eq_of_locatedAlike {places others : List (Located Entry)}
    (halike : Forall₂ LocatedAlike places others) (h : ∀ place ∈ places, IsLocated place) :
    collect others = collect places := by
  induction halike with
  | nil => rfl
  | @cons place other places others hplace _ ih =>
    obtain ⟨hlocated, hplaces⟩ := forall_mem_cons.mp h
    rw [collect_cons, collect_cons place, hlocated.collect_eq hplace, ih hplaces]

/-! ## Reading -/

/-- The name and text of a file that could be read. -/
def source? : Located ByteArray → Option (String × String)
  | (path, .ok bytes) => some (path, readText bytes)
  | _ => none

/-- The warning about a file that the system refuses to read. -/
def warning? : Located ByteArray → Option String
  | (path, .error (.refused number reason)) =>
    some ("[WARN] Failed to read " ++ path ++ ": " ++
      (ReadError.refused number reason).message path)
  | _ => none

/-- The file could be read. -/
def isRead (file : Located ByteArray) : Bool :=
  file.2.toBool

/-- What is loaded of the files: the sources of those that could be read, in their order, and a
warning for each other one, which changes nothing else. -/
structure Loads (loaded : Loaded) (files : List (Located ByteArray)) : Prop where
  failure : loaded.failure = none
  sources : loaded.sources = files.filterMap source?
  warnings : loaded.warnings = files.filterMap warning?
  warned : ∀ file ∈ files, (warning? file).isSome = !isRead file
  scripts : ∀ parse : String → Syntax.Node,
    (Program.ofSources 0 (loaded.sources.map fun (name, text) =>
      ⟨name, text, parse text⟩)).scripts.map Script.name = (files.filter isRead).map Prod.fst
  skips : ∀ front file back, files = front ++ file :: back → isRead file = false →
    (load (front ++ back)).sources = loaded.sources ∧
      (load (front ++ back)).warnings = (front ++ back).filterMap warning? ∧
      (load (front ++ back)).failure = none

theorem load_eq {files : List (Located ByteArray)}
    (h : ∀ file ∈ files, file.2 ≠ .error .nullByte) :
    load files = { sources := files.filterMap source?, warnings := files.filterMap warning? } := by
  induction files with
  | nil => rfl
  | cons file files ih =>
    obtain ⟨hfile, hfiles⟩ := forall_mem_cons.mp h
    obtain ⟨path, content⟩ := file
    rcases content with (⟨number, reason⟩ | _) | bytes
    · rw [load, ih hfiles]
      rfl
    · exact absurd rfl hfile
    · rw [load, ih hfiles]
      rfl

/-- The sources have the names of the files that could be read. -/
theorem names_sources (files : List (Located ByteArray)) :
    (files.filterMap source?).map Prod.fst = (files.filter isRead).map Prod.fst := by
  induction files with
  | nil => rfl
  | cons file files ih =>
    obtain ⟨path, _ | bytes⟩ := file
    · exact ih
    · exact congrArg (path :: ·) ih

/-- Reading is stopped by nothing but a path that cannot be asked for. -/
theorem failure_load_eq_none_iff {files : List (Located ByteArray)} :
    (load files).failure = none ↔ ∀ file ∈ files, file.2 ≠ .error .nullByte := by
  refine ⟨fun h => ?_, fun h => by rw [load_eq h]⟩
  induction files with
  | nil => exact fun _ h => absurd h not_mem_nil
  | cons file files ih =>
    obtain ⟨path, content⟩ := file
    rcases content with (⟨number, reason⟩ | _) | bytes
    · exact forall_mem_cons.mpr ⟨by simp, ih h⟩
    · cases h
    · exact forall_mem_cons.mpr ⟨by simp, ih h⟩

theorem loads_load {files : List (Located ByteArray)}
    (h : ∀ file ∈ files, file.2 ≠ .error .nullByte) : Loads (load files) files where
  failure := by rw [load_eq h]
  sources := by rw [load_eq h]
  warnings := by rw [load_eq h]
  warned file hfile := by
    have hfile := h file hfile
    obtain ⟨path, content⟩ := file
    rcases content with (_ | _) | _
    · rfl
    · exact absurd rfl hfile
    · rfl
  scripts parse := by
    rw [Program.ofSources, Syntax.names_readScripts, map_map, ← names_sources files, load_eq h]
    rfl
  skips front file back heq hfailed := by
    subst heq
    have hsub : front ++ back <+ front ++ file :: back :=
      (sublist_cons_self file back).append_left _
    have hnone : source? file = none := by
      obtain ⟨path, content⟩ := file
      rcases content with _ | _
      · rfl
      · cases hfailed
    rw [load_eq h, load_eq fun file hfile => h file (hsub.subset hfile)]
    simp [hnone]

/-- All that a path stands for is asked for exactly when the path holds no null character. -/
theorem IsLocated.asks_iff {place : Located Entry} (h : IsLocated place) :
    (∀ file ∈ collect [place], file.2 ≠ .error .nullByte) ↔ '\x00' ∉ place.1.toList := by
  rw [← h.asked]
  obtain ⟨path, reason | content | entries⟩ := place
  · simp [collect]
  · have hcontent := (h.wellFormed _ rfl).content (.here content)
    simp [collect, hcontent]
  · have hwell : (Entry.directory entries).WellFormed := h.wellFormed _ rfl
    obtain ⟨listing, hlisting, _, hmem⟩ := (hwell.listsBelow path).listed
    have hcontents : ∀ file ∈ collect [(path, .ok (.directory entries))],
        file.2 ≠ .error .nullByte := by
      intro file hfile
      rw [collect_directory, hlisting] at hfile
      obtain ⟨⟨names, content⟩, hnames, rfl⟩ := mem_map.mp hfile
      exact hwell.content ((hmem names content).mp hnames).2
    exact iff_of_true hcontents (by simp)

/-- Reading what is collected is stopped by nothing but a null character in one of the paths. -/
theorem failure_load_collect_iff {places : List (Located Entry)}
    (h : ∀ place ∈ places, IsLocated place) :
    (load (collect places)).failure = none ↔ ∀ place ∈ places, '\x00' ∉ place.1.toList := by
  rw [failure_load_eq_none_iff, collect_eq_flatMap]
  constructor
  · intro hfiles place hplace
    exact (h place hplace).asks_iff.mp fun file hfile =>
      hfiles file (mem_flatMap.mpr ⟨place, hplace, hfile⟩)
  · intro hpaths file hfile
    obtain ⟨place, hplace, hfile⟩ := mem_flatMap.mp hfile
    exact (h place hplace).asks_iff.mpr (hpaths place hplace) file hfile

/-- What paths stand for: path by path the path itself or the scripts below it, whatever the order
of listing. It is loaded file by file, and only a path with a null character would stop that. -/
structure Collects (places : List (Located Entry)) : Prop where
  joined : collect places = places.flatMap fun place => collect [place]
  expands : ∀ place ∈ places, Expands place (collect [place])
  relisted : ∀ others, Forall₂ LocatedAlike places others → collect others = collect places
  ends : (load (collect places)).failure = none ↔ ∀ place ∈ places, '\x00' ∉ place.1.toList
  loads : (∀ place ∈ places, '\x00' ∉ place.1.toList) →
    Loads (load (collect places)) (collect places)

/-- Scripts are collected and loaded in an order that depends on names alone. -/
theorem collects_located {places : List (Located Entry)} (h : ∀ place ∈ places, IsLocated place) :
    Collects places := by
  have hends := failure_load_collect_iff h
  constructor
  case joined => exact collect_eq_flatMap places
  case expands => exact fun place hplace => (h place hplace).expands
  case relisted => exact fun others halike => collect_eq_of_locatedAlike halike h
  case ends => exact hends
  case loads => exact fun hpaths => loads_load (failure_load_eq_none_iff.mp (hends.mpr hpaths))

/-- A directory in which one directory is named like a script, and one file is not read. -/
def workspace : Entry :=
  .directory [
    ("z.js", .file (.ok (.mk #[97]))),
    ("lib.js", .directory [("b.js", .file (.ok (.mk #[98]))), ("notes", .file (.ok (.mk #[])))]),
    ("B.js", .file (.error (.refused 13 "Permission denied")))]

/-- A directory beside it. -/
def packages : Entry :=
  .directory [("a.js", .file (.ok (.mk #[99])))]

/-- A file system in which a run starts from the directory `src`. -/
def disk : Entry :=
  .directory [("src", workspace), ("opt", packages)]

/-- The same, but for the order in which the root is listed. -/
def turnedDisk : Entry :=
  .directory [("opt", packages), ("src", workspace)]

/-- The paths of a run: its own directory, one that is given from the root, one beside it, and a
file that is not there. -/
def diskPaths : List String :=
  [".", "/src/lib.js", "../opt/", "a.js"]

theorem workspace_wellFormed : workspace.WellFormed := by
  have hfile (bytes : ByteArray) : (Entry.file (.ok bytes)).WellFormed := .file (by simp)
  have hlib : (Entry.directory
      [("b.js", .file (.ok (.mk #[98]))), ("notes", .file (.ok (.mk #[])))]).WellFormed :=
    .directory (by decide) (by decide) (by simp [hfile])
  have hrefused : (Entry.file (.error (.refused 13 "Permission denied"))).WellFormed :=
    .file (by simp)
  exact .directory (by decide) (by decide) (by simp [hfile, hlib, hrefused])

theorem packages_wellFormed : packages.WellFormed := by
  have hfile : (Entry.file (.ok (.mk #[99]))).WellFormed := .file (by simp)
  exact .directory (by decide) (by decide) (by simp [hfile])

theorem disk_wellFormed : disk.WellFormed :=
  .directory (by decide) (by decide) (by simp [workspace_wellFormed, packages_wellFormed])

theorem disk_relists : disk.Relists turnedDisk :=
  Entry.relists_of_perm (by decide) (.swap _ _ _)
    (by simp [workspace_wellFormed.relists, packages_wellFormed.relists])

/-- Capitals come before small letters, and what is further down after both. -/
theorem disk_collect : (disk.collect diskPaths ["src"]).map Prod.fst =
    ["./B.js", "./z.js", "./lib.js/b.js", "/src/lib.js/b.js", "../opt/a.js", "a.js"] := by
  have hnames : isScriptName "z.js" = true ∧ isScriptName "b.js" = true ∧
      isScriptName "a.js" = true ∧ isScriptName "B.js" = true ∧ isScriptName "notes" = false := by
    decide
  have hplaces : disk.locate ["src"] diskPaths = [
      (".", .ok workspace),
      ("/src/lib.js", .ok (.directory
        [("b.js", .file (.ok (.mk #[98]))), ("notes", .file (.ok (.mk #[])))])),
      ("../opt/", .ok packages),
      ("a.js", .error .missing)] := rfl
  rw [Entry.collect, hplaces]
  simp [collect, workspace, packages, Entry.scripts, ownScripts, nestedScripts, byName, hnames,
    mergeSort, MergeSort.Internal.splitInTwo, join]

theorem disk_collects :
    (∀ place ∈ disk.locate ["src"] diskPaths, IsLocated place ∧ '\x00' ∉ place.1.toList) ∧
    (disk.collect diskPaths ["src"]).map Prod.fst =
      ["./B.js", "./z.js", "./lib.js/b.js", "/src/lib.js/b.js", "../opt/a.js", "a.js"] ∧
    turnedDisk.collect diskPaths ["src"] = disk.collect diskPaths ["src"] ∧
    Loads (load (disk.collect diskPaths ["src"])) (disk.collect diskPaths ["src"]) := by
  have hlocated : ∀ place ∈ disk.locate ["src"] diskPaths, IsLocated place :=
    disk_wellFormed.isLocated
  have hpaths : ∀ place ∈ disk.locate ["src"] diskPaths, '\x00' ∉ place.1.toList := by
    intro place hplace
    obtain ⟨path, hpath, rfl⟩ := mem_map.mp hplace
    exact (by decide : ∀ path ∈ diskPaths, '\x00' ∉ path.toList) path hpath
  have hcollects := collects_located hlocated
  refine ⟨fun place hplace => ⟨hlocated place hplace, hpaths place hplace⟩, disk_collect, ?_, ?_⟩
  · exact hcollects.relisted _ (disk_relists.locatedAlike ["src"] diskPaths)
  · exact hcollects.loads hpaths

end Files

end OverrideElision
