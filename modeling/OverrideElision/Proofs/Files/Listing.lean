import Mathlib.Data.List.Sort
import OverrideElision.Files.Collect
import OverrideElision.Proofs.Sorting

/-! # The scripts below a directory

What is collected of a directory are the scripts below it, each once: first its own in the order of
their names, and then those of each directory in it, again in the order of the names. Only the names
matter, not the order in which the entries are listed. -/

namespace OverrideElision.Files

open List

/-- An entry is a file, or a directory of whose entries the claim holds already. -/
@[induction_eliminator]
theorem Entry.induction {motive : Entry → Prop} (file : ∀ content, motive (.file content))
    (directory : ∀ entries, (∀ name entry, (name, entry) ∈ entries → motive entry) →
      motive (.directory entries)) (entry : Entry) : motive entry := by
  refine @Entry.rec motive (fun entries => ∀ name entry, (name, entry) ∈ entries → motive entry)
    (fun named => motive named.2) file directory ?_ ?_ ?_ entry
  · intro name entry h
    cases h
  · intro head tail hhead htail name entry h
    rcases mem_cons.mp h with rfl | h
    · exact hhead
    · exact htail name entry h
  · exact fun _ _ h => h

/-! ## Sorting by name -/

section

variable {α β : Type}

theorem mem_byName {named : List (String × α)} {x : String × α} : x ∈ byName named ↔ x ∈ named :=
  mem_mergeSort

theorem pairwise_byName {named : List (String × α)} (h : (named.map Prod.fst).Nodup) :
    (byName named).Pairwise fun a b => a.1 < b.1 :=
  pairwise_mergeSort_name Prod.fst h

/-- Sorting looks at nothing but the names. -/
theorem byName_map (f : String × α → β) (named : List (String × α)) :
    byName (named.map fun x => (x.1, f x)) = (byName named).map fun x => (x.1, f x) := by
  symm
  exact map_mergeSort fun _ _ _ _ => rfl

end

/-! ## What stands below an entry -/

/-- What is found when a file is read. -/
abbrev Content := Except ReadError ByteArray

/-- The names lead from the entry to a file with this content. -/
inductive Entry.Holds : Entry → List String → Content → Prop
  | here (content : Content) : Holds (.file content) [] content
  | step {entries : List (String × Entry)} {name : String} {entry : Entry} {names : List String}
      {content : Content} (hentry : (name, entry) ∈ entries) (h : Holds entry names content) :
      Holds (.directory entries) (name :: names) content

theorem Entry.holds_directory_iff {entries : List (String × Entry)} {names : List String}
    {content : Content} : (Entry.directory entries).Holds names content ↔
      ∃ name rest entry, names = name :: rest ∧ (name, entry) ∈ entries ∧
        entry.Holds rest content := by
  constructor
  · rintro (_ | ⟨hentry, h⟩)
    exact ⟨_, _, _, rfl, hentry, h⟩
  · rintro ⟨name, rest, entry, rfl, hentry, h⟩
    exact .step hentry h

/-- The names lead to a file that is taken for a script. -/
def NamesScript (names : List String) : Prop :=
  ∃ name, names.getLast? = some name ∧ isScriptName name = true

/-- The order of the files below a directory: its own ones by name and before all that are further
down, and these by the first name in which they differ. -/
inductive Precedes : List String → List String → Prop
  | own {a b : String} (h : a < b) : Precedes [a] [b]
  | ownFirst {a b c : String} {rest : List String} : Precedes [a] (b :: c :: rest)
  | apart {a b c d : String} {rest others : List String} (h : a < b) :
      Precedes (a :: c :: rest) (b :: d :: others)
  | within {a : String} {names others : List String} (h : Precedes names others) :
      Precedes (a :: names) (a :: others)

theorem Precedes.irrefl (names : List String) : ¬ Precedes names names := by
  induction names with
  | nil => rintro ⟨⟩
  | cons name names ih =>
    rintro (h | _ | h | h)
    · exact String.lt_irrefl _ h
    · exact String.lt_irrefl _ h
    · exact ih h

theorem Precedes.asymm {a b : List String} (hab : Precedes a b) (hba : Precedes b a) : False := by
  induction hab with
  | own h =>
    rcases hba with h' | _ | _ | h'
    · exact String.lt_irrefl _ (String.lt_trans h h')
    · cases h'
  | ownFirst =>
    rcases hba with _ | _ | _ | h'
    cases h'
  | apart h =>
    rcases hba with _ | _ | h' | _
    · exact String.lt_irrefl _ (String.lt_trans h h')
    · exact String.lt_irrefl _ h
  | within h ih =>
    rcases hba with h' | _ | h' | h'
    · exact String.lt_irrefl _ h'
    · cases h
    · exact String.lt_irrefl _ h'
    · exact ih h'

/-! ## The listing -/

/-- The scripts among the entries of a directory itself, by name. -/
def ownListing (entries : List (String × Entry)) : List (String × Content) :=
  byName (entries.filterMap fun (name, entry) => match entry with
    | .file content => if isScriptName name then some (name, content) else none
    | .directory _ => none)

mutual

/-- The scripts below an entry, each with the names that lead to it. -/
def Entry.listing : Entry → List (List String × Content)
  | .file _ => []
  | .directory entries =>
    (ownListing entries).map (fun (name, content) => ([name], content)) ++
      (byName (nestedListing entries)).flatMap fun (name, found) =>
        found.map fun (names, content) => (name :: names, content)

/-- For each entry of a directory the scripts below it. -/
def nestedListing : List (String × Entry) → List (String × List (List String × Content))
  | [] => []
  | (name, entry) :: rest => (name, entry.listing) :: nestedListing rest

end

theorem nestedListing_eq_map (entries : List (String × Entry)) :
    nestedListing entries = entries.map fun x => (x.1, x.2.listing) := by
  induction entries with
  | nil => rfl
  | cons entry rest ih => rw [nestedListing, ih, map_cons]

theorem nestedScripts_eq_map (path : String) (entries : List (String × Entry)) :
    nestedScripts path entries =
      entries.map fun x => (x.1, x.2.scripts (join path x.1)) := by
  induction entries with
  | nil => rfl
  | cons entry rest ih => rw [nestedScripts, ih, map_cons]

theorem Entry.listing_directory (entries : List (String × Entry)) :
    (Entry.directory entries).listing =
      (ownListing entries).map (fun (name, content) => ([name], content)) ++
        (byName entries).flatMap fun (name, entry) =>
          entry.listing.map fun (names, content) => (name :: names, content) := by
  rw [listing, nestedListing_eq_map, byName_map fun x : String × Entry => x.2.listing, flatMap_map]

theorem Entry.scripts_directory (path : String) (entries : List (String × Entry)) :
    (Entry.directory entries).scripts path =
      (ownListing entries).map (fun (name, content) => (join path name, content)) ++
        (byName entries).flatMap fun (name, entry) => entry.scripts (join path name) := by
  rw [scripts, nestedScripts_eq_map,
    byName_map fun x : String × Entry => x.2.scripts (join path x.1), flatMap_map]
  rfl

/-- The path that the names lead to from a directory. -/
def pathOf (directory : String) (names : List String) : String :=
  names.foldl join directory

/-- Scripts are collected in the order of the listing, under the paths that their names make up. -/
theorem Entry.scripts_eq_map_listing (entry : Entry) (path : String) :
    entry.scripts path =
      entry.listing.map fun (names, content) => (pathOf path names, content) := by
  induction entry generalizing path with
  | file content => rfl
  | directory entries ih =>
    rw [scripts_directory, listing_directory, map_append, map_map, map_flatMap]
    congr 1
    refine flatMap_congr fun named hnamed => ?_
    obtain ⟨name, entry⟩ := named
    simp only [ih name entry (mem_byName.mp hnamed), map_map]
    rfl

theorem mem_ownListing {entries : List (String × Entry)} {name : String} {content : Content} :
    (name, content) ∈ ownListing entries ↔
      (name, .file content) ∈ entries ∧ isScriptName name = true := by
  rw [ownListing, mem_byName, mem_filterMap]
  constructor
  · rintro ⟨⟨other, entry⟩, hentry, h⟩
    cases entry with
    | directory => cases h
    | file found =>
      simp only [Option.ite_none_right_eq_some, Option.some.injEq, Prod.mk.injEq] at h
      obtain ⟨hscript, rfl, rfl⟩ := h
      exact ⟨hentry, hscript⟩
  · rintro ⟨hentry, hscript⟩
    exact ⟨_, hentry, if_pos hscript⟩

theorem Entry.listing_ne_nil {entry : Entry} {names : List String} {content : Content}
    (h : (names, content) ∈ entry.listing) : names ≠ [] := by
  cases entry with
  | file => cases h
  | directory entries =>
    rw [listing_directory, mem_append, mem_map, mem_flatMap] at h
    rcases h with ⟨own, _, heq⟩ | ⟨named, _, h⟩
    · exact (Prod.mk.inj heq).1 ▸ cons_ne_nil _ _
    · obtain ⟨found, _, heq⟩ := mem_map.mp h
      exact (Prod.mk.inj heq).1 ▸ cons_ne_nil _ _

theorem namesScript_cons {name : String} {names : List String} (h : names ≠ []) :
    NamesScript (name :: names) ↔ NamesScript names := by
  obtain ⟨first, rest, rfl⟩ := exists_cons_of_ne_nil h
  rw [NamesScript, NamesScript, getLast?_cons_cons]

/-- The listing has the files below an entry that are taken for scripts, and no others. -/
theorem Entry.mem_listing_iff {entry : Entry} {names : List String} {content : Content} :
    (names, content) ∈ entry.listing ↔ NamesScript names ∧ entry.Holds names content := by
  induction entry generalizing names with
  | file found =>
    refine ⟨fun h => absurd h not_mem_nil, ?_⟩
    rintro ⟨⟨_, hlast, _⟩, ⟨_⟩⟩
    cases hlast
  | directory entries ih =>
    rw [listing_directory, mem_append, mem_map, mem_flatMap, holds_directory_iff]
    constructor
    · rintro (⟨⟨name, found⟩, hown, heq⟩ | ⟨⟨name, entry⟩, hentry, h⟩)
      · obtain ⟨rfl, rfl⟩ := Prod.mk.inj heq
        obtain ⟨hfile, hscript⟩ := mem_ownListing.mp hown
        exact ⟨⟨name, rfl, hscript⟩, name, [], _, rfl, hfile, .here found⟩
      · obtain ⟨⟨rest, found⟩, hfound, heq⟩ := mem_map.mp h
        obtain ⟨rfl, rfl⟩ := Prod.mk.inj heq
        have hentry := mem_byName.mp hentry
        obtain ⟨hscript, hholds⟩ := (ih name entry hentry).mp hfound
        exact ⟨(namesScript_cons (listing_ne_nil hfound)).mpr hscript, name, rest, entry, rfl,
          hentry, hholds⟩
    · rintro ⟨hscript, name, rest, entry, rfl, hentry, hholds⟩
      by_cases hrest : rest = []
      · subst hrest
        cases hholds
        obtain ⟨last, hlast, hscript⟩ := hscript
        obtain rfl : name = last := Option.some.inj hlast
        exact .inl ⟨(name, content), mem_ownListing.mpr ⟨hentry, hscript⟩, rfl⟩
      · have hscript := (namesScript_cons hrest).mp hscript
        exact .inr ⟨(name, entry), mem_byName.mpr hentry, mem_map.mpr
          ⟨(rest, content), (ih name entry hentry).mpr ⟨hscript, hholds⟩, rfl⟩⟩

/-! ## Well-formed trees -/

/-- The name of an entry is not empty, and no path. -/
def IsName (name : String) : Prop :=
  name ≠ "" ∧ ¬ '/' ∈ name.toList

instance (name : String) : Decidable (IsName name) :=
  inferInstanceAs (Decidable (_ ∧ _))

/-- In every directory the entries have names, all of them different, and what the system says of a
file that it does not read is an error of its own. -/
inductive Entry.WellFormed : Entry → Prop
  | file {content : Content} (h : content ≠ .error .nullByte) : WellFormed (.file content)
  | directory {entries : List (String × Entry)} (nodup : (entries.map Prod.fst).Nodup)
      (names : ∀ named ∈ entries, IsName named.1)
      (below : ∀ named ∈ entries, WellFormed named.2) :
      WellFormed (.directory entries)

theorem pairwise_ownListing {entries : List (String × Entry)}
    (h : (entries.map Prod.fst).Nodup) : (ownListing entries).Pairwise fun a b => a.1 < b.1 := by
  refine pairwise_byName (Sublist.nodup ?_ h)
  induction entries with
  | nil => exact nil_sublist _
  | cons named rest ih =>
    obtain ⟨name, entry⟩ := named
    have ih := ih (nodup_cons.mp h).2
    cases entry with
    | directory => exact ih.cons _
    | file content =>
      by_cases hscript : isScriptName name = true
      · simpa [hscript] using ih
      · simpa [hscript] using ih.cons name

/-- The listing of a well-formed tree is in order. -/
theorem Entry.WellFormed.pairwise_listing {entry : Entry} (h : entry.WellFormed) :
    entry.listing.Pairwise fun a b => Precedes a.1 b.1 := by
  induction entry with
  | file => exact .nil
  | directory entries ih =>
    rcases h with _ | ⟨hnodup, _, hbelow⟩
    rw [listing_directory, pairwise_append]
    refine ⟨pairwise_map.mpr ((pairwise_ownListing hnodup).imp .own), ?_, ?_⟩
    · rw [pairwise_flatMap]
      refine ⟨fun named hnamed => ?_, (pairwise_byName hnodup).imp fun hlt a ha b hb => ?_⟩
      · have hentry := mem_byName.mp hnamed
        exact pairwise_map.mpr ((ih _ _ hentry (hbelow _ hentry)).imp .within)
      · obtain ⟨found, hfound, rfl⟩ := mem_map.mp ha
        obtain ⟨other, hother, rfl⟩ := mem_map.mp hb
        obtain ⟨c, rest, hc⟩ := exists_cons_of_ne_nil (listing_ne_nil hfound)
        obtain ⟨d, others, hd⟩ := exists_cons_of_ne_nil (listing_ne_nil hother)
        simpa only [hc, hd] using Precedes.apart hlt
    · intro a ha b hb
      obtain ⟨own, _, rfl⟩ := mem_map.mp ha
      obtain ⟨named, _, hb⟩ := mem_flatMap.mp hb
      obtain ⟨found, hfound, rfl⟩ := mem_map.mp hb
      obtain ⟨c, rest, hc⟩ := exists_cons_of_ne_nil (listing_ne_nil hfound)
      simpa only [hc] using Precedes.ownFirst

/-! ## Paths -/

theorem toList_join (directory name : String) :
    (join directory name).toList =
      if directory.toList.getLast? = some '/' then directory.toList ++ name.toList
      else directory.toList ++ '/' :: name.toList := by
  unfold join
  split <;> simp

/-- The characters that names add to a path that does not end in a slash. -/
def trail (names : List String) : List Char :=
  names.flatMap fun name => '/' :: name.toList

theorem getLast?_join {name : String} (h : IsName name) (directory : String) :
    (join directory name).toList.getLast? ≠ some '/' := by
  obtain ⟨hne, hslash⟩ := h
  have hchars : name.toList ≠ [] := by simpa using hne
  have hlast : (join directory name).toList.getLast? = name.toList.getLast? := by
    rw [toList_join]
    split
    · exact getLast?_append_of_ne_nil _ hchars
    · rw [getLast?_append_of_ne_nil _ (cons_ne_nil _ _), getLast?_cons_of_ne_nil hchars]
  rw [hlast]
  exact fun h => hslash (mem_of_getLast? h)

theorem toList_pathOf {directory : String} (hdirectory : directory.toList.getLast? ≠ some '/')
    {names : List String} (h : ∀ name ∈ names, IsName name) :
    (pathOf directory names).toList = directory.toList ++ trail names := by
  induction names generalizing directory with
  | nil => simp [pathOf, trail]
  | cons name names ih =>
    obtain ⟨hname, hnames⟩ := forall_mem_cons.mp h
    have hpath := ih (getLast?_join hname directory) hnames
    rw [pathOf] at hpath ⊢
    rw [foldl_cons, hpath, toList_join, if_neg hdirectory]
    simp [trail]

/-- A name ends where the trail of the names after it starts. -/
theorem takeWhile_append_trail {name : String} (h : IsName name) (names : List String) :
    (name.toList ++ trail names).takeWhile (· ≠ '/') = name.toList := by
  have hname : ∀ c ∈ name.toList, decide (c ≠ '/') = true := by
    intro c hc
    exact decide_eq_true fun hslash => h.2 (hslash ▸ hc)
  rw [takeWhile_append_of_pos hname]
  cases names <;> simp [trail]

theorem trail_injective {a b : List String} (ha : ∀ name ∈ a, IsName name)
    (hb : ∀ name ∈ b, IsName name) (h : trail a = trail b) : a = b := by
  induction a generalizing b with
  | nil =>
    cases b with
    | nil => rfl
    | cons => cases h
  | cons name a ih =>
    cases b with
    | nil => cases h
    | cons other b =>
      obtain ⟨hname, ha⟩ := forall_mem_cons.mp ha
      obtain ⟨hother, hb⟩ := forall_mem_cons.mp hb
      have h : name.toList ++ trail a = other.toList ++ trail b := (cons.inj h).2
      have hchars : name.toList = other.toList := by
        rw [← takeWhile_append_trail hname a, h, takeWhile_append_trail hother b]
      rw [hchars, append_cancel_left_eq] at h
      rw [String.toList_inj.mp hchars, ih ha hb h]

/-- The path of a directory with or without a slash at its end, and then the trail. -/
theorem exists_toList_pathOf (directory : String) : ∃ front : List Char,
    ∀ names : List String, names ≠ [] → (∀ name ∈ names, IsName name) →
      (pathOf directory names).toList = front ++ trail names := by
  by_cases hlast : directory.toList.getLast? = some '/'
  · obtain ⟨front, hfront⟩ := getLast?_eq_some_iff.mp hlast
    refine ⟨front, fun names hne hnames => ?_⟩
    obtain ⟨name, rest, rfl⟩ := exists_cons_of_ne_nil hne
    obtain ⟨hname, hrest⟩ := forall_mem_cons.mp hnames
    have hpath := toList_pathOf (getLast?_join hname directory) hrest
    rw [pathOf] at hpath ⊢
    rw [foldl_cons, hpath, toList_join, if_pos hlast, hfront]
    simp [trail]
  · exact ⟨directory.toList, fun names _ hnames => toList_pathOf hlast hnames⟩

/-- Different names lead to different paths. -/
theorem pathOf_injective {directory : String} {a b : List String} (hane : a ≠ []) (hbne : b ≠ [])
    (ha : ∀ name ∈ a, IsName name) (hb : ∀ name ∈ b, IsName name)
    (h : pathOf directory a = pathOf directory b) : a = b := by
  obtain ⟨front, hfront⟩ := exists_toList_pathOf directory
  have htrail := congrArg String.toList h
  rw [hfront a hane ha, hfront b hbne hb, append_cancel_left_eq] at htrail
  exact trail_injective ha hb htrail

theorem Entry.WellFormed.names {entry : Entry} (h : entry.WellFormed) {names : List String}
    {content : Content} (hholds : entry.Holds names content) : ∀ name ∈ names, IsName name := by
  induction hholds with
  | here => exact fun _ h => absurd h not_mem_nil
  | step hentry _ ih =>
    rcases h with _ | ⟨_, hnames, hbelow⟩
    exact forall_mem_cons.mpr ⟨hnames _ hentry, ih (hbelow _ hentry)⟩

/-- The scripts below a well-formed directory are collected under different paths. -/
theorem Entry.WellFormed.nodup_scripts {entry : Entry} (h : entry.WellFormed) (path : String) :
    ((entry.scripts path).map Prod.fst).Nodup := by
  rw [scripts_eq_map_listing, map_map]
  refine pairwise_map.mpr (h.pairwise_listing.imp_of_mem fun {a b} ha hb hbefore heq => ?_)
  have hnames : a.1 = b.1 := pathOf_injective (listing_ne_nil ha) (listing_ne_nil hb)
    (h.names (mem_listing_iff.mp ha).2) (h.names (mem_listing_iff.mp hb).2) heq
  exact Precedes.irrefl _ (hnames ▸ hbefore)

/-! ## Other orders of listing -/

/-- The entries are the same, but for the order in which the entries of a directory are listed. -/
inductive Entry.Relists : Entry → Entry → Prop
  | file (content : Content) : Relists (.file content) (.file content)
  | directory {entries listed : List (String × Entry)}
      (names : entries.map Prod.fst ~ listed.map Prod.fst)
      (below : ∀ name entry other, (name, entry) ∈ entries → (name, other) ∈ listed →
        Relists entry other) :
      Relists (.directory entries) (.directory listed)

/-- The entries of a directory may change places. -/
theorem Entry.relists_of_perm {entries listed : List (String × Entry)}
    (hnodup : (entries.map Prod.fst).Nodup) (h : entries ~ listed)
    (hbelow : ∀ named ∈ entries, named.2.Relists named.2) :
    (Entry.directory entries).Relists (.directory listed) := by
  refine .directory (h.map Prod.fst) fun name entry other hentry hother => ?_
  have hsame : (name, entry) = (name, other) :=
    inj_on_of_nodup_map hnodup hentry (h.mem_iff.mpr hother) rfl
  cases hsame
  exact hbelow (name, entry) hentry

theorem Entry.WellFormed.relists {entry : Entry} (h : entry.WellFormed) : entry.Relists entry := by
  induction entry with
  | file content => exact .file content
  | directory entries ih =>
    rcases h with _ | ⟨hnodup, _, hbelow⟩
    exact relists_of_perm hnodup (.refl _) fun named hnamed =>
      ih named.1 named.2 hnamed (hbelow named hnamed)

namespace Entry.Relists

variable {entry other : Entry}

theorem symm (h : entry.Relists other) : other.Relists entry := by
  induction h with
  | file content => exact .file content
  | directory names _ ih => exact .directory names.symm fun name a b ha hb => ih name b a hb ha

theorem exists_mem {entries listed : List (String × Entry)}
    (h : entries.map Prod.fst ~ listed.map Prod.fst) {name : String} {entry : Entry}
    (hentry : (name, entry) ∈ entries) : ∃ other, (name, other) ∈ listed := by
  obtain ⟨⟨_, other⟩, hother, rfl⟩ := mem_map.mp (h.mem_iff.mp (mem_map_of_mem hentry))
  exact ⟨other, hother⟩

theorem wellFormed (h : entry.Relists other) (hentry : entry.WellFormed) : other.WellFormed := by
  induction h with
  | file => exact hentry
  | directory names _ ih =>
    rcases hentry with _ | ⟨hnodup, hnames, hbelow⟩
    refine .directory (names.nodup_iff.mp hnodup) (fun named hother => ?_) fun named hother => ?_
    · obtain ⟨entry, hentry⟩ := exists_mem names.symm hother
      exact hnames (named.1, entry) hentry
    · obtain ⟨entry, hentry⟩ := exists_mem names.symm hother
      exact ih named.1 entry named.2 hentry hother (hbelow (named.1, entry) hentry)

theorem holds (h : entry.Relists other) {names : List String} {content : Content}
    (hholds : entry.Holds names content) : other.Holds names content := by
  induction hholds generalizing other with
  | here content =>
    cases h
    exact .here content
  | step hentry _ ih =>
    rcases h with _ | ⟨hnames, hbelow⟩
    obtain ⟨other, hother⟩ := exists_mem hnames hentry
    exact .step hother (ih (hbelow _ _ _ hentry hother))

theorem holds_iff (h : entry.Relists other) {names : List String} {content : Content} :
    entry.Holds names content ↔ other.Holds names content :=
  ⟨h.holds, h.symm.holds⟩

/-- The order in which entries are listed does not show. -/
theorem listing_eq (h : entry.Relists other) (hentry : entry.WellFormed) :
    entry.listing = other.listing := by
  have hirrefl : Std.Irrefl fun a b : List String × Content => Precedes a.1 b.1 :=
    ⟨fun a => Precedes.irrefl a.1⟩
  have hantisymm : Std.Antisymm fun a b : List String × Content => Precedes a.1 b.1 :=
    ⟨fun _ _ hab hba => (hab.asymm hba).elim⟩
  refine hentry.pairwise_listing.eq_of_mem_iff (h.wellFormed hentry).pairwise_listing
    fun found => ?_
  rw [mem_listing_iff, mem_listing_iff, h.holds_iff]

theorem scripts_eq (h : entry.Relists other) (hentry : entry.WellFormed) (path : String) :
    entry.scripts path = other.scripts path := by
  rw [scripts_eq_map_listing, scripts_eq_map_listing, h.listing_eq hentry]

end Entry.Relists

end OverrideElision.Files
