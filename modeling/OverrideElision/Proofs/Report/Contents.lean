import Mathlib.Data.List.Sort
import OverrideElision.Proofs.Records
import OverrideElision.Proofs.Sorting
import OverrideElision.Report.Listing

/-! # What a report contains

A report lists what its tables hold in sorted order. So its contents do not depend on the order in
which the tables were filled, and reports with the same contents agree in all they show. -/

namespace OverrideElision

open List

namespace Report

/-! ## Sorted listings -/

/-- The classes are listed in strictly increasing order. -/
theorem pairwise_sortedClasses (report : Report) :
    report.sortedClasses.Pairwise fun a b => a.1 < b.1 :=
  pairwise_mergeSort_name Prod.fst report.classes.keys_nodup

/-- The duplicate members are listed in strictly increasing order. -/
theorem pairwise_sortedDuplicates (report : Report) :
    report.sortedDuplicates.Pairwise fun a b => a.1.Before b.1 :=
  (pairwise_mergeSort_key Prod.fst Member.le_trans Member.le_total
    report.duplicates.keys_nodup).imp fun ⟨hle, hne⟩ => Member.before_of_le_of_ne hle hne

theorem mem_sortedClasses {report : Report} {name : String} {declaration : ClassDeclaration} :
    (name, declaration) ∈ report.sortedClasses ↔
      report.classes.get? name = some declaration := by
  rw [sortedClasses, mem_mergeSort, Table.mem_entries_iff]

theorem mem_sortedDuplicates {report : Report} {member : Member} {record : DefinitionRecord} :
    (member, record) ∈ report.sortedDuplicates ↔
      report.duplicates.get? member = some record := by
  rw [sortedDuplicates, mem_mergeSort, Table.mem_entries_iff]

/-! ## Contents -/

/-- A class as a report shows it. -/
structure ShownClass where
  name : String
  superType : Option String
  superClass : Option String
  immediateSuper : Option String

/-- A parameter as a report shows it. -/
structure ShownParam where
  name : String
  kind : ParamKind

/-- A removed definition as a report shows it. -/
structure ShownRemoval where
  owner : String
  name : String
  params : List ShownParam
  source : String

/-- A duplicate member as a report shows it. -/
structure ShownDuplicate where
  owner : String
  name : String
  count : Nat
  sources : List String
  suppressed : Bool

/-- What a report shows. -/
@[ext]
structure Contents where
  classes : List ShownClass
  candidates : Nat
  removed : List ShownRemoval
  duplicates : List ShownDuplicate

/-- How a class is shown. -/
def shownClass (name : String) (declaration : ClassDeclaration) : ShownClass :=
  ⟨name, declaration.superType, declaration.superClass, declaration.immediateSuper?⟩

/-- How a removed definition is shown. -/
def shownRemoval (definition : MethodDefinition) : ShownRemoval :=
  ⟨definition.member.owner, definition.member.name,
    definition.params.map fun param => ⟨param.name, param.kind⟩, definition.scriptName⟩

/-- How a duplicate member is shown. -/
def shownDuplicate (member : Member) (record : DefinitionRecord) : ShownDuplicate :=
  ⟨member.owner, member.name, record.count, record.scripts.toList, record.suppressed⟩

/-- The list enumerates the set, in whatever order. -/
structure Enumerates (names : List String) (set : NameSet) : Prop where
  nodup : names.Nodup
  mem_iff : ∀ name, name ∈ names ↔ name ∈ set

/-- The contents are those of the report: what was removed in its order, and each class and each
duplicate member once, in strictly increasing order, the scripts of a member sorted however they are
enumerated. -/
structure Contents.Describes (contents : Contents) (report : Report) : Prop where
  candidates : contents.candidates = report.candidates
  removed : contents.removed = report.removed.map shownRemoval
  increasing : contents.classes.Pairwise fun a b => a.name < b.name
  classes : ∀ shown, shown ∈ contents.classes ↔
    ∃ name, (report.classes.get? name).map (shownClass name) = some shown
  increasingDuplicates : contents.duplicates.Pairwise fun a b =>
    a.owner < b.owner ∨ a.owner = b.owner ∧ a.name < b.name
  duplicates : ∀ shown, shown ∈ contents.duplicates ↔
    ∃ member, (report.duplicates.get? member).map (shownDuplicate member) = some shown
  sources : ∀ member record, report.duplicates.get? member = some record →
    ∀ names, Enumerates names record.scripts →
      (shownDuplicate member record).sources = names.mergeSort (· ≤ ·)

/-- The reports agree in all they show, whatever the order in which their tables were filled. -/
structure SameContents (a b : Report) : Prop where
  candidates : a.candidates = b.candidates
  removed : a.removed.map shownRemoval = b.removed.map shownRemoval
  classes : ∀ name, a.classes.get? name = b.classes.get? name
  duplicates : ∀ member, (a.duplicates.get? member).map (shownDuplicate member) =
    (b.duplicates.get? member).map (shownDuplicate member)

/-- The reports differ at most in the order in which their tables were filled. -/
structure Reorders (a b : Report) : Prop where
  candidates : a.candidates = b.candidates
  removed : a.removed = b.removed
  classes : a.classes.entries ~ b.classes.entries
  duplicates : a.duplicates.entries ~ b.duplicates.entries

theorem Reorders.sameContents {a b : Report} (h : a.Reorders b) : SameContents a b where
  candidates := h.candidates
  removed := by rw [h.removed]
  classes := Table.get?_eq_of_perm h.classes
  duplicates member := by rw [Table.get?_eq_of_perm h.duplicates member]

/-- What the report contains. -/
def contents (report : Report) : Contents where
  classes := report.sortedClasses.map fun (name, declaration) => shownClass name declaration
  candidates := report.candidates
  removed := report.removed.map shownRemoval
  duplicates := report.sortedDuplicates.map fun (member, record) => shownDuplicate member record

theorem Enumerates.mergeSort_eq {names : List String} {set : NameSet} (h : Enumerates names set) :
    names.mergeSort (· ≤ ·) = set.toList := by
  have hsorted : (names.mergeSort (· ≤ ·)).Pairwise (· < ·) :=
    pairwise_mergeSort_name id (by rw [map_id]; exact h.nodup)
  refine NameSet.eq_of_pairwise_of_mem_iff hsorted set.sorted fun name => ?_
  rw [mem_mergeSort, h.mem_iff, NameSet.mem_toList]

theorem contents_describes (report : Report) : report.contents.Describes report where
  candidates := rfl
  removed := rfl
  increasing := pairwise_map.mpr report.pairwise_sortedClasses
  classes shown := by
    simp only [contents, mem_map, Prod.exists, mem_sortedClasses, Option.map_eq_some_iff]
  increasingDuplicates := pairwise_map.mpr report.pairwise_sortedDuplicates
  duplicates shown := by
    simp only [contents, mem_map, Prod.exists, mem_sortedDuplicates, Option.map_eq_some_iff]
  sources _ _ _ _ h := h.mergeSort_eq.symm

/-! ## Agreement -/

namespace Contents.Describes

variable {report : Report}

/-- A report has no other contents. -/
theorem unique {a b : Contents} (ha : a.Describes report) (hb : b.Describes report) : a = b := by
  have hclass : Std.Irrefl fun a b : ShownClass => a.name < b.name :=
    ⟨fun _ => String.lt_irrefl _⟩
  have hclass' : Std.Antisymm fun a b : ShownClass => a.name < b.name :=
    ⟨fun _ _ hab hba => absurd (String.lt_trans hab hba) (String.lt_irrefl _)⟩
  have hmember : Std.Irrefl fun a b : ShownDuplicate =>
      a.owner < b.owner ∨ a.owner = b.owner ∧ a.name < b.name :=
    ⟨fun shown => Member.Before.irrefl ⟨shown.owner, shown.name⟩⟩
  have hmember' : Std.Antisymm fun a b : ShownDuplicate =>
      a.owner < b.owner ∨ a.owner = b.owner ∧ a.name < b.name :=
    ⟨fun a b hab hba => (Member.Before.asymm (a := ⟨a.owner, a.name⟩) (b := ⟨b.owner, b.name⟩)
      hab hba).elim⟩
  refine Contents.ext ?_ (ha.candidates.trans hb.candidates.symm)
    (ha.removed.trans hb.removed.symm) ?_
  · exact ha.increasing.eq_of_mem_iff hb.increasing fun shown =>
      (ha.classes shown).trans (hb.classes shown).symm
  · exact ha.increasingDuplicates.eq_of_mem_iff hb.increasingDuplicates fun shown =>
      (ha.duplicates shown).trans (hb.duplicates shown).symm

/-- Reports that agree have the same contents. -/
theorem of_sameContents {contents : Contents} {other : Report} (h : contents.Describes report)
    (hsame : SameContents report other) : contents.Describes other where
  candidates := h.candidates.trans hsame.candidates
  removed := h.removed.trans hsame.removed
  increasing := h.increasing
  classes shown := by simpa only [hsame.classes] using h.classes shown
  increasingDuplicates := h.increasingDuplicates
  duplicates shown := by simpa only [hsame.duplicates] using h.duplicates shown
  sources _ _ _ _ h := h.mergeSort_eq.symm

theorem map_shownClass_iff {contents : Contents} (h : contents.Describes report) {name : String}
    {shown : ShownClass} :
    (report.classes.get? name).map (shownClass name) = some shown ↔
      shown ∈ contents.classes ∧ shown.name = name := by
  have hname {name : String} {declaration : Option ClassDeclaration}
      (h : declaration.map (shownClass name) = some shown) : shown.name = name := by
    obtain ⟨_, _, rfl⟩ := Option.map_eq_some_iff.mp h
    rfl
  rw [h.classes]
  constructor
  · exact fun h => ⟨⟨name, h⟩, hname h⟩
  · rintro ⟨⟨other, h⟩, rfl⟩
    rwa [← hname h] at h

theorem map_shownDuplicate_iff {contents : Contents} (h : contents.Describes report)
    {member : Member} {shown : ShownDuplicate} :
    (report.duplicates.get? member).map (shownDuplicate member) = some shown ↔
      shown ∈ contents.duplicates ∧ ⟨shown.owner, shown.name⟩ = member := by
  have hmember {member : Member} {record : Option DefinitionRecord}
      (h : record.map (shownDuplicate member) = some shown) :
      ⟨shown.owner, shown.name⟩ = member := by
    obtain ⟨_, _, rfl⟩ := Option.map_eq_some_iff.mp h
    rfl
  rw [h.duplicates]
  constructor
  · exact fun h => ⟨⟨member, h⟩, hmember h⟩
  · rintro ⟨⟨other, h⟩, rfl⟩
    rwa [← hmember h] at h

/-- Reports with the same contents agree. -/
theorem sameContents {contents : Contents} {other : Report} (h : contents.Describes report)
    (hother : contents.Describes other) : SameContents report other := by
  have hinjective (name : String) : Function.Injective (shownClass name) := by
    rintro ⟨superType, superClass⟩ ⟨superType', superClass'⟩ heq
    simpa [shownClass] using And.intro (congrArg ShownClass.superType heq)
      (congrArg ShownClass.superClass heq)
  refine ⟨h.candidates.symm.trans hother.candidates, h.removed.symm.trans hother.removed,
    fun name => ?_, fun member => ?_⟩
  · refine Option.map_injective (hinjective name) (Option.ext fun shown => ?_)
    rw [h.map_shownClass_iff, hother.map_shownClass_iff]
  · refine Option.ext fun shown => ?_
    rw [h.map_shownDuplicate_iff, hother.map_shownDuplicate_iff]

end Contents.Describes

theorem contents_eq_iff {a b : Report} : a.contents = b.contents ↔ SameContents a b := by
  constructor
  · exact fun h => a.contents_describes.sameContents (h ▸ b.contents_describes)
  · exact fun h => (a.contents_describes.of_sameContents h).unique b.contents_describes

end Report

end OverrideElision
