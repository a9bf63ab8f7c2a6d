import Mathlib.Data.List.Basic
import Mathlib.Data.List.Nodup
import OverrideElision.Context

/-! # Records of assignments

A context is told of assignments one after the other. What it holds of a member afterwards is the
union of what it was told: the assignments, their scripts, and whether one of them was marked. Being
told of an assignment again changes nothing, and members of which a context is told nothing leave no
trace in its records. -/

namespace OverrideElision

open List

namespace Table

variable {κ α : Type} [DecidableEq κ]

/-! ## Tables -/

theorem alterIn_of_lookup {key : κ} {change : Option α → α} {value : α} {entries : List (κ × α)}
    (hvalue : entries.lookup key = some value) (hchange : change (some value) = value) :
    alterIn key change entries = entries := by
  induction entries with
  | nil => cases hvalue
  | cons entry rest ih =>
    obtain ⟨k, v⟩ := entry
    unfold alterIn
    by_cases hk : k = key
    · subst hk
      obtain rfl : v = value := by simpa using hvalue
      rw [if_pos rfl, hchange]
    · have hrest : rest.lookup key = some value := by
        simpa [lookup_cons, beq_false_of_ne (Ne.symm hk)] using hvalue
      rw [if_neg hk, ih hrest]

theorem alterIn_filter {p : κ → Bool} {key : κ} (hp : p key = true) (change : Option α → α)
    (entries : List (κ × α)) :
    alterIn key change (entries.filter (p ·.1)) = (alterIn key change entries).filter (p ·.1) := by
  induction entries with
  | nil => simp [alterIn, hp]
  | cons entry rest ih =>
    obtain ⟨k, v⟩ := entry
    by_cases hk : k = key
    · subst hk
      simp [alterIn, hp]
    · cases hpk : p k <;> simp [alterIn, hk, hpk, ih]

theorem filter_alterIn {p : κ → Bool} {key : κ} (hp : p key = false) (change : Option α → α)
    (entries : List (κ × α)) :
    (alterIn key change entries).filter (p ·.1) = entries.filter (p ·.1) := by
  induction entries with
  | nil => simp [alterIn, hp]
  | cons entry rest ih =>
    obtain ⟨k, v⟩ := entry
    by_cases hk : k = key
    · subst hk
      simp [alterIn, hp]
    · cases hpk : p k <;> simp [alterIn, hk, hpk, ih]

theorem mem_entries_iff {table : Table κ α} {key : κ} {value : α} :
    (key, value) ∈ table.entries ↔ table.get? key = some value := by
  obtain ⟨entries, hnodup⟩ := table
  unfold get?
  induction entries with
  | nil => simp
  | cons entry rest ih =>
    obtain ⟨k, v⟩ := entry
    obtain ⟨hfresh, hrest⟩ := nodup_cons.mp hnodup
    by_cases hk : key = k
    · subst hk
      have hnot : ¬ (key, value) ∈ rest := fun hmem => hfresh (mem_map.mpr ⟨_, hmem, rfl⟩)
      simp [hnot, eq_comm]
    · rw [mem_cons, lookup_cons, beq_false_of_ne hk]
      simpa [hk] using ih hrest

theorem get?_eq_of_perm {a b : Table κ α} (h : a.entries ~ b.entries) (key : κ) :
    a.get? key = b.get? key := by
  refine Option.ext fun value => ?_
  rw [← mem_entries_iff, h.mem_iff, mem_entries_iff]

theorem get?_filter (table : Table κ α) (p : α → Bool) (key : κ) :
    (table.filter p).get? key = (table.get? key).filter p := by
  apply Option.ext
  intro value
  rw [← mem_entries_iff, Option.filter_eq_some_iff, ← mem_entries_iff]
  exact mem_filter

theorem get?_of_entries_filter {a b : Table κ α} {p : κ → Bool} {key : κ}
    (h : b.entries = a.entries.filter (p ·.1)) (hp : p key = true) : b.get? key = a.get? key := by
  apply Option.ext
  intro value
  rw [← mem_entries_iff, ← mem_entries_iff, h, mem_filter]
  exact and_iff_left hp

end Table

namespace DefinitionRecord

theorem mem_add {record : DefinitionRecord} {assignment : Nat} {script : String} {marked : Bool}
    {i : Nat} :
    i ∈ (record.add assignment script marked).assignments ↔
      i ∈ record.assignments ∨ i = assignment := by
  change i ∈ (if assignment ∈ record.assignments then record.assignments
    else record.assignments ++ [assignment]) ↔ _
  split
  · rename_i hseen
    constructor
    · exact .inl
    · intro h
      rcases h with hi | rfl
      · exact hi
      · exact hseen
  · simp

/-- The record holds a sighting: its assignment, its script, and its mark if there is one. -/
structure Holds (record : DefinitionRecord) (assignment : Nat) (script : String) (marked : Bool) :
    Prop where
  assignment : assignment ∈ record.assignments
  script : script ∈ record.scripts
  marked : marked = true → record.suppressed = true

/-- A sighting that the record holds adds nothing to it. -/
theorem Holds.add_eq {record : DefinitionRecord} {assignment : Nat} {script : String}
    {marked : Bool} (h : record.Holds assignment script marked) :
    record.add assignment script marked = record := by
  have hscripts : record.scripts.insert script = record.scripts := by
    ext x
    rw [NameSet.mem_insert]
    constructor
    · intro h
      rcases h with rfl | hx
      · exact h.script
      · exact hx
    · exact .inr
  have hmarked : (record.suppressed || marked) = record.suppressed := by
    cases marked with
    | false => exact Bool.or_false _
    | true => simp [h.marked rfl]
  obtain ⟨assignments, scripts, suppressed, hnodup⟩ := record
  simp only [DefinitionRecord.add, mk.injEq]
  exact ⟨if_pos h.assignment, hscripts, hmarked⟩

/-- The larger record holds all that the record does. -/
structure Within (record larger : DefinitionRecord) : Prop where
  assignments : ∀ i ∈ record.assignments, i ∈ larger.assignments
  scripts : ∀ name ∈ record.scripts, name ∈ larger.scripts
  suppressed : record.suppressed = true → larger.suppressed = true

/-- Two different assignments were seen. -/
def Duplicated (record : DefinitionRecord) : Prop :=
  ∃ i ∈ record.assignments, ∃ j ∈ record.assignments, i ≠ j

theorem Duplicated.of_within {record larger : DefinitionRecord} (h : record.Duplicated)
    (hwithin : record.Within larger) : larger.Duplicated := by
  rcases h with ⟨i, hi, j, hj, hne⟩
  exact ⟨i, hwithin.assignments i hi, j, hwithin.assignments j hj, hne⟩

theorem one_lt_count_iff {record : DefinitionRecord} : 1 < record.count ↔ record.Duplicated := by
  unfold count Duplicated
  constructor
  · intro hcount
    have hpos : 0 < record.assignments.length := Nat.zero_lt_of_lt hcount
    refine ⟨_, getElem_mem hpos, _, getElem_mem hcount, ?_⟩
    intro heq
    have hindex : 0 = 1 := record.assignments_nodup.getElem_inj_iff.mp heq
    omega
  · intro h
    rcases h with ⟨i, hi, j, hj, hne⟩
    match record.assignments, hi, hj with
    | [x], hi, hj => exact absurd ((mem_singleton.mp hi).trans (mem_singleton.mp hj).symm) hne
    | _ :: _ :: rest, _, _ => simp

theorem count_eq_of_mem_iff {a b : DefinitionRecord}
    (h : ∀ i, i ∈ a.assignments ↔ i ∈ b.assignments) : a.count = b.count :=
  ((perm_ext_iff_of_nodup a.assignments_nodup b.assignments_nodup).mpr h).length_eq

end DefinitionRecord

/-! ## Sightings -/

/-- An assignment that a context is told of: its member, its identity, the script that it stands in,
and the documentation of the statement around it. -/
structure Sighting where
  member : Member
  assignment : Nat
  script : String
  info : Doc.Info

/-- What a context is told of an assignment in a program. -/
def Annotations.sighting (annotations : Annotations) (a : MemberAssignment) : Sighting :=
  ⟨a.member, a.assignment.id, a.scriptName, annotations.info a.enclosing⟩

namespace DefinitionRecord

/-- The record with several more sightings, of which those that suppress `mark` are marked. -/
def addAll (record : DefinitionRecord) (mark : String) (xs : List Sighting) : DefinitionRecord :=
  xs.foldl (fun record x =>
    record.add x.assignment x.script (decide (mark ∈ x.info.suppressions))) record

variable {record : DefinitionRecord} {mark : String} {xs : List Sighting}

theorem addAll_cons (x : Sighting) :
    record.addAll mark (x :: xs) =
      (record.add x.assignment x.script (decide (mark ∈ x.info.suppressions))).addAll mark xs :=
  rfl

theorem mem_assignments_addAll {i : Nat} :
    i ∈ (record.addAll mark xs).assignments ↔
      i ∈ record.assignments ∨ ∃ x ∈ xs, x.assignment = i := by
  induction xs generalizing record with
  | nil => simp [addAll]
  | cons x xs ih =>
    rw [addAll_cons, ih, mem_add]
    simp [or_assoc, eq_comm]

theorem mem_scripts_addAll {name : String} :
    name ∈ (record.addAll mark xs).scripts ↔
      name ∈ record.scripts ∨ ∃ x ∈ xs, x.script = name := by
  induction xs generalizing record with
  | nil => simp [addAll]
  | cons x xs ih =>
    rw [addAll_cons, ih, add, NameSet.mem_insert]
    simp [or_assoc, or_left_comm, eq_comm]

theorem suppressed_addAll :
    (record.addAll mark xs).suppressed = true ↔
      record.suppressed = true ∨ ∃ x ∈ xs, mark ∈ x.info.suppressions := by
  induction xs generalizing record with
  | nil => simp [addAll]
  | cons x xs ih =>
    rw [addAll_cons, ih, add]
    simp [or_assoc]

theorem within_addAll : record.Within (record.addAll mark xs) :=
  ⟨fun _ hi => mem_assignments_addAll.mpr (.inl hi),
    fun _ hname => mem_scripts_addAll.mpr (.inl hname),
    fun hmarked => suppressed_addAll.mpr (.inl hmarked)⟩

theorem holds_addAll {x : Sighting} (hx : x ∈ xs) :
    (record.addAll mark xs).Holds x.assignment x.script
      (decide (mark ∈ x.info.suppressions)) := by
  refine ⟨mem_assignments_addAll.mpr (.inr ⟨x, hx, rfl⟩),
    mem_scripts_addAll.mpr (.inr ⟨x, hx, rfl⟩), ?_⟩
  intro hmarked
  exact suppressed_addAll.mpr (.inr ⟨x, hx, of_decide_eq_true hmarked⟩)

end DefinitionRecord

namespace Context

/-- The context that is told of one more assignment. -/
def see (context : Context) (x : Sighting) : Context :=
  context.note x.member x.assignment x.script x.info

/-- The context that is told of several more assignments. -/
def seeAll (context : Context) (xs : List Sighting) : Context :=
  xs.foldl see context

/-- The record of a member, empty as long as nothing was seen of it. -/
def record (context : Context) (member : Member) : DefinitionRecord :=
  (context.record? member).getD { assignments_nodup := nodup_nil }

variable {context : Context} {annotations : Annotations}

theorem seeAll_cons (x : Sighting) (xs : List Sighting) :
    context.seeAll (x :: xs) = (context.see x).seeAll xs :=
  rfl

theorem seeAll_append (xs ys : List Sighting) :
    context.seeAll (xs ++ ys) = (context.seeAll xs).seeAll ys :=
  foldl_append

theorem record?_see (x : Sighting) (member : Member) :
    (context.see x).record? member =
      if member = x.member then
        some ((context.record x.member).add x.assignment x.script
          (decide (context.options.duplicateSuppression ∈ x.info.suppressions)))
      else context.record? member :=
  Table.get?_alter ..

theorem options_seeAll (xs : List Sighting) : (context.seeAll xs).options = context.options := by
  induction xs generalizing context with
  | nil => rfl
  | cons x xs ih => rw [seeAll_cons, ih]; rfl

/-- A member has a record when something was seen of it. -/
theorem isSome_record?_seeAll {xs : List Sighting} {member : Member} :
    ((context.seeAll xs).record? member).isSome = true ↔
      (context.record? member).isSome = true ∨ ∃ x ∈ xs, x.member = member := by
  induction xs generalizing context with
  | nil => simp [seeAll]
  | cons x xs ih =>
    rw [seeAll_cons, ih, record?_see]
    by_cases hmember : member = x.member
    · simp [hmember]
    · simp [hmember, Ne.symm hmember]

/-- The record of a member is made of the sightings of this member, one after the other. -/
theorem record_seeAll (context : Context) (xs : List Sighting) (member : Member) :
    (context.seeAll xs).record member =
      (context.record member).addAll context.options.duplicateSuppression
        (xs.filter (·.member = member)) := by
  induction xs generalizing context with
  | nil => rfl
  | cons x xs ih =>
    have hsee : (context.see x).record member = if member = x.member then
        (context.record x.member).add x.assignment x.script
          (decide (context.options.duplicateSuppression ∈ x.info.suppressions))
        else context.record member := by
      rw [record, record?_see]
      split <;> rfl
    have hoptions : (context.see x).options = context.options := rfl
    rw [seeAll_cons, ih, hsee, hoptions]
    by_cases hmember : x.member = member
    · subst hmember
      simp [DefinitionRecord.addAll_cons]
    · simp [hmember, Ne.symm hmember]

/-- The context holds a sighting that it was told of. -/
def Knows (context : Context) (x : Sighting) : Prop :=
  ∃ record, context.record? x.member = some record ∧ record.Holds x.assignment x.script
    (decide (context.options.duplicateSuppression ∈ x.info.suppressions))

theorem knows_seeAll {xs : List Sighting} {x : Sighting} (hx : x ∈ xs) :
    (context.seeAll xs).Knows x := by
  have hsome : ((context.seeAll xs).record? x.member).isSome = true :=
    isSome_record?_seeAll.mpr (.inr ⟨x, hx, rfl⟩)
  obtain ⟨record, hrecord⟩ := Option.isSome_iff_exists.mp hsome
  have hadded := record_seeAll context xs x.member
  rw [Context.record, hrecord, Option.getD_some] at hadded
  refine ⟨record, hrecord, ?_⟩
  rw [options_seeAll, hadded]
  exact DefinitionRecord.holds_addAll (mem_filter.mpr ⟨hx, decide_eq_true rfl⟩)

theorem Knows.see_eq {x : Sighting} (h : context.Knows x) : context.see x = context := by
  obtain ⟨record, hrecord, hholds⟩ := h
  have hentries : (context.see x).records = context.records := by
    refine Table.ext (Table.alterIn_of_lookup hrecord ?_)
    exact hholds.add_eq
  exact congrArg (Context.mk context.options) hentries

/-- Being told again of what the context holds leaves it as it is. -/
theorem seeAll_of_knows {xs : List Sighting} (h : ∀ x ∈ xs, context.Knows x) :
    context.seeAll xs = context := by
  induction xs with
  | nil => rfl
  | cons x xs ih =>
    rw [seeAll_cons, (h x mem_cons_self).see_eq]
    exact ih fun y hy => h y (mem_cons_of_mem x hy)

/-! ## Notes of a program -/

/-- Notes one assignment of a program, with the documentation of the statement around it. -/
def noteOne (context : Context) (annotations : Annotations) (a : MemberAssignment) : Context :=
  context.note a.member a.assignment.id a.scriptName (annotations.info a.enclosing)

/-- The assignment is marked as an intended duplicate. -/
def marks (context : Context) (annotations : Annotations) (a : MemberAssignment) : Bool :=
  decide (context.options.duplicateSuppression ∈ (annotations.info a.enclosing).suppressions)

/-- The context holds an assignment that it has noted. -/
def Holds (context : Context) (annotations : Annotations) (a : MemberAssignment) : Prop :=
  ∃ record, context.record? a.member = some record ∧
    record.Holds a.assignment.id a.scriptName (context.marks annotations a)

theorem noteAll_eq_seeAll (as : List MemberAssignment) :
    context.noteAll annotations as = context.seeAll (as.map annotations.sighting) := by
  rw [seeAll, foldl_map]
  rfl

theorem noteAll_cons (a : MemberAssignment) (rest : List MemberAssignment) :
    context.noteAll annotations (a :: rest) =
      (context.noteOne annotations a).noteAll annotations rest :=
  rfl

theorem options_noteAll (as : List MemberAssignment) :
    (context.noteAll annotations as).options = context.options := by
  rw [noteAll_eq_seeAll, options_seeAll]

theorem holds_noteAll {as : List MemberAssignment} {a : MemberAssignment} (ha : a ∈ as) :
    (context.noteAll annotations as).Holds annotations a := by
  rw [noteAll_eq_seeAll]
  exact knows_seeAll (mem_map_of_mem ha)

/-- Noting again what the context holds leaves it as it is. -/
theorem noteAll_of_holds {as : List MemberAssignment}
    (h : ∀ a ∈ as, context.Holds annotations a) : context.noteAll annotations as = context := by
  rw [noteAll_eq_seeAll]
  refine seeAll_of_knows fun x hx => ?_
  obtain ⟨a, ha, rfl⟩ := mem_map.mp hx
  exact h a ha

/-- Members whose assignments are all left out leave no trace in the records. -/
theorem entries_noteAll_filter {context' : Context} {p : Member → Bool}
    (hoptions : context'.options = context.options)
    (hentries : context'.records.entries = context.records.entries.filter (p ·.1))
    (as : List MemberAssignment) :
    (context'.noteAll annotations (as.filter (p ·.member))).records.entries =
      (context.noteAll annotations as).records.entries.filter (p ·.1) := by
  induction as generalizing context context' with
  | nil => exact hentries
  | cons a rest ih =>
    cases hp : p a.member with
    | false =>
      rw [filter_cons_of_neg (by simp [hp]), noteAll_cons]
      refine ih hoptions (hentries.trans ?_)
      exact (Table.filter_alterIn hp _ _).symm
    | true =>
      rw [filter_cons_of_pos (by simp [hp]), noteAll_cons, noteAll_cons]
      refine ih hoptions ?_
      change Table.alterIn a.member _ context'.records.entries = _
      rw [hentries, Table.alterIn_filter hp, hoptions]
      rfl

/-! ## What was seen -/

/-- The assignments to a member that the context has seen. -/
def seen (context : Context) (member : Member) : List Nat :=
  ((context.record? member).map DefinitionRecord.assignments).getD []

theorem seen_eq (context : Context) (member : Member) :
    context.seen member = (context.record member).assignments := by
  unfold seen record
  cases context.record? member <;> rfl

theorem isDuplicated_iff_duplicated {member : Member} :
    context.isDuplicated member = true ↔ (context.record member).Duplicated := by
  unfold isDuplicated record
  cases context.record? member with
  | none => simp [DefinitionRecord.Duplicated]
  | some record =>
    rw [Option.any_some, Option.getD_some, decide_eq_true_eq, DefinitionRecord.one_lt_count_iff]

theorem get?_duplicates (context : Context) (member : Member) :
    context.duplicates.get? member = (context.record? member).filter (1 < ·.count) :=
  Table.get?_filter ..

/-- A member is duplicated when two different assignments to it were seen. -/
theorem isDuplicated_iff {member : Member} :
    context.isDuplicated member = true ↔
      ∃ i ∈ context.seen member, ∃ j ∈ context.seen member, i ≠ j := by
  rw [isDuplicated_iff_duplicated, seen_eq]
  rfl

end Context

end OverrideElision
