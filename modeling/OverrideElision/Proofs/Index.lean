import OverrideElision.Index
import OverrideElision.Proofs.Members
import OverrideElision.Proofs.Walk.Stack

/-! # Definitions among assignments

The two tables of the index are filled by different readings of a statement, but what one statement
adds to the definitions of a member is part of what it adds to the assignments. The pass over the
program keeps it so, and a member has an own method just when nothing else is assigned to it. -/

namespace OverrideElision

open List

/-! ## What a pass gathers -/

/-- A view of the state that grows by `f x` with every item `x` has grown by all of them. -/
theorem view_foldl {α β γ : Type} (view : γ → List β) {step : γ → α → γ} {f : α → List β}
    (h : ∀ state x, view (step state x) = view state ++ f x) (xs : List α) (state : γ) :
    view (xs.foldl step state) = view state ++ xs.flatMap f := by
  induction xs generalizing state with
  | nil => simp
  | cons x xs ih => rw [foldl_cons, ih, h, flatMap_cons, append_assoc]

theorem length_filter_le_length_flatMap {α β : Type} (f : α → List β) (xs : List α) :
    (xs.filter fun x => !(f x).isEmpty).length ≤ (xs.flatMap f).length := by
  induction xs with
  | nil => simp
  | cons x xs ih =>
    rw [flatMap_cons, length_append, filter_cons]
    split
    · rename_i hx
      have hpos : 0 < (f x).length := length_pos_iff.mpr (by simpa using hx)
      rw [length_cons]
      omega
    · exact Nat.le_add_left_of_le ih

/-- Where only one thing is gathered, it comes from one item. -/
theorem eq_of_flatMap_eq_singleton {α β : Type} {f : α → List β} {xs : List α} {b : β}
    (h : xs.flatMap f = [b]) {x y : α} (hx : x ∈ xs) (hy : y ∈ xs) (hfx : f x ≠ [])
    (hfy : f y ≠ []) : x = y := by
  have hlength := length_filter_le_length_flatMap f xs
  rw [h, length_singleton] at hlength
  have hmem : ∀ z ∈ xs, f z ≠ [] → z ∈ xs.filter fun x => !(f x).isEmpty := by
    intro z hz hfz
    simpa using ⟨hz, hfz⟩
  have hpos := length_pos_of_mem (hmem x hx hfx)
  obtain ⟨z, hz⟩ := length_eq_one_iff.mp (Nat.le_antisymm hlength hpos)
  have hall : ∀ w ∈ xs, f w ≠ [] → w = z := by
    intro w hw hfw
    exact mem_singleton.mp (hz ▸ hmem w hw hfw)
  rw [hall x hx hfx, hall y hy hfy]

/-! ## Nested assignments -/

/-- The assignments below the one that a statement consists of; all of them if there is no such
assignment. -/
def Statement.nested (s : Statement) : List Occurrence :=
  match s.form with
  | .expr (.assign a) => a.value.occurrences s ++ a.target.occurrences s
  | _ => s.occurrences

theorem Statement.occurrences_eq_nested {s : Statement} {a : Assignment}
    (h : s.form = .expr (.assign a)) : s.occurrences = ⟨a, s⟩ :: s.nested := by
  simp only [nested, h, occurrences_eq, Form.occurrences, Expr.occurrences,
    Assignment.occurrences_eq]

theorem Statement.nested_sublist (s : Statement) : s.nested <+ s.occurrences := by
  cases hform : s.form with
  | expr e =>
    cases e with
    | assign a =>
      rw [occurrences_eq_nested hform]
      exact sublist_cons_self ..
    | _ => simp only [nested, hform, Sublist.refl]
  | _ => simp only [nested, hform, Sublist.refl]

namespace Index

/-! ## What a statement adds -/

theorem definitionsOf_addMethod (index : Index) (script : Script) (s : Statement)
    (member : Member) :
    (index.addMethod script s).definitionsOf member =
      index.definitionsOf member ++ (script.definition? s).toList.filter (·.member = member) := by
  unfold addMethod
  cases script.definition? s with
  | none => simp
  | some d =>
    by_cases hm : d.member = member
    · simp [definitionsOf, hm]
    · simp [definitionsOf, hm, Ne.symm hm]

theorem assignmentsTo_addMethod (index : Index) (script : Script) (s : Statement)
    (member : Member) :
    (index.addMethod script s).assignmentsTo member = index.assignmentsTo member := by
  unfold addMethod
  cases script.definition? s <;> rfl

theorem definitionsOf_addAssignment (index : Index) (script : Script) (o : Occurrence)
    (member : Member) :
    (addAssignment script index o).definitionsOf member = index.definitionsOf member := by
  unfold addAssignment
  cases script.memberAssignment? o <;> rfl

theorem assignmentsTo_addAssignment (index : Index) (script : Script) (o : Occurrence)
    (member : Member) :
    (addAssignment script index o).assignmentsTo member =
      index.assignmentsTo member ++
        (script.memberAssignment? o).toList.filter (·.member = member) := by
  unfold addAssignment
  cases script.memberAssignment? o with
  | none => simp
  | some x =>
    by_cases hm : x.member = member
    · simp [assignmentsTo, hm]
    · simp [assignmentsTo, hm, Ne.symm hm]

theorem definitionsOf_addStatement (index : Index) (script : Script) (s : Statement)
    (member : Member) :
    (addStatement script index s).definitionsOf member =
      index.definitionsOf member ++ (script.definition? s).toList.filter (·.member = member) := by
  have hstep : ∀ (index : Index) (o : Occurrence),
      (addAssignment script index o).definitionsOf member = index.definitionsOf member ++ [] := by
    intro index o
    rw [definitionsOf_addAssignment, append_nil]
  have hwalk := view_foldl (definitionsOf · member) hstep s.walk (index.addMethod script s)
  rw [addStatement, hwalk, definitionsOf_addMethod]
  simp

theorem assignmentsTo_addStatement (index : Index) (script : Script) (s : Statement)
    (member : Member) :
    (addStatement script index s).assignmentsTo member =
      index.assignmentsTo member ++
        (script.memberAssignments s).filter (·.member = member) := by
  have hstep := fun index o => assignmentsTo_addAssignment index script o member
  have hwalk := view_foldl (assignmentsTo · member) hstep s.walk (index.addMethod script s)
  rw [addStatement, hwalk, assignmentsTo_addMethod, s.walk_eq_occurrences, ← filter_flatMap,
    ← filterMap_eq_flatMap_toList, script.memberAssignments_eq_filterMap]

/-! ## The definitions are among the assignments -/

/-- The definitions of every member are, in order, among the assignments to it. -/
def Embedded (index : Index) : Prop :=
  ∀ member, (index.definitionsOf member).map MethodDefinition.assignment? <+
    (index.assignmentsTo member).map (some ·.assignment)

theorem embedded_empty : Embedded {} :=
  fun _ => Sublist.slnil

/-- A statement adds to the definitions only what it adds to the assignments too. -/
theorem Embedded.addStatement {index : Index} (h : index.Embedded) (script : Script)
    (s : Statement) : (index.addStatement script s).Embedded := by
  intro member
  rw [definitionsOf_addStatement, assignmentsTo_addStatement, map_append, map_append]
  exact (h member).append (script.definition?_sublist s member)

theorem Embedded.addScript {index : Index} (h : index.Embedded) (script : Script) :
    (index.addScript script).Embedded :=
  foldlRecOn _ _ h fun _ hindex s _ => hindex.addStatement script s

end Index

namespace Program

theorem index_embedded (program : Program) : program.index.Embedded :=
  foldlRecOn _ _ Index.embedded_empty fun _ hindex script _ => hindex.addScript script

/-! ## The tables of a program -/

/-- A view of the index that grows by `f script s` with every statement holds what `f` gives for
the program. -/
theorem view_index {α : Type} (program : Program) (view : Index → List α)
    {f : Script → Statement → List α} (hempty : view {} = [])
    (h : ∀ index script s, view (Index.addStatement script index s) = view index ++ f script s) :
    view program.index = program.collect f := by
  have hscript : ∀ index script, view (Index.addScript index script) =
      view index ++ script.statements.flatMap (f script) :=
    fun index script => view_foldl view (h · script) script.statements index
  rw [index, view_foldl view hscript, hempty, nil_append]
  rfl

theorem definitionsOf_index (program : Program) (member : Member) :
    program.index.definitionsOf member = program.definitions.filter (·.member = member) := by
  rw [definitions_eq_collect, filter_collect]
  exact program.view_index (Index.definitionsOf · member) rfl fun index script s =>
    index.definitionsOf_addStatement script s member

theorem assignmentsTo_index (program : Program) (member : Member) :
    program.index.assignmentsTo member = program.memberAssignments.filter (·.member = member) := by
  rw [memberAssignments_eq_collect, filter_collect]
  exact program.view_index (Index.assignmentsTo · member) rfl fun index script s =>
    index.assignmentsTo_addStatement script s member

/-- The own methods of the index are those of the hierarchy. -/
theorem ownMethod?_index (program : Program) (annotations : Annotations) (member : Member) :
    program.index.ownMethod? member = (program.hierarchy annotations).ownMethod? member := by
  have hdefinitions : (program.hierarchy annotations).definitionsOf member =
      program.index.definitionsOf member := (program.definitionsOf_index member).symm
  have hassignments : (program.hierarchy annotations).assignmentsTo member =
      program.index.assignmentsTo member := (program.assignmentsTo_index member).symm
  unfold Index.ownMethod? Hierarchy.ownMethod?
  rw [hdefinitions, hassignments]
  match program.index.definitionsOf member, program.index.assignmentsTo member with
  | [], _ => simp
  | [d], [] => simp
  | [d], [x] => simp
  | [d], _ :: _ :: _ => simp
  | _ :: _ :: _, _ => simp

/-! ## Own methods -/

/-- The own method of a member is the top-level definition that is the only assignment to it. -/
theorem ownMethod?_index_eq_some_iff {program : Program} {member : Member}
    {d : MethodDefinition} :
    program.index.ownMethod? member = some d ↔
      ∃ script ∈ program.scripts, ∃ s ∈ script.statements, ∃ a literal,
        s.Defines member a literal ∧ program.occurrencesOf member = [⟨a, s⟩] ∧
          d = ⟨member, literal, s, script.id, script.name⟩ := by
  rw [program.ownMethod?_index program.annotations, ownMethod?_iff]
  constructor
  · rintro ⟨hmem, a, ha, hsingle⟩
    obtain ⟨script, hscript, s, hs, hdefinition⟩ := mem_definitions.mp hmem
    obtain ⟨⟨a', ha'⟩, rfl, hid, hname⟩ := Script.definition?_eq_some_iff.mp hdefinition
    obtain ⟨rfl, _, _⟩ := ha.assignment_unique ha'
    exact ⟨script, hscript, _, hs, a, d.function, ha, hsingle, by rw [← hid, ← hname]⟩
  · rintro ⟨script, hscript, s, hs, a, literal, ha, hsingle, rfl⟩
    refine ⟨mem_definitions.mpr ⟨script, hscript, s, hs, ?_⟩, a, ha, hsingle⟩
    exact Script.definition?_eq_some_iff.mpr ⟨⟨a, ha⟩, rfl, rfl, rfl⟩

/-- An assignment to the member that is nested leaves it without own method. -/
theorem ownMethod?_index_of_nested {program : Program} {member : Member} {s : Statement}
    (hs : s ∈ program.statements) {o : Occurrence} (ho : o ∈ s.nested)
    (htarget : o.assignment.target.IsMember member) :
    program.index.ownMethod? member = none := by
  refine Option.eq_none_iff_forall_ne_some.mpr fun d hd => ?_
  obtain ⟨script, hscript, t, ht, a, literal, ha, hsingle, rfl⟩ :=
    ownMethod?_index_eq_some_iff.mp hd
  have hnested : o ∈ s.nested.filter (·.assignment.target.IsMember member) :=
    mem_filter.mpr ⟨ho, decide_eq_true htarget⟩
  -- What is nested in `s` and what defines the member are one occurrence, hence in one statement.
  have hs' : s.occurrencesOf member ≠ [] :=
    ne_nil_of_mem (mem_filter.mpr ⟨s.nested_sublist.subset ho, decide_eq_true htarget⟩)
  have ht' : t.occurrencesOf member ≠ [] :=
    ne_nil_of_mem (mem_filter.mpr ⟨ha.mem_occurrences, decide_eq_true ha.target⟩)
  obtain rfl : s = t :=
    eq_of_flatMap_eq_singleton hsingle hs (mem_statements.mpr ⟨script, hscript, ht⟩) hs' ht'
  -- But that statement has both.
  have hboth : s.occurrencesOf member =
      ⟨a, s⟩ :: s.nested.filter (·.assignment.target.IsMember member) := by
    rw [Statement.occurrencesOf, Statement.occurrences_eq_nested ha.form_eq]
    exact filter_cons_of_pos (decide_eq_true ha.target)
  have hsub : s.occurrencesOf member <+ [⟨a, s⟩] := by
    rw [← hsingle, occurrencesOf, flatMap_def]
    exact sublist_flatten_of_mem (mem_map_of_mem hs)
  rw [hboth] at hsub
  exact not_mem_nil (sublist_nil.mp (cons_sublist_cons.mp hsub) ▸ hnested)

/-- An assignment to the member whose value is no function literal leaves it without own method. -/
theorem ownMethod?_index_of_value {program : Program} {member : Member} {o : Occurrence}
    (ho : o ∈ program.occurrences) (htarget : o.assignment.target.IsMember member)
    (hvalue : ∀ literal, o.assignment.value ≠ .function literal) :
    program.index.ownMethod? member = none := by
  refine Option.eq_none_iff_forall_ne_some.mpr fun d hd => ?_
  obtain ⟨_, _, s, _, a, literal, ha, hsingle, _⟩ := ownMethod?_index_eq_some_iff.mp hd
  have hmem : o ∈ program.occurrencesOf member := mem_occurrencesOf.mpr ⟨ho, htarget⟩
  rw [hsingle, mem_singleton] at hmem
  exact hvalue literal (hmem ▸ ha.value_eq)

/-- The table of definitions lies within that of assignments, and own methods are told by both. -/
structure MemberIndexed (program : Program) (annotations : Annotations) (member : Member) :
    Prop where
  /-- The definitions are, in order, among the assignments. -/
  embedded : (program.index.definitionsOf member).map MethodDefinition.assignment? <+
    (program.index.assignmentsTo member).map (some ·.assignment)
  /-- The definitions are the top-level ones of the member. -/
  definitions : program.index.definitionsOf member = program.definitions.filter (·.member = member)
  /-- The assignments are all there are at any depth, one top-level statement after the other. -/
  assignments : program.index.assignmentsTo member = program.collect fun script s =>
    (s.occurrencesOf member).map fun o => ⟨member, o.assignment, o.enclosing, script.name⟩
  /-- An own method is a top-level definition that is the only assignment to the member. -/
  ownMethod : ∀ d, program.index.ownMethod? member = some d ↔
    ∃ script ∈ program.scripts, ∃ s ∈ script.statements, ∃ a literal,
      s.Defines member a literal ∧ program.occurrencesOf member = [⟨a, s⟩] ∧
        d = ⟨member, literal, s, script.id, script.name⟩
  /-- There is none as soon as one of the assignments is nested, or assigns no function literal. -/
  nested : ∀ s ∈ program.statements, ∀ o ∈ s.nested, o.assignment.target.IsMember member →
    program.index.ownMethod? member = none
  value : ∀ o ∈ program.occurrences, o.assignment.target.IsMember member →
    (∀ literal, o.assignment.value ≠ .function literal) → program.index.ownMethod? member = none
  /-- A run asks for the same own methods. -/
  hierarchy : (program.hierarchy annotations).ownMethod? member = program.index.ownMethod? member

theorem memberIndexed (program : Program) (annotations : Annotations) (member : Member) :
    program.MemberIndexed annotations member where
  embedded := program.index_embedded member
  definitions := program.definitionsOf_index member
  assignments := by rw [assignmentsTo_index, filter_memberAssignments]
  ownMethod := fun _ => ownMethod?_index_eq_some_iff
  nested := fun _ hs _ ho htarget => ownMethod?_index_of_nested hs ho htarget
  value := fun _ ho htarget hvalue => ownMethod?_index_of_value ho htarget hvalue
  hierarchy := (program.ownMethod?_index annotations member).symm

end Program

end OverrideElision
