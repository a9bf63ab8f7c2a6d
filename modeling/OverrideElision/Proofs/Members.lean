import OverrideElision.Hierarchy
import OverrideElision.Proofs.Reference
import OverrideElision.Proofs.Statements

/-! # Definitions and assignments of class members

A method definition is one of the assignments to its member. The definitions of a member are
therefore a part of its assignments, and it has an own method exactly when its one assignment is a
definition. -/

namespace OverrideElision

open List

/-- The statement is `Owner.prototype.name = function (...) ...`. -/
structure Statement.Defines (s : Statement) (member : Member) (assignment : Assignment)
    (literal : FunctionLiteral) : Prop where
  form_eq : s.form = .expr (.assign assignment)
  target : assignment.target.IsMember member
  value_eq : assignment.value = .function literal

namespace Statement

theorem method?_eq_some_iff {s : Statement} {member : Member} {literal : FunctionLiteral} :
    s.method? = some (member, literal) ↔ ∃ assignment, s.Defines member assignment literal := by
  constructor
  · intro h
    unfold method? at h
    split at h
    · rename_i id target f hform
      obtain ⟨found, hfound, heq⟩ := Option.map_eq_some_iff.mp h
      obtain ⟨rfl, rfl⟩ := Prod.mk.inj heq
      exact ⟨⟨id, target, .function f⟩, hform, Expr.isMember_iff.mpr hfound, rfl⟩
    · cases h
  · intro h
    rcases h with ⟨⟨id, target, value⟩, hform, htarget, hvalue⟩
    obtain rfl : value = .function literal := hvalue
    simp [method?, hform, Expr.isMember_iff.mp htarget]

theorem Defines.assignment_unique {s : Statement} {m m' : Member} {a a' : Assignment}
    {f f' : FunctionLiteral} (h : s.Defines m a f) (h' : s.Defines m' a' f') :
    m = m' ∧ a = a' ∧ f = f' := by
  have ha : a = a' := by simpa using h.form_eq.symm.trans h'.form_eq
  subst ha
  have hf : f = f' := by simpa using h.value_eq.symm.trans h'.value_eq
  exact ⟨h.target.unique h'.target, rfl, hf⟩

end Statement

/-! ## The assignments of a definition -/

theorem Expr.Spells.occurrences_eq {e : Expr} {path : String} (h : e.Spells path)
    (enclosing : Statement) : e.occurrences enclosing = [] := by
  induction h with
  | name text => simp only [Expr.occurrences]
  | member property _ ih => simpa only [Expr.occurrences] using ih

theorem Expr.IsMember.occurrences_eq {e : Expr} {member : Member} (h : e.IsMember member)
    (enclosing : Statement) : e.occurrences enclosing = [] := by
  obtain ⟨owner, howner, rfl⟩ := h
  simpa only [Expr.occurrences] using howner.occurrences_eq enclosing

/-- The assignments in a definition are its own, then those in its function literal. -/
theorem Statement.Defines.occurrences_eq {s : Statement} {member : Member} {a : Assignment}
    {f : FunctionLiteral} (h : s.Defines member a f) :
    s.occurrences = ⟨a, s⟩ :: f.occurrences := by
  have htarget := h.target.occurrences_eq s
  rw [Statement.occurrences_eq, h.form_eq]
  simp only [Form.occurrences, Expr.occurrences]
  rw [Assignment.occurrences_eq, htarget, h.value_eq]
  simp only [Expr.occurrences, append_nil]

theorem Statement.Defines.mem_occurrences {s : Statement} {member : Member} {a : Assignment}
    {f : FunctionLiteral} (h : s.Defines member a f) : ⟨a, s⟩ ∈ s.occurrences := by
  rw [h.occurrences_eq]
  exact mem_cons_self

/-! ## Definitions of a program -/

theorem Script.definition?_eq_some_iff {script : Script} {s : Statement} {d : MethodDefinition} :
    script.definition? s = some d ↔
      (∃ a, s.Defines d.member a d.function) ∧ d.statement = s ∧ d.script = script.id ∧
        d.scriptName = script.name := by
  rw [← Statement.method?_eq_some_iff]
  obtain ⟨member, literal, statement, id, name⟩ := d
  simp only [Script.definition?, Option.map_eq_some_iff, Prod.exists, MethodDefinition.mk.injEq]
  constructor
  · intro h
    rcases h with ⟨m, f, hmethod, rfl, rfl, rfl, rfl, rfl⟩
    exact ⟨hmethod, rfl, rfl, rfl⟩
  · intro h
    rcases h with ⟨hmethod, rfl, rfl, rfl⟩
    exact ⟨member, literal, hmethod, rfl, rfl, rfl, rfl, rfl⟩

namespace MethodDefinition

/-- The assignment that the definition is. -/
def assignment? (definition : MethodDefinition) : Option Assignment :=
  match definition.statement.form with
  | .expr (.assign assignment) => some assignment
  | _ => none

theorem assignment?_of_defines {d : MethodDefinition} {member : Member} {a : Assignment}
    {f : FunctionLiteral} (h : d.statement.Defines member a f) : d.assignment? = some a := by
  simp only [assignment?, h.form_eq]

end MethodDefinition

theorem Program.defines_of_mem {program : Program} {d : MethodDefinition}
    (h : d ∈ program.definitions) :
    d.statement ∈ program.statements ∧ ∃ a, d.statement.Defines d.member a d.function := by
  obtain ⟨script, hscript, s, hs, hd⟩ := Program.mem_definitions.mp h
  obtain ⟨hdefines, rfl, _, _⟩ := Script.definition?_eq_some_iff.mp hd
  exact ⟨Program.mem_statements.mpr ⟨script, hscript, hs⟩, hdefines⟩

/-- A statement that defines a method is the statement of a definition. -/
theorem Program.exists_definition {program : Program} {s : Statement} {member : Member}
    {a : Assignment} {f : FunctionLiteral} (hs : s ∈ program.statements)
    (ha : s.Defines member a f) :
    ∃ d ∈ program.definitions, d.statement = s ∧ d.member = member ∧ d.function = f := by
  obtain ⟨script, hscript, hs⟩ := Program.mem_statements.mp hs
  refine ⟨⟨member, f, s, script.id, script.name⟩, ?_, rfl, rfl, rfl⟩
  exact Program.mem_definitions.mpr
    ⟨script, hscript, s, hs, Script.definition?_eq_some_iff.mpr ⟨⟨a, ha⟩, rfl, rfl, rfl⟩⟩

theorem Script.mem_memberAssignments {script : Script} {s : Statement} {x : MemberAssignment} :
    x ∈ script.memberAssignments s ↔
      ∃ o ∈ s.occurrences, o.assignment.target.IsMember x.member ∧
        x = ⟨x.member, o.assignment, o.enclosing, script.name⟩ := by
  simp only [Script.memberAssignments, mem_filterMap, Option.map_eq_some_iff, Expr.isMember_iff]
  constructor
  · intro h
    rcases h with ⟨o, ho, member, hmember, rfl⟩
    exact ⟨o, ho, hmember, rfl⟩
  · intro h
    rcases h with ⟨o, ho, hmember, hx⟩
    exact ⟨o, ho, x.member, hmember, hx.symm⟩

theorem Program.mem_memberAssignments {program : Program} {x : MemberAssignment} :
    x ∈ program.memberAssignments ↔
      ∃ script ∈ program.scripts, ∃ s ∈ script.statements, x ∈ script.memberAssignments s := by
  rw [Program.memberAssignments_eq_collect, Program.mem_collect]

/-! ## Occurrences by member -/

/-- The assignments to a member at or below a statement. -/
def Statement.occurrencesOf (s : Statement) (member : Member) : List Occurrence :=
  s.occurrences.filter (·.assignment.target.IsMember member)

/-- The assignments to a member at any depth, one top-level statement after the other. -/
def Program.occurrencesOf (program : Program) (member : Member) : List Occurrence :=
  program.statements.flatMap (·.occurrencesOf member)

theorem Program.occurrencesOf_eq_filter (program : Program) (member : Member) :
    program.occurrencesOf member =
      program.occurrences.filter (·.assignment.target.IsMember member) := by
  rw [occurrences, filter_flatMap]
  rfl

theorem Program.mem_occurrencesOf {program : Program} {member : Member} {o : Occurrence} :
    o ∈ program.occurrencesOf member ↔
      o ∈ program.occurrences ∧ o.assignment.target.IsMember member := by
  rw [occurrencesOf_eq_filter, mem_filter, decide_eq_true_eq]

theorem Script.filter_memberAssignments (script : Script) (s : Statement) (member : Member) :
    (script.memberAssignments s).filter (·.member = member) =
      (s.occurrencesOf member).map fun o => ⟨member, o.assignment, o.enclosing, script.name⟩ := by
  unfold memberAssignments Statement.occurrencesOf
  induction s.occurrences with
  | nil => rfl
  | cons o os ih =>
    cases htarget : o.assignment.target.member? with
    | none => simpa [htarget, Expr.isMember_iff] using ih
    | some found =>
      by_cases hm : found = member
      · simpa [htarget, Expr.isMember_iff, hm] using ih
      · simpa [htarget, Expr.isMember_iff, hm] using ih

/-- The assignments to a member, one top-level statement after the other. -/
theorem Program.filter_memberAssignments (program : Program) (member : Member) :
    program.memberAssignments.filter (·.member = member) = program.collect fun script s =>
      (s.occurrencesOf member).map fun o => ⟨member, o.assignment, o.enclosing, script.name⟩ := by
  rw [memberAssignments_eq_collect, filter_collect]
  exact collect_congr fun script _ s _ => script.filter_memberAssignments s member

theorem Program.length_assignmentsTo (program : Program) (annotations : Annotations)
    (member : Member) :
    ((program.hierarchy annotations).assignmentsTo member).length =
      (program.occurrencesOf member).length := by
  have hcollect : program.occurrencesOf member =
      program.collect fun _ s => s.occurrencesOf member := by
    simp only [occurrencesOf, statements, collect, flatMap_assoc]
  rw [hcollect, Hierarchy.assignmentsTo, hierarchy, filter_memberAssignments]
  simp only [collect, length_flatMap, length_map]

/-! ## Own methods -/

namespace Hierarchy

theorem mem_definitionsOf {hierarchy : Hierarchy} {member : Member} {d : MethodDefinition} :
    d ∈ hierarchy.definitionsOf member ↔ d ∈ hierarchy.definitions ∧ d.member = member := by
  simp only [definitionsOf, mem_filter, decide_eq_true_eq]

theorem mem_assignmentsTo {hierarchy : Hierarchy} {member : Member} {x : MemberAssignment} :
    x ∈ hierarchy.assignmentsTo member ↔ x ∈ hierarchy.assignments ∧ x.member = member := by
  simp only [assignmentsTo, mem_filter, decide_eq_true_eq]

theorem ownMethod?_eq_some {hierarchy : Hierarchy} {member : Member} {d : MethodDefinition} :
    hierarchy.ownMethod? member = some d ↔
      hierarchy.definitionsOf member = [d] ∧ ∃ x, hierarchy.assignmentsTo member = [x] := by
  unfold ownMethod?
  constructor
  · intro h
    split at h
    · rename_i d' x hd hx
      exact ⟨Option.some.inj h ▸ hd, x, hx⟩
    · cases h
  · intro h
    rcases h with ⟨hd, x, hx⟩
    simp only [hd, hx]

theorem ownMethod?_mem {hierarchy : Hierarchy} {member : Member} {d : MethodDefinition}
    (h : hierarchy.ownMethod? member = some d) :
    d ∈ hierarchy.definitions ∧ d.member = member := by
  obtain ⟨hd, _⟩ := ownMethod?_eq_some.mp h
  exact mem_definitionsOf.mp (hd ▸ mem_singleton_self d)

end Hierarchy

/-- The definition of a member that a statement is, is one of the assignments to it there. -/
theorem Script.definition?_sublist (script : Script) (s : Statement) (member : Member) :
    ((script.definition? s).toList.filter (·.member = member)).map MethodDefinition.assignment? <+
      ((script.memberAssignments s).filter (·.member = member)).map (some ·.assignment) := by
  cases hd : script.definition? s with
  | none => exact nil_sublist _
  | some d =>
    obtain ⟨⟨a, ha⟩, rfl, _, _⟩ := Script.definition?_eq_some_iff.mp hd
    by_cases hm : d.member = member
    · have hmem : (⟨member, a, d.statement, script.name⟩ : MemberAssignment) ∈
          (script.memberAssignments d.statement).filter (·.member = member) := by
        refine mem_filter.mpr ⟨Script.mem_memberAssignments.mpr ?_, by simp⟩
        exact ⟨⟨a, d.statement⟩, ha.mem_occurrences, hm ▸ ha.target, rfl⟩
      have hsingle : [some a] <+
          ((script.memberAssignments d.statement).filter (·.member = member)).map
            (some ·.assignment) :=
        singleton_sublist.mpr (mem_map.mpr ⟨_, hmem, rfl⟩)
      simpa [hm, MethodDefinition.assignment?_of_defines ha] using hsingle
    · simp [hm]

/-- The definitions of a member are, in order, among the assignments to it. -/
theorem Program.definitionsOf_sublist (program : Program) (annotations : Annotations)
    (member : Member) :
    ((program.hierarchy annotations).definitionsOf member).map MethodDefinition.assignment? <+
      ((program.hierarchy annotations).assignmentsTo member).map (some ·.assignment) := by
  simp only [Hierarchy.definitionsOf, Hierarchy.assignmentsTo, Program.hierarchy,
    Program.definitions_eq_collect, Program.memberAssignments_eq_collect, Program.filter_collect,
    Program.map_collect]
  exact Program.collect_sublist fun script _ s _ => script.definition?_sublist s member

/-- The statement is the one definition of a member that is assigned nowhere else. -/
structure Program.SoleDefinition (program : Program) (s : Statement) (member : Member)
    (assignment : Assignment) (literal : FunctionLiteral) : Prop where
  mem : s ∈ program.statements
  defines : s.Defines member assignment literal
  sole : ∀ o ∈ program.occurrences, o.assignment.target.IsMember member →
    o.assignment.id = assignment.id

theorem eq_singleton_of_nodup {α : Type} {a : α} {xs : List α} (hxs : xs.Nodup) (ha : a ∈ xs)
    (hall : ∀ x ∈ xs, x = a) : xs = [a] := by
  have hrep : xs = replicate xs.length a := eq_replicate_iff.mpr ⟨rfl, hall⟩
  have hle : xs.length ≤ 1 := nodup_replicate.mp (hrep ▸ hxs)
  have hpos : 0 < xs.length := length_pos_of_mem ha
  rw [hrep, show xs.length = 1 by omega]
  rfl

theorem Program.SoleDefinition.mem_occurrences {program : Program} {s : Statement}
    {member : Member} {a : Assignment} {f : FunctionLiteral}
    (h : program.SoleDefinition s member a f) : ⟨a, s⟩ ∈ program.occurrences :=
  Program.mem_occurrences.mpr ⟨s, h.mem, h.defines.mem_occurrences⟩

/-- A definition of a member with one assignment is its only definition. -/
theorem Program.definitionsOf_eq_singleton {program : Program} {annotations : Annotations}
    {member : Member} {d : MethodDefinition} {x : MemberAssignment}
    (hd : d ∈ (program.hierarchy annotations).definitionsOf member)
    (hx : (program.hierarchy annotations).assignmentsTo member = [x]) :
    (program.hierarchy annotations).definitionsOf member = [d] := by
  have hlength := (program.definitionsOf_sublist annotations member).length_le
  rw [length_map, length_map, hx, length_singleton] at hlength
  obtain ⟨e, he⟩ := length_eq_one_iff.mp (Nat.le_antisymm hlength (length_pos_of_mem hd))
  rw [he, mem_singleton] at hd
  rw [he, hd]

/-- The own method of a member is the definition that is all there is assigned to it. -/
theorem Program.ownMethod?_iff {program : Program} {annotations : Annotations} {member : Member}
    {d : MethodDefinition} :
    (program.hierarchy annotations).ownMethod? member = some d ↔
      d ∈ program.definitions ∧ ∃ a, d.statement.Defines member a d.function ∧
        program.occurrencesOf member = [⟨a, d.statement⟩] := by
  rw [Hierarchy.ownMethod?_eq_some]
  constructor
  · rintro ⟨hd, x, hx⟩
    obtain ⟨hmem, rfl⟩ := Hierarchy.mem_definitionsOf.mp (hd ▸ mem_singleton_self d)
    obtain ⟨hs, a, ha⟩ := Program.defines_of_mem hmem
    have ho : (⟨a, d.statement⟩ : Occurrence) ∈ program.occurrencesOf d.member :=
      mem_occurrencesOf.mpr ⟨mem_occurrences.mpr ⟨_, hs, ha.mem_occurrences⟩, ha.target⟩
    have hlength := program.length_assignmentsTo annotations d.member
    rw [hx, length_singleton] at hlength
    obtain ⟨o, hsingle⟩ := length_eq_one_iff.mp hlength.symm
    rw [hsingle, mem_singleton] at ho
    exact ⟨hmem, a, ha, ho ▸ hsingle⟩
  · rintro ⟨hmem, a, ha, hsingle⟩
    obtain ⟨_, a', ha'⟩ := Program.defines_of_mem hmem
    obtain ⟨rfl, _, _⟩ := ha.assignment_unique ha'
    have hlength := program.length_assignmentsTo annotations d.member
    rw [hsingle, length_singleton] at hlength
    obtain ⟨x, hx⟩ := length_eq_one_iff.mp hlength
    have hd : d ∈ (program.hierarchy annotations).definitionsOf d.member :=
      Hierarchy.mem_definitionsOf.mpr ⟨hmem, rfl⟩
    exact ⟨definitionsOf_eq_singleton hd hx, x, hx⟩

/-- Distinct nodes make one occurrence of one assignment. -/
theorem Program.Distinct.occurrencesOf_eq_singleton {program : Program} (h : program.Distinct)
    {s : Statement} {member : Member} {a : Assignment} {f : FunctionLiteral}
    (hsole : program.SoleDefinition s member a f) : program.occurrencesOf member = [⟨a, s⟩] := by
  have hnodup : (program.occurrencesOf member).Nodup := by
    rw [occurrencesOf_eq_filter]
    exact (Nodup.of_map _ h.assignments).filter _
  refine eq_singleton_of_nodup hnodup
    (mem_occurrencesOf.mpr ⟨hsole.mem_occurrences, hsole.defines.target⟩) fun o ho => ?_
  obtain ⟨ho, htarget⟩ := mem_occurrencesOf.mp ho
  exact inj_on_of_nodup_map h.assignments ho hsole.mem_occurrences (hsole.sole o ho htarget)

/-- In a program of distinct nodes the own method of a member is its sole definition. -/
theorem Program.Distinct.ownMethod?_iff {program : Program} (h : program.Distinct)
    {annotations : Annotations} {member : Member} {d : MethodDefinition} :
    (program.hierarchy annotations).ownMethod? member = some d ↔
      d ∈ program.definitions ∧ ∃ a, program.SoleDefinition d.statement member a d.function := by
  rw [Program.ownMethod?_iff]
  refine and_congr_right fun hmem => exists_congr fun a => ?_
  constructor
  · rintro ⟨ha, hsingle⟩
    refine ⟨(Program.defines_of_mem hmem).1, ha, fun o ho htarget => ?_⟩
    have ho := mem_occurrencesOf.mpr ⟨ho, htarget⟩
    rw [hsingle, mem_singleton] at ho
    rw [ho]
  · intro hsole
    exact ⟨hsole.defines, h.occurrencesOf_eq_singleton hsole⟩

end OverrideElision
