import OverrideElision.Proofs.Placement
import OverrideElision.Proofs.Verdict

/-! # What a run removes

A definition is redundant when the program as it stands already finds, by way of the confirmed
superclass, a method that takes and gives the same. In a program of distinct nodes a run removes the
redundant definitions, in their order, and nothing else. -/

namespace OverrideElision

open List

/-- The statement is a forwarding override, the only assignment to its member ever seen, and the
sole definition of the confirmed superclass has its signature and loses no value. -/
inductive Program.Redundant (program : Program) (annotations : Annotations) (context : Context)
    (s : Statement) : Prop where
  | intro {member : Member} {a b : Assignment} {literal superLiteral : FunctionLiteral}
      {reference : SuperReference} {returned : Bool} {superclass : String} {t : Statement}
      (defines : program.SoleDefinition s member a literal)
      (override : (annotations.info s).isOverride = true)
      (unmarked : ∀ x ∈ (annotations.info s).markers, ¬ x ∈ context.options.keepMarkers)
      (unsuppressed : ∀ x, ¬ x ∈ (annotations.info s).suppressions)
      (unseen : ∀ i ∈ context.seen member, i = a.id)
      (forwards : literal.Forwards member.name reference returned)
      (confirmed : program.Confirms annotations member.owner superclass)
      (leads : reference.LeadsTo member.owner superclass)
      (inherits : program.SoleDefinition t ⟨superclass, member.name⟩ b superLiteral)
      (accepts : Forall₂ Param.Accepts literal.params superLiteral.params)
      (value : returned = true ∨ ¬ annotations.Returns t superLiteral)

namespace Program

variable {program : Program} {annotations : Annotations} {context : Context}

theorem seen_noted {member : Member} {i : Nat} :
    i ∈ (program.noted annotations context).seen member ↔
      i ∈ context.seen member ∨ ∃ o ∈ program.occurrences,
        o.assignment.target.IsMember member ∧ o.assignment.id = i := by
  rw [Context.seen_eq, Context.seen_eq, record_noted, DefinitionRecord.mem_assignments_addAll]
  exact or_congr_right (exists_sighting_iff (p := fun j _ => j = i))

/-- A defined member is not duplicated when its definition is all that was ever seen of it. -/
theorem isDuplicated_noted_eq_false {s : Statement} {member : Member} {a : Assignment}
    {literal : FunctionLiteral} (hs : s ∈ program.statements) (ha : s.Defines member a literal) :
    (program.noted annotations context).isDuplicated member = false ↔
      (∀ i ∈ context.seen member, i = a.id) ∧
        ∀ o ∈ program.occurrences, o.assignment.target.IsMember member →
          o.assignment.id = a.id := by
  have hown : a.id ∈ (program.noted annotations context).seen member :=
    seen_noted.mpr (.inr ⟨⟨a, s⟩, mem_occurrences.mpr ⟨s, hs, ha.mem_occurrences⟩, ha.target, rfl⟩)
  rw [← Bool.not_eq_true, Context.isDuplicated_iff]
  refine ⟨?_, ?_⟩
  · intro h
    have hall : ∀ i ∈ (program.noted annotations context).seen member, i = a.id := by
      intro i hi
      by_contra hne
      exact h ⟨i, hi, a.id, hown, hne⟩
    refine ⟨fun i hi => hall i (seen_noted.mpr (.inl hi)), fun o ho htarget => ?_⟩
    exact hall _ (seen_noted.mpr (.inr ⟨o, ho, htarget, rfl⟩))
  · intro h hdup
    obtain ⟨hseen, hsole⟩ := h
    have hall : ∀ i ∈ (program.noted annotations context).seen member, i = a.id := by
      intro i hi
      rcases seen_noted.mp hi with hi | ⟨o, ho, htarget, rfl⟩
      · exact hseen i hi
      · exact hsole o ho htarget
    obtain ⟨i, hi, j, hj, hne⟩ := hdup
    exact hne ((hall i hi).trans (hall j hj).symm)

/-- Among distinct nodes, the definitions that nothing keeps are the redundant ones. -/
theorem Distinct.elides_iff_redundant (h : program.Distinct) {d : MethodDefinition}
    (hd : d ∈ program.definitions) :
    program.elides annotations context d = true ↔
      program.Redundant annotations context d.statement := by
  obtain ⟨hs, a, ha⟩ := defines_of_mem hd
  have hoptions : (program.noted annotations context).options = context.options :=
    Context.options_noteAll _
  simp only [elides_iff, MethodDefinition.override?_eq_some_iff,
    Hierarchy.keepReason?_eq_none_iff, MethodDefinition.ownReason?_eq_none_iff, hoptions,
    isDuplicated_noted_eq_false hs ha, immediateSuper?_iff_confirms, h.ownMethod?_iff,
    ForwardingCall.methodReason?_eq_none_iff]
  refine ⟨?_, ?_⟩
  · intro helides
    obtain ⟨call, ⟨hoverride, hforwards, _, _⟩, ⟨hmarkers, hsuppressions, hunseen, hsole⟩,
      superclass, hconfirms, hleads, e, ⟨_, b, hsuper⟩, haccepts, hvalue⟩ := helides
    exact .intro ⟨hs, ha, hsole⟩ hoverride hmarkers hsuppressions hunseen hforwards hconfirms hleads
      hsuper haccepts hvalue
  · intro hredundant
    obtain ⟨hdefines, hoverride, hmarkers, hsuppressions, hunseen, hforwards, hconfirms, hleads,
      hsuper, haccepts, hvalue⟩ := hredundant
    rename_i member a' b literal superLiteral reference returned superclass t
    obtain ⟨rfl, rfl, rfl⟩ := ha.assignment_unique hdefines.defines
    obtain ⟨e, he, rfl, hmember, rfl⟩ := exists_definition hsuper.mem hsuper.defines
    refine ⟨⟨reference, d.member.name, d.params.map Param.argument, returned⟩,
      ⟨hoverride, hforwards, rfl, rfl⟩, ⟨hmarkers, hsuppressions, hunseen, hdefines.sole⟩,
      superclass, hconfirms, hleads, e, ⟨he, b, hsuper⟩, haccepts, hvalue⟩

/-- When no statement is shared, a run decides about every definition once, in order. -/
theorem decided_eq_of_nodup (h : (program.statements.map Statement.id).Nodup) :
    program.decided annotations = program.definitions := by
  unfold Program.decided Program.definitions
  rw [Program.statements, filterMap_flatMap]
  refine flatMap_congr fun script hscript => filterMap_congr fun s hs => ?_
  exact definitionOf?_eq_of_nodup h hscript hs

theorem Distinct.decided_eq (h : program.Distinct) :
    program.decided annotations = program.definitions :=
  decided_eq_of_nodup h.statements

theorem Distinct.removed_eq (h : program.Distinct) :
    (context.process program annotations).report.removed =
      program.definitions.filter (program.elides annotations context) := by
  rw [Program.removed_eq, h.decided_eq]

end Program

/-! ## A chain of classes -/

namespace Chain

/-- `owner.prototype`. -/
def prototype (owner : String) : Expr :=
  .member (.name owner) "prototype"

/-- `var name = function () {};` -/
def declaration (id : Nat) (name : String) : Statement :=
  ⟨id, "", .decl "var" name (some (.function ⟨[], [], none, false⟩))⟩

/-- `name.superClass_ = base.prototype;` -/
def link (id : Nat) (name base : String) : Statement :=
  ⟨id, "", .expr (.assign ⟨id, .member (.name name) "superClass_", prototype base⟩)⟩

def parameters : List Param := [{ name := "x" }]

/-- `owner.prototype.m = function (x) { return value; };` -/
def method (id : Nat) (owner : String) (value : Expr) : Statement :=
  ⟨id, "", .expr (.assign ⟨id, .member (prototype owner) "m",
    .function ⟨parameters, [⟨id + 1, "", .ret (some value)⟩], none, true⟩⟩)⟩

/-- `owner.superClass_.m.call(this, x)`. -/
def forwarding (owner : String) : Expr :=
  .forwardingCall (.member (.name owner) "superClass_") "m" parameters

/-- Three classes, each below the one before, of which the second and the third forward. -/
def program : Program where
  scripts :=
    [⟨0, "a.js",
      [declaration 0 "A", method 1 "A" (.name "x"), declaration 3 "B", link 4 "B" "A",
        method 5 "B" (forwarding "B")]⟩,
     ⟨1, "b.js", [declaration 7 "C", link 8 "C" "B", method 9 "C" (forwarding "C")]⟩]
  annotations := .ofList
    [(0, { isConstructor := true }), (3, { isConstructor := true, superType := some "A" }),
     (5, { isOverride := true }), (7, { isConstructor := true, superType := some "B" }),
     (9, { isOverride := true })]

theorem distinct : program.Distinct := by
  refine ⟨?_, ?_⟩
  · decide
  · decide +kernel

end Chain

/-! ## The statements removed -/

open Classical in
/-- The statements removed are the redundant ones, in the order of the program. -/
theorem Program.removed_statements_eq_filter_redundant {program : Program}
    {annotations : Annotations} {context : Context} (h : program.Distinct) :
    (context.process program annotations).report.removed.map (·.statement) =
      program.statements.filter (program.Redundant annotations context ·) := by
  rw [h.removed_eq, definitions_eq_collect, statements_eq_collect, filter_collect, filter_collect,
    map_collect]
  refine collect_congr fun script hscript s hs => ?_
  cases hd : script.definition? s with
  | none =>
    have hnot : ¬ program.Redundant annotations context s := by
      intro hredundant
      obtain ⟨hdefines, _⟩ := hredundant
      have hmethod := Statement.method?_eq_some_iff.mpr ⟨_, hdefines.defines⟩
      simp [Script.definition?, hmethod] at hd
    simp [hnot]
  | some d =>
    have hmem : d ∈ program.definitions := mem_definitions.mpr ⟨script, hscript, s, hs, hd⟩
    have hiff : program.elides annotations context d = true ↔ _ := h.elides_iff_redundant hmem
    obtain ⟨_, rfl, _, _⟩ := Script.definition?_eq_some_iff.mp hd
    by_cases hredundant : program.Redundant annotations context d.statement
    · simp [hredundant, hiff.mpr hredundant]
    · simp [hredundant, hiff.not.mpr hredundant]

open Classical in
theorem Chain.removed_statements :
    program.Distinct ∧
      (program.statements.filter (program.Redundant program.annotations {} ·)).map
        Statement.id = [5, 9] := by
  refine ⟨distinct, ?_⟩
  rw [← Program.removed_statements_eq_filter_redundant distinct]
  decide +kernel

end OverrideElision
