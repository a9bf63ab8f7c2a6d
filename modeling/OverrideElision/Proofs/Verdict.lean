import Mathlib.Data.List.Forall2
import OverrideElision.Elision
import OverrideElision.Proofs.Forwarding
import OverrideElision.Proofs.Records
import OverrideElision.Proofs.Superclass

/-! # When a definition goes

The checks of a run, each as the property that it decides, and the definitions that pass them
all. -/

namespace OverrideElision

open List

/-! ## The superclass method -/

/-- The statement gives the callers of its function a value: its documentation says so, or the
function returns one. -/
def Annotations.Returns (annotations : Annotations) (s : Statement) (literal : FunctionLiteral) :
    Prop :=
  (annotations.info s).hasReturn = true ∨ literal.returnsValue = true ∨
    ∃ t ∈ literal.body, ∃ value, t.form = .ret (some value)

/-- A parameter has the kind of the inherited one, or nothing is said about it and the inherited one
is optional. -/
def Param.Accepts (own inherited : Param) : Prop :=
  own.kind = inherited.kind ∨
    own.declared = false ∧ own.kind = .required ∧ inherited.kind = .optional

/-- The reference leads from the owner of a method to the superclass. -/
def SuperReference.LeadsTo (reference : SuperReference) (owner superclass : String) : Prop :=
  reference.receiver = if reference.viaSuperClass then owner else superclass

theorem MethodDefinition.returnsValue_iff {d : MethodDefinition} {annotations : Annotations} :
    d.returnsValue annotations = true ↔ annotations.Returns d.statement d.function := by
  unfold returnsValue Annotations.Returns
  rw [Bool.or_eq_true, Bool.or_eq_true, or_assoc, any_eq_true]
  refine or_congr_right (or_congr_right ?_)
  refine exists_congr fun t => and_congr_right fun _ => ?_
  cases hform : t.form with
  | ret value => cases value <;> simp
  | _ => simp

theorem Param.acceptsAs_iff {own inherited : Param} :
    own.acceptsAs inherited = true ↔ own.Accepts inherited := by
  simp [acceptsAs, Accepts, and_assoc]

theorem MethodDefinition.sameSignature_iff {d e : MethodDefinition} :
    d.sameSignature e = true ↔ Forall₂ Param.Accepts d.params e.params := by
  unfold sameSignature
  rw [Bool.and_eq_true, beq_iff_eq, all_eq_true, forall₂_iff_zip]
  refine and_congr_right fun _ => ?_
  constructor
  · intro h own inherited hmem
    exact Param.acceptsAs_iff.mp (h _ hmem)
  · intro h pair hmem
    exact Param.acceptsAs_iff.mpr (h hmem)

/-! ## The reasons to keep a definition -/

theorem MethodDefinition.ownReason?_eq_none_iff {d : MethodDefinition} {info : Doc.Info}
    {context : Context} :
    d.ownReason? info context = none ↔
      (∀ x ∈ info.markers, ¬ x ∈ context.options.keepMarkers) ∧
        (∀ x, ¬ x ∈ info.suppressions) ∧ context.isDuplicated d.member = false := by
  have hmarkers : (info.markers.inter context.options.keepMarkers).isEmpty = true ↔
      ∀ x ∈ info.markers, ¬ x ∈ context.options.keepMarkers := by
    simp only [NameSet.isEmpty_iff, NameSet.mem_inter, not_and]
  rw [← hmarkers, ← NameSet.isEmpty_iff]
  unfold ownReason?
  dsimp only
  cases (info.markers.inter context.options.keepMarkers).isEmpty <;>
    cases info.suppressions.isEmpty <;> cases context.isDuplicated d.member <;> simp

theorem ForwardingCall.targetReason?_eq_none_iff {call : ForwardingCall}
    {owner superclass : String} :
    call.targetReason? owner superclass = none ↔ call.reference.LeadsTo owner superclass := by
  unfold targetReason? SuperReference.LeadsTo
  cases call.reference.viaSuperClass <;> simp

theorem ForwardingCall.methodReason?_eq_none_iff {call : ForwardingCall}
    {d superMethod : MethodDefinition} {annotations : Annotations} :
    call.methodReason? d superMethod annotations = none ↔
      Forall₂ Param.Accepts d.params superMethod.params ∧
        (call.returned = true ∨
          ¬ annotations.Returns superMethod.statement superMethod.function) := by
  rw [← MethodDefinition.sameSignature_iff, ← MethodDefinition.returnsValue_iff]
  unfold methodReason?
  cases d.sameSignature superMethod <;> cases call.returned <;>
    cases superMethod.returnsValue annotations <;> simp

/-- No reason to keep a definition is left when its class has a confirmed superclass, the call leads
there, and the superclass method takes and gives the same. -/
theorem Hierarchy.keepReason?_eq_none_iff {hierarchy : Hierarchy} {annotations : Annotations}
    {context : Context} {d : MethodDefinition} {call : ForwardingCall} :
    hierarchy.keepReason? annotations context d call = none ↔
      d.ownReason? (annotations.info d.statement) context = none ∧
        ∃ superclass, hierarchy.immediateSuper? d.member.owner = some superclass ∧
          call.reference.LeadsTo d.member.owner superclass ∧
            ∃ superMethod, hierarchy.ownMethod? ⟨superclass, d.member.name⟩ = some superMethod ∧
              call.methodReason? d superMethod annotations = none := by
  unfold keepReason?
  rw [Option.or_eq_none_iff]
  refine and_congr_right fun _ => ?_
  cases hsuper : hierarchy.immediateSuper? d.member.owner with
  | none => simp
  | some superclass =>
    rw [Option.or_eq_none_iff, ForwardingCall.targetReason?_eq_none_iff]
    cases hown : hierarchy.ownMethod? ⟨superclass, d.member.name⟩ with
    | none => simp [hown]
    | some superMethod => simp [hown]

/-! ## The definitions that go -/

namespace Program

/-- The context of a run over the program, with all its assignments noted. -/
def noted (program : Program) (annotations : Annotations) (context : Context) : Context :=
  context.noteAll annotations program.memberAssignments

/-- What a run over the program tells its context, in order. -/
def sightings (program : Program) (annotations : Annotations) : List Sighting :=
  program.memberAssignments.map annotations.sighting

theorem mem_sightings {program : Program} {annotations : Annotations} {x : Sighting} :
    x ∈ program.sightings annotations ↔
      ∃ script ∈ program.scripts, ∃ s ∈ script.statements, ∃ o ∈ s.occurrences,
        o.assignment.target.IsMember x.member ∧
          x = ⟨x.member, o.assignment.id, script.name, annotations.info o.enclosing⟩ := by
  constructor
  · intro h
    obtain ⟨a, ha, rfl⟩ := mem_map.mp h
    obtain ⟨script, hscript, s, hs, ha⟩ := mem_memberAssignments.mp ha
    obtain ⟨o, ho, htarget, heq⟩ := Script.mem_memberAssignments.mp ha
    refine ⟨script, hscript, s, hs, o, ho, htarget, ?_⟩
    rw [heq]
    rfl
  · intro h
    obtain ⟨script, hscript, s, hs, o, ho, htarget, hx⟩ := h
    refine mem_map.mpr ⟨⟨x.member, o.assignment, o.enclosing, script.name⟩, ?_, hx.symm⟩
    exact mem_memberAssignments.mpr
      ⟨script, hscript, s, hs, Script.mem_memberAssignments.mpr ⟨o, ho, htarget, rfl⟩⟩

/-- The sightings of a member are its assignments, of which the script is left out here. -/
theorem exists_sighting_iff {program : Program} {annotations : Annotations} {member : Member}
    {p : Nat → Doc.Info → Prop} :
    (∃ x ∈ (program.sightings annotations).filter (·.member = member), p x.assignment x.info) ↔
      ∃ o ∈ program.occurrences, o.assignment.target.IsMember member ∧
        p o.assignment.id (annotations.info o.enclosing) := by
  simp only [mem_filter, decide_eq_true_eq]
  constructor
  · intro h
    obtain ⟨x, ⟨hx, rfl⟩, hp⟩ := h
    obtain ⟨script, hscript, s, hs, o, ho, htarget, heq⟩ := mem_sightings.mp hx
    rw [heq] at hp
    exact ⟨o, mem_occurrences.mpr ⟨s, mem_statements.mpr ⟨script, hscript, hs⟩, ho⟩, htarget, hp⟩
  · intro h
    obtain ⟨o, ho, htarget, hp⟩ := h
    obtain ⟨s, hs, ho⟩ := mem_occurrences.mp ho
    obtain ⟨script, hscript, hs⟩ := mem_statements.mp hs
    exact ⟨⟨member, _, script.name, _⟩,
      ⟨mem_sightings.mpr ⟨script, hscript, s, hs, o, ho, htarget, rfl⟩, rfl⟩, hp⟩

/-- The record of a member after a run has noted the program. -/
theorem record_noted (program : Program) (annotations : Annotations) (context : Context)
    (member : Member) :
    (program.noted annotations context).record member =
      (context.record member).addAll context.options.duplicateSuppression
        ((program.sightings annotations).filter (·.member = member)) := by
  rw [noted, Context.noteAll_eq_seeAll, Context.record_seeAll]
  rfl

/-- The definition is a forwarding override that nothing keeps. -/
def elides (program : Program) (annotations : Annotations) (context : Context)
    (d : MethodDefinition) : Bool :=
  (d.override? (annotations.info d.statement)).any fun call =>
    ((program.hierarchy annotations).keepReason? annotations (program.noted annotations context)
      d call).isNone

/-- The definitions that a run decides about, one for each place of their statements. -/
def decided (program : Program) (annotations : Annotations) : List MethodDefinition :=
  program.statements.filterMap (program.hierarchy annotations).definitionOf?

theorem statement_id_of_definitionOf? {hierarchy : Hierarchy} {s : Statement}
    {d : MethodDefinition} (h : hierarchy.definitionOf? s = some d) : d.statement.id = s.id := by
  have hmem := mem_of_getLast? h
  simpa using (mem_filter.mp hmem).2

/-- The candidates of a program and the definitions that a run removes, read off those that it
decides about. -/
theorem candidates_eq (program : Program) (annotations : Annotations) :
    program.candidates (program.hierarchy annotations) annotations =
      (program.decided annotations).filterMap fun d =>
        (d.override? (annotations.info d.statement)).map fun call => ⟨d, call⟩ := by
  unfold candidates decided
  rw [statements, filterMap_filterMap, filterMap_flatMap]
  refine flatMap_congr fun script _ => filterMap_congr fun s _ => ?_
  cases hd : (program.hierarchy annotations).definitionOf? s with
  | none => rfl
  | some d =>
    have hinfo : annotations.info d.statement = annotations.info s := by
      rw [Annotations.info, Annotations.info, statement_id_of_definitionOf? hd]
    simp only [Option.bind_some, hinfo]

theorem removed_eq (program : Program) (annotations : Annotations) (context : Context) :
    (context.process program annotations).report.removed =
      (program.decided annotations).filter (program.elides annotations context) := by
  change ((program.candidates (program.hierarchy annotations) annotations).filter fun candidate =>
    ((program.hierarchy annotations).keepReason? annotations (program.noted annotations context)
      candidate.definition candidate.call).isNone).map Candidate.definition = _
  rw [candidates_eq]
  induction program.decided annotations with
  | nil => rfl
  | cons d rest ih =>
    rw [filterMap_cons, filter_cons, elides]
    cases hcall : d.override? (annotations.info d.statement) with
    | none => simpa using ih
    | some call =>
      rw [Option.map_some, Option.any_some]
      cases hreason : (program.hierarchy annotations).keepReason? annotations
        (program.noted annotations context) d call <;> simp [hreason, ih]

theorem elides_iff {program : Program} {annotations : Annotations} {context : Context}
    {d : MethodDefinition} :
    program.elides annotations context d = true ↔
      ∃ call, d.override? (annotations.info d.statement) = some call ∧
        (program.hierarchy annotations).keepReason? annotations
          (program.noted annotations context) d call = none := by
  simp only [elides, Option.any_eq_true, Option.isNone_iff_eq_none]

theorem mem_definitions_of_removed {program : Program} {annotations : Annotations}
    {context : Context} {d : MethodDefinition}
    (hd : d ∈ (context.process program annotations).report.removed) :
    d ∈ program.definitions := by
  rw [removed_eq] at hd
  obtain ⟨_, _, hdefinition⟩ := mem_filterMap.mp (mem_filter.mp hd).1
  exact (mem_filter.mp (mem_of_getLast? hdefinition)).1

/-- All assignments are noted before the run decides, so that it removes no definition of a member
that is duplicated then. -/
theorem isDuplicated_of_removed {program : Program} {annotations : Annotations} {context : Context}
    {d : MethodDefinition} (hd : d ∈ (context.process program annotations).report.removed) :
    (program.noted annotations context).isDuplicated d.member = false := by
  rw [removed_eq] at hd
  obtain ⟨call, _, hreason⟩ := elides_iff.mp (mem_filter.mp hd).2
  obtain ⟨hown, _⟩ := Hierarchy.keepReason?_eq_none_iff.mp hreason
  exact (MethodDefinition.ownReason?_eq_none_iff.mp hown).2.2

end Program

end OverrideElision
