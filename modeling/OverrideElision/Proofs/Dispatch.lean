import Mathlib.Logic.Relation
import Mathlib.Order.WellFoundedSet
import OverrideElision.Proofs.Survivors

/-! # Dispatch

A method is looked up from a class upwards along the confirmed superclasses. Several definitions of
one chain of classes may go in the same run; a call then finds the first one that is left, and that
is where forwarding from one to the next leads. -/

namespace OverrideElision

open List Relation

namespace Hierarchy

/-! ## Superclass chains -/

/-- The class `owner` has this confirmed superclass. -/
def Extends (hierarchy : Hierarchy) (superclass owner : String) : Prop :=
  hierarchy.immediateSuper? owner = some superclass

/-- No class is among its own confirmed superclasses. -/
def Acyclic (hierarchy : Hierarchy) : Prop :=
  ∀ name, ¬ TransGen hierarchy.Extends name name

variable {hierarchy : Hierarchy}

theorem Extends.mem_keys {superclass owner : String} (h : hierarchy.Extends superclass owner) :
    owner ∈ hierarchy.table.classes.keys := by
  unfold Extends immediateSuper? at h
  split at h
  · cases h
  · obtain ⟨declaration, hget, _⟩ := Option.bind_eq_some_iff.mp h
    exact mem_map.mpr ⟨_, Table.mem_entries_iff.mpr hget, rfl⟩

theorem Acyclic.of_table_eq {hierarchy' : Hierarchy} (h : hierarchy.Acyclic)
    (htable : hierarchy'.table = hierarchy.table) : hierarchy'.Acyclic := by
  have hextends : hierarchy'.Extends = hierarchy.Extends := by
    funext superclass owner
    simp only [Extends, immediateSuper?, htable]
  unfold Acyclic
  rwa [hextends]

theorem acyclic_of_rank (rank : String → Nat)
    (h : ∀ superclass owner, hierarchy.Extends superclass owner → rank superclass < rank owner) :
    hierarchy.Acyclic := by
  have hrank : ∀ a b, TransGen hierarchy.Extends a b → rank a < rank b := by
    intro a b hab
    induction hab with
    | single hab => exact h _ _ hab
    | tail _ hbc ih => exact ih.trans (h _ _ hbc)
  intro name hcycle
  have hlt := hrank name name hcycle
  omega

/-- Only the finitely many classes of the table have superclasses. -/
theorem finite_superclasses (hierarchy : Hierarchy) :
    {superclass | ∃ owner, hierarchy.Extends superclass owner}.Finite := by
  refine (hierarchy.table.classes.keys.filterMap hierarchy.immediateSuper?).finite_toSet.subset ?_
  intro superclass hsuper
  obtain ⟨owner, hextends⟩ := hsuper
  exact mem_filterMap.mpr ⟨owner, hextends.mem_keys, hextends⟩

/-- All that is above a class is the superclass of some class. -/
theorem finite_above (hierarchy : Hierarchy) (owner : String) :
    {name | TransGen hierarchy.Extends name owner}.Finite := by
  apply hierarchy.finite_superclasses.subset
  intro name hname
  obtain ⟨next, hextends, _⟩ := TransGen.head'_iff.mp hname
  exact ⟨next, hextends⟩

/-- Without cycles going upwards ends. -/
theorem Acyclic.wellFounded (h : hierarchy.Acyclic) : WellFounded hierarchy.Extends := by
  have horder : IsStrictOrder String (TransGen hierarchy.Extends) :=
    { irrefl := h, trans := fun _ _ _ => TransGen.trans }
  refine ⟨fun owner => (Set.WellFoundedOn.acc_iff_wellFoundedOn.out 0 2).mpr ?_⟩
  exact ((hierarchy.finite_above owner).wellFoundedOn (r := TransGen hierarchy.Extends)).mono
    (fun _ _ => TransGen.single) fun _ hname => hname

/-! ## Looking a method up -/

/-- The method called `name` is looked up from a class upwards: through the classes listed, which do
not define it but for the last, to the definitions that the last one has. -/
inductive LookUp (hierarchy : Hierarchy) (name : String) :
    String → List String → List MethodDefinition → Prop
  | own {owner : String} {found : List MethodDefinition} :
      hierarchy.definitionsOf ⟨owner, name⟩ = found → found ≠ [] →
        LookUp hierarchy name owner [owner] found
  | inherited {owner superclass : String} {visited : List String}
      {found : List MethodDefinition} : hierarchy.definitionsOf ⟨owner, name⟩ = [] →
        hierarchy.Extends superclass owner → LookUp hierarchy name superclass visited found →
          LookUp hierarchy name owner (owner :: visited) found
  | missing {owner : String} : hierarchy.definitionsOf ⟨owner, name⟩ = [] →
      hierarchy.immediateSuper? owner = none → LookUp hierarchy name owner [owner] []

theorem LookUp.unique {name owner : String} {visited visited' : List String}
    {found found' : List MethodDefinition} (h : hierarchy.LookUp name owner visited found)
    (h' : hierarchy.LookUp name owner visited' found') : visited = visited' ∧ found = found' := by
  induction h generalizing visited' found' with
  | own hfound hne =>
    cases h' with
    | own hfound' _ => exact ⟨rfl, hfound.symm.trans hfound'⟩
    | inherited hnone _ _ => exact absurd (hfound.symm.trans hnone) hne
    | missing hnone _ => exact absurd (hfound.symm.trans hnone) hne
  | inherited hnone hextends _ ih =>
    cases h' with
    | own hfound' hne => exact absurd (hfound'.symm.trans hnone) hne
    | inherited _ hextends' hrest =>
      obtain rfl := Option.some.inj (hextends.symm.trans hextends')
      obtain ⟨rfl, rfl⟩ := ih hrest
      exact ⟨rfl, rfl⟩
    | missing _ hsuper => cases hextends.symm.trans hsuper
  | missing hnone hsuper =>
    cases h' with
    | own hfound' hne => exact absurd (hfound'.symm.trans hnone) hne
    | inherited _ hextends _ => cases hextends.symm.trans hsuper
    | missing _ _ => exact ⟨rfl, rfl⟩

/-- Without cycles every look-up ends. -/
theorem Acyclic.exists_lookUp (h : hierarchy.Acyclic) (name owner : String) :
    ∃ visited found, hierarchy.LookUp name owner visited found := by
  induction owner using h.wellFounded.induction with
  | _ owner ih =>
    by_cases hfound : hierarchy.definitionsOf ⟨owner, name⟩ = []
    · cases hsuper : hierarchy.immediateSuper? owner with
      | none => exact ⟨_, _, .missing hfound hsuper⟩
      | some superclass =>
        obtain ⟨visited, found, hrest⟩ := ih superclass hsuper
        exact ⟨_, _, .inherited hfound hsuper hrest⟩
    · exact ⟨_, _, .own rfl hfound⟩

/-- A look-up depends on the superclasses and on the definitions in the classes it comes by. -/
theorem LookUp.congr {hierarchy' : Hierarchy} {name owner : String} {visited : List String}
    {found : List MethodDefinition} (h : hierarchy.LookUp name owner visited found)
    (hsuper : hierarchy'.immediateSuper? = hierarchy.immediateSuper?)
    (hdefinitions : ∀ other ∈ visited,
      hierarchy'.definitionsOf ⟨other, name⟩ = hierarchy.definitionsOf ⟨other, name⟩) :
    hierarchy'.LookUp name owner visited found := by
  induction h with
  | own hfound hne =>
    exact .own ((hdefinitions _ mem_cons_self).trans hfound) hne
  | inherited hnone hextends _ ih =>
    refine .inherited ((hdefinitions _ mem_cons_self).trans hnone) ?_ (ih ?_)
    · exact (congrFun hsuper _).trans hextends
    · intro other hmem
      exact hdefinitions other (mem_cons_of_mem _ hmem)
  | missing hnone hsuper' =>
    exact .missing ((hdefinitions _ mem_cons_self).trans hnone) ((congrFun hsuper _).trans hsuper')

/-- Taking out members that a look-up does not come by makes no difference to it. -/
theorem lookUp_without_iff {lost : List Member} {name owner : String} {visited : List String}
    {found : List MethodDefinition} (hkept : ∀ other ∈ visited, ¬ ⟨other, name⟩ ∈ lost) :
    (hierarchy.without lost).LookUp name owner visited found ↔
      hierarchy.LookUp name owner visited found := by
  refine ⟨fun h => h.congr rfl ?_, fun h => h.congr rfl ?_⟩
  · intro other hmem
    exact (definitionsOf_without (hkept other hmem)).symm
  · intro other hmem
    exact definitionsOf_without (hkept other hmem)

/-! ## Assignments on the way -/

/-- The assignments to methods called `name` of some classes. -/
def assignmentsOn (hierarchy : Hierarchy) (name : String) (owners : List String) :
    List MemberAssignment :=
  hierarchy.assignments.filter fun x => x.member.name = name ∧ x.member.owner ∈ owners

theorem assignmentsOn_singleton (name owner : String) :
    hierarchy.assignmentsOn name [owner] = hierarchy.assignmentsTo ⟨owner, name⟩ := by
  refine filter_congr fun x _ => decide_eq_decide.mpr ?_
  obtain ⟨⟨xowner, xname⟩, _, _, _⟩ := x
  simp only [mem_singleton, Member.mk.injEq]
  exact and_comm

theorem assignmentsOn_cons {name owner : String} (owners : List String)
    (hnone : hierarchy.assignmentsTo ⟨owner, name⟩ = []) :
    hierarchy.assignmentsOn name (owner :: owners) = hierarchy.assignmentsOn name owners := by
  refine filter_congr fun x hx => decide_eq_decide.mpr ?_
  have hother : x.member.name = name → x.member.owner ≠ owner := by
    intro hname howner
    have hmem : x ∈ hierarchy.assignmentsTo ⟨owner, name⟩ :=
      mem_assignmentsTo.mpr ⟨hx, by rw [← hname, ← howner]⟩
    rw [hnone] at hmem
    cases hmem
  refine and_congr_right fun hname => ?_
  rw [mem_cons, or_iff_right (hother hname)]

/-- The one assignment to a member with an own method is this method. -/
theorem ownMethod?_assignments {program : Program} {annotations : Annotations} {member : Member}
    {d : MethodDefinition} (h : (program.hierarchy annotations).ownMethod? member = some d) :
    ((program.hierarchy annotations).assignmentsTo member).map (some ·.assignment) =
      [d.assignment?] := by
  obtain ⟨hdefinitions, x, hassignments⟩ := ownMethod?_eq_some.mp h
  have hsub := program.definitionsOf_sublist annotations member
  rw [hdefinitions, hassignments] at hsub
  rw [hassignments]
  exact (hsub.eq_of_length rfl).symm

end Hierarchy

/-! ## Where removed definitions lead -/

/-- `e` is the own method of the confirmed superclass that a call finds without `d`. -/
def Hierarchy.SuperMethod (hierarchy : Hierarchy) (d e : MethodDefinition) : Prop :=
  ∃ superclass, hierarchy.Extends superclass d.member.owner ∧
    hierarchy.ownMethod? ⟨superclass, d.member.name⟩ = some e

/-- From `d`, going from removed definitions to the methods above them ends in `k`, which is kept.
Looking the method of `d` up in the smaller program finds `k`, and nothing else is assigned to this
method on the way. -/
structure Outcome.Resolves (outcome : Outcome) (program : Program) (annotations : Annotations)
    (d k : MethodDefinition) : Prop where
  chain : ReflTransGen (fun x y =>
    x ∈ outcome.report.removed ∧ (program.hierarchy annotations).SuperMethod x y) d k
  kept : k ∈ outcome.program.definitions ∧ ¬ k ∈ outcome.report.removed
  name_eq : k.member.name = d.member.name
  found : ∃ visited,
    (outcome.program.hierarchy annotations).LookUp d.member.name d.member.owner visited [k] ∧
      ((outcome.program.hierarchy annotations).assignmentsOn d.member.name visited).map
        (some ·.assignment) = [k.assignment?]
  params_length : k.params.length = d.params.length

namespace Program

variable {program : Program} {annotations : Annotations} {context : Context}

/-- A removed definition has a method above it with as many parameters. -/
theorem superMethod_of_removed {d : MethodDefinition}
    (hd : d ∈ (context.process program annotations).report.removed) :
    ∃ e, (program.hierarchy annotations).SuperMethod d e ∧ e.params.length = d.params.length := by
  rw [removed_eq] at hd
  obtain ⟨call, _, hreason⟩ := elides_iff.mp (mem_filter.mp hd).2
  obtain ⟨_, superclass, hsuper, _, e, hown, hmethod⟩ :=
    Hierarchy.keepReason?_eq_none_iff.mp hreason
  obtain ⟨hsignature, _⟩ := ForwardingCall.methodReason?_eq_none_iff.mp hmethod
  exact ⟨e, ⟨superclass, hsuper, hown⟩, hsignature.length_eq.symm⟩

/-- A kept own method is found where it is. -/
theorem Distinct.resolves_self (h : program.Distinct) {member : Member} {e : MethodDefinition}
    (hown : (program.hierarchy annotations).ownMethod? member = some e)
    (hkept : ¬ e ∈ (context.process program annotations).report.removed) :
    (context.process program annotations).Resolves program annotations e e := by
  obtain ⟨hmem, rfl⟩ := Hierarchy.ownMethod?_mem hown
  have hnot : ¬ e.member ∈ (context.process program annotations).report.lost :=
    fun hlost => hkept (h.mem_removed_of_lost hmem hlost)
  refine ⟨.refl, ⟨?_, hkept⟩, rfl, ⟨[e.member.owner], ?_, ?_⟩, rfl⟩
  · rw [h.process_definitions]
    exact mem_filter.mpr ⟨hmem, decide_eq_true hnot⟩
  · rw [h.process_hierarchy]
    refine .own ?_ (cons_ne_nil e [])
    rw [Hierarchy.definitionsOf_without hnot]
    exact (Hierarchy.ownMethod?_eq_some.mp hown).1
  · rw [h.process_hierarchy, Hierarchy.assignmentsOn_singleton,
      Hierarchy.assignmentsTo_without hnot]
    exact Hierarchy.ownMethod?_assignments hown

/-- Where the method above a removed definition leads, the removed one leads, too: its class has
neither a definition of the method nor an assignment to it any more. -/
theorem Distinct.resolves_step (h : program.Distinct) {d e k : MethodDefinition}
    (hd : d ∈ (context.process program annotations).report.removed)
    (hsuper : (program.hierarchy annotations).SuperMethod d e)
    (hlength : e.params.length = d.params.length)
    (he : (context.process program annotations).Resolves program annotations e k) :
    (context.process program annotations).Resolves program annotations d k := by
  obtain ⟨hchain, hkept, hname, ⟨visited, hlookUp, hassigned⟩, hparams⟩ := he
  have hlost : d.member ∈ (context.process program annotations).report.lost :=
    mem_map_of_mem hd
  have hstep := hsuper
  obtain ⟨superclass, hextends, hown⟩ := hsuper
  have hmember := (Hierarchy.ownMethod?_mem hown).2
  rw [hmember] at hlookUp hassigned hname
  refine ⟨hchain.head ⟨hd, hstep⟩, hkept, hname, ⟨d.member.owner :: visited, ?_, ?_⟩,
    hparams.trans hlength⟩
  · refine .inherited ?_ ?_ hlookUp
    · rw [h.process_hierarchy]
      exact Hierarchy.definitionsOf_without_of_lost hlost
    · rw [h.process_hierarchy]
      exact hextends
  · rw [Hierarchy.assignmentsOn_cons visited]
    · exact hassigned
    · rw [h.process_hierarchy]
      exact Hierarchy.assignmentsTo_without_of_lost hlost

/-- The induction is along the chain of superclasses: every removed definition hands on to a method
of a class further up. -/
theorem Distinct.exists_resolves (h : program.Distinct)
    (hacyclic : (program.hierarchy annotations).Acyclic) {d : MethodDefinition}
    (hd : d ∈ (context.process program annotations).report.removed) :
    ∃ k, (context.process program annotations).Resolves program annotations d k := by
  obtain ⟨owner, howner⟩ : ∃ owner, d.member.owner = owner := ⟨_, rfl⟩
  induction owner using hacyclic.wellFounded.induction generalizing d with
  | _ owner ih =>
    obtain ⟨e, hsuper, hlength⟩ := superMethod_of_removed hd
    have hstep := hsuper
    obtain ⟨superclass, hextends, hown⟩ := hsuper
    by_cases hremoved : e ∈ (context.process program annotations).report.removed
    · have hmember := (Hierarchy.ownMethod?_mem hown).2
      obtain ⟨k, hk⟩ := ih superclass (howner ▸ hextends) hremoved (by rw [hmember])
      exact ⟨k, h.resolves_step hd hstep hlength hk⟩
    · exact ⟨e, h.resolves_step hd hstep hlength (h.resolves_self hown hremoved)⟩

end Program

theorem Chain.acyclic : (program.hierarchy program.annotations).Acyclic := by
  have hranks : ∀ owner ∈ (program.hierarchy program.annotations).table.classes.keys,
      ∀ superclass ∈ (program.hierarchy program.annotations).immediateSuper? owner,
        ["A", "B", "C"].idxOf superclass < ["A", "B", "C"].idxOf owner := by
    decide +kernel
  refine Hierarchy.acyclic_of_rank (["A", "B", "C"].idxOf ·) fun superclass owner hextends => ?_
  exact hranks owner hextends.mem_keys superclass hextends

/-! ## Dispatch before and after a run -/

/-- Every removed definition leads to a kept one, which look-ups find in its place. Every other
look-up ends as before. -/
structure Outcome.KeepsDispatch (outcome : Outcome) (program : Program)
    (annotations : Annotations) : Prop where
  resolved : ∀ d ∈ outcome.report.removed, ∃ k, outcome.Resolves program annotations d k
  total : ∀ name owner, ∃ visited found,
    (program.hierarchy annotations).LookUp name owner visited found
  unchanged : ∀ name owner visited found,
    (∀ d ∈ outcome.report.removed, d.member.name = name → ¬ d.member.owner ∈ visited) →
      ((outcome.program.hierarchy annotations).LookUp name owner visited found ↔
        (program.hierarchy annotations).LookUp name owner visited found)

theorem Program.Distinct.process_keepsDispatch {program : Program} (h : program.Distinct)
    {annotations : Annotations} (hacyclic : (program.hierarchy annotations).Acyclic)
    (context : Context) :
    (context.process program annotations).KeepsDispatch program annotations := by
  refine ⟨fun d hd => h.exists_resolves hacyclic hd, hacyclic.exists_lookUp, ?_⟩
  intro name owner visited found hkept
  rw [h.process_hierarchy]
  refine Hierarchy.lookUp_without_iff fun other hother hlost => ?_
  obtain ⟨d, hd, hmember⟩ := mem_map.mp hlost
  refine hkept d hd (by rw [hmember]) ?_
  rw [hmember]
  exact hother

theorem Chain.keepsDispatch :
    program.Distinct ∧ (program.hierarchy program.annotations).Acyclic ∧
      (({} : Context).process program program.annotations).KeepsDispatch program
        program.annotations ∧
      (({} : Context).process program program.annotations).report.removed.map
        (·.member.owner) = ["B", "C"] := by
  refine ⟨distinct, acyclic, distinct.process_keepsDispatch acyclic {}, ?_⟩
  decide +kernel

end OverrideElision
