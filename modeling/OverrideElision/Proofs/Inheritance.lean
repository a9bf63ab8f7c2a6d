import OverrideElision.Proofs.Dispatch

/-! # What is left to inherit

A run removes a definition only when the class above has the method. That method may go in the same
run, and so may the one above it. The way up ends at a definition that is kept, unless the classes
run in a circle and all of them lose the method. -/

namespace OverrideElision

open List Relation

/-- Without an end, the way up comes back to a class that it has been to. -/
theorem Hierarchy.exists_circle {hierarchy : Hierarchy} {owner superclass : String}
    (hextends : hierarchy.Extends superclass owner)
    (hendless : ∀ name, TransGen hierarchy.Extends name owner →
      ∃ next, hierarchy.Extends next name) :
    ∃ name, TransGen hierarchy.Extends name owner ∧ TransGen hierarchy.Extends name name := by
  by_contra hnone
  -- Above `owner` the order is strict, and there are finitely many classes to take.
  let Above (x y : String) : Prop :=
    TransGen hierarchy.Extends x y ∧ TransGen hierarchy.Extends y owner
  have hstrict : IsStrictOrder String Above :=
    { irrefl := fun x hx => hnone ⟨x, hx.2, hx.1⟩
      trans := fun x y z hxy hyz => ⟨hxy.1.trans hyz.1, hyz.2⟩ }
  have hwell := (hierarchy.finite_above owner).wellFoundedOn (r := Above)
  have hsuper : superclass ∈ {name | TransGen hierarchy.Extends name owner} := .single hextends
  refine hwell.induction hsuper (P := fun _ => False) fun name hname ih => ?_
  obtain ⟨next, hnext⟩ := hendless name hname
  exact ih next (.head hnext hname) ⟨.single hnext, hname⟩

namespace Outcome

/-- A class above the one of `d` still has a definition of the method. -/
def Inherits (outcome : Outcome) (hierarchy : Hierarchy) (d : MethodDefinition) : Prop :=
  ∃ k ∈ outcome.program.definitions, k.member.name = d.member.name ∧
    TransGen hierarchy.Extends k.member.owner d.member.owner

/-- The classes above the one of `d` run in a circle, and each of them lost the method. -/
structure DiesOut (outcome : Outcome) (hierarchy : Hierarchy) (d : MethodDefinition) : Prop where
  circle : ∃ name, TransGen hierarchy.Extends name d.member.owner ∧
    TransGen hierarchy.Extends name name
  lost : ∀ name, TransGen hierarchy.Extends name d.member.owner →
    ⟨name, d.member.name⟩ ∈ outcome.report.lost

end Outcome

namespace Program

variable {program : Program} {annotations : Annotations} {context : Context}

/-- A kept definition is one of a member that was not lost. -/
theorem Distinct.mem_process_definitions_iff (h : program.Distinct) {d : MethodDefinition} :
    d ∈ (context.process program annotations).program.definitions ↔
      d ∈ program.definitions ∧
        ¬ d.member ∈ (context.process program annotations).report.lost := by
  rw [h.process_definitions, mem_filter, decide_eq_true_eq]

/-- The class above a removed definition had the method, and has kept it or lost it. -/
theorem Distinct.kept_or_lost (h : program.Distinct) {d : MethodDefinition}
    (hd : d ∈ (context.process program annotations).report.removed) :
    ∃ superclass, (program.hierarchy annotations).Extends superclass d.member.owner ∧
      ((∃ k ∈ (context.process program annotations).program.definitions,
          k.member = ⟨superclass, d.member.name⟩) ∨
        ⟨superclass, d.member.name⟩ ∈ (context.process program annotations).report.lost) := by
  obtain ⟨e, ⟨superclass, hextends, hown⟩, _⟩ := superMethod_of_removed hd
  obtain ⟨he, hmember⟩ := Hierarchy.ownMethod?_mem hown
  refine ⟨superclass, hextends, ?_⟩
  by_cases hlost : e.member ∈ (context.process program annotations).report.lost
  · right
    rwa [← hmember]
  · left
    exact ⟨e, h.mem_process_definitions_iff.mpr ⟨he, hlost⟩, hmember⟩

/-- The induction goes up from the class of the removed definition. It carries that every class on
the way lost the method, so that the next class had it as well. -/
theorem Distinct.lost_of_not_inherits (h : program.Distinct) {d : MethodDefinition}
    (hd : d ∈ (context.process program annotations).report.removed)
    (hnone : ¬ (context.process program annotations).Inherits (program.hierarchy annotations) d)
    {name : String}
    (hname : TransGen (program.hierarchy annotations).Extends name d.member.owner) :
    ⟨name, d.member.name⟩ ∈ (context.process program annotations).report.lost := by
  have hstep : ∀ e ∈ (context.process program annotations).report.removed,
      e.member.name = d.member.name →
      ReflTransGen (program.hierarchy annotations).Extends e.member.owner d.member.owner →
      ∀ superclass, (program.hierarchy annotations).Extends superclass e.member.owner →
        ⟨superclass, d.member.name⟩ ∈ (context.process program annotations).report.lost := by
    intro e he hsame habove superclass hextends
    obtain ⟨superclass', hextends', hkept | hlost⟩ := h.kept_or_lost he
    · obtain ⟨k, hk, hmember⟩ := hkept
      refine absurd ⟨k, hk, ?_, ?_⟩ hnone
      · rw [hmember]
        exact hsame
      · rw [hmember]
        exact TransGen.head' hextends' habove
    · obtain rfl : superclass' = superclass := Option.some.inj (hextends'.symm.trans hextends)
      rwa [← hsame]
  induction hname using TransGen.head_induction_on with
  | single hextends => exact hstep d hd rfl .refl _ hextends
  | head hextends habove ih =>
    obtain ⟨e, he, hmember⟩ := mem_map.mp ih
    refine hstep e he (by rw [hmember]) ?_ _ (by rwa [hmember])
    rw [hmember]
    exact habove.to_reflTransGen

/-- A method is still there to inherit unless it dies out in a circle of classes. -/
theorem Distinct.process_inherits_iff (h : program.Distinct) {d : MethodDefinition}
    (hd : d ∈ (context.process program annotations).report.removed) :
    (context.process program annotations).Inherits (program.hierarchy annotations) d ↔
      ¬ (context.process program annotations).DiesOut (program.hierarchy annotations) d := by
  constructor
  · intro hinherits hdies
    obtain ⟨k, hk, hsame, habove⟩ := hinherits
    apply (h.mem_process_definitions_iff.mp hk).2
    have hlost := hdies.lost k.member.owner habove
    rwa [← hsame] at hlost
  · intro hlives
    by_contra hnone
    have hlost : ∀ name, TransGen (program.hierarchy annotations).Extends name d.member.owner →
        ⟨name, d.member.name⟩ ∈ (context.process program annotations).report.lost :=
      fun _ => h.lost_of_not_inherits hd hnone
    obtain ⟨superclass, hextends, _⟩ := h.kept_or_lost hd
    refine hlives ⟨Hierarchy.exists_circle hextends fun name hname => ?_, hlost⟩
    obtain ⟨e, he, hmember⟩ := mem_map.mp (hlost name hname)
    obtain ⟨next, hnext, _⟩ := h.kept_or_lost he
    rw [hmember] at hnext
    exact ⟨next, hnext⟩

end Program

/-! ## Chains and circles -/

namespace Chain

theorem inherits_m :
    program.Distinct ∧
      ∃ d ∈ (({} : Context).process program program.annotations).report.removed,
        d.member.owner = "C" ∧
          (({} : Context).process program program.annotations).Inherits
            (program.hierarchy program.annotations) d := by
  have howners : (({} : Context).process program program.annotations).report.removed.map
      (·.member.owner) = ["B", "C"] := by
    decide +kernel
  obtain ⟨d, hd, howner⟩ : ∃ d ∈ (({} : Context).process program
      program.annotations).report.removed, d.member.owner = "C" := by
    rw [← mem_map, howners]
    decide
  refine ⟨distinct, d, hd, howner, (distinct.process_inherits_iff hd).mpr fun hdies => ?_⟩
  obtain ⟨name, _, hcircle⟩ := hdies.circle
  exact acyclic name hcircle

/-- A class that is documented and linked as its own superclass, and whose method forwards. -/
def circular : Program where
  scripts := [⟨0, "a.js", [declaration 0 "A", link 1 "A" "A", method 2 "A" (forwarding "A")]⟩]
  annotations := .ofList
    [(0, { isConstructor := true, superType := some "A" }), (2, { isOverride := true })]

/-- The method calls itself by way of the superclass. It goes, and no class has it any more. -/
theorem circular_dies :
    circular.Distinct ∧
      ∃ d ∈ (({} : Context).process circular circular.annotations).report.removed,
        ¬ (({} : Context).process circular circular.annotations).Inherits
          (circular.hierarchy circular.annotations) d := by
  have hdistinct : circular.Distinct := by
    refine ⟨?_, ?_⟩
    · decide
    · decide +kernel
  have hremoved : (({} : Context).process circular circular.annotations).report.removed.map
      (·.member) = [⟨"A", "m"⟩] := by
    decide +kernel
  have hleft : (({} : Context).process circular circular.annotations).program.definitions.map
      (·.member) = [] := by
    decide +kernel
  obtain ⟨d, hd, _⟩ := mem_map.mp (hremoved ▸ mem_singleton_self (⟨"A", "m"⟩ : Member))
  refine ⟨hdistinct, d, hd, fun hinherits => ?_⟩
  obtain ⟨k, hk, _⟩ := hinherits
  have hmem := mem_map_of_mem (f := fun k : MethodDefinition => k.member) hk
  rw [hleft] at hmem
  cases hmem

end Chain

end OverrideElision
