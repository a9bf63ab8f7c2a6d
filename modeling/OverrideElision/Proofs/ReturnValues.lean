import OverrideElision.Proofs.Dispatch

/-! # Return values

A method whose body is a superclass call that is not returned drops the value of that call. A run
removes such a definition only when the method above it gives no value. If that method forwards as
well and goes in the same run, it does not return its call either. By induction nothing is lost
along a chain of removed definitions, up to the method that is left to answer. -/

namespace OverrideElision

open List Relation

/-! ## Calls that are not returned -/

namespace MethodDefinition

/-- The body of the method is a superclass call that is not returned. -/
def CallsBare (d : MethodDefinition) : Prop :=
  ∃ call, d.forwardingCall? = some call ∧ call.returned = false

theorem forwardingCall?_of_override? {d : MethodDefinition} {info : Doc.Info}
    {call : ForwardingCall} (h : d.override? info = some call) : d.forwardingCall? = some call := by
  unfold override? at h
  split at h
  · exact (Option.filter_eq_some_iff.mp h).1
  · cases h

/-- A method that returns its call gives a value. -/
theorem returnsValue_of_returned {d : MethodDefinition} {call : ForwardingCall}
    (h : d.forwardingCall? = some call) (hreturned : call.returned = true)
    (annotations : Annotations) : d.returnsValue annotations = true := by
  obtain ⟨_, id, text, e, hbody, _⟩ := forwardingCall?_eq_some_iff.mp h
  have hmem : ⟨id, text, .ofExpr call.returned e⟩ ∈ d.body := by
    rw [hbody]
    exact mem_singleton_self _
  have hform : Form.ofExpr call.returned e = .ret (some e) := by
    rw [hreturned]
    rfl
  exact returnsValue_iff.mpr (.inr (.inr ⟨_, hmem, e, hform⟩))

/-- A forwarding method that gives no value does not return its call. -/
theorem callsBare_of_returnsValue_eq_false {d : MethodDefinition} {call : ForwardingCall}
    {annotations : Annotations} (h : d.forwardingCall? = some call)
    (hvalue : d.returnsValue annotations = false) : d.CallsBare := by
  refine ⟨call, h, ?_⟩
  rw [← Bool.not_eq_true]
  intro hreturned
  rw [returnsValue_of_returned h hreturned] at hvalue
  cases hvalue

end MethodDefinition

/-! ## From one definition to the next -/

theorem Hierarchy.SuperMethod.unique {hierarchy : Hierarchy} {d e e' : MethodDefinition}
    (h : hierarchy.SuperMethod d e) (h' : hierarchy.SuperMethod d e') : e = e' := by
  rcases h with ⟨superclass, hextends, hown⟩
  rcases h' with ⟨superclass', hextends', hown'⟩
  obtain rfl : superclass = superclass' := Option.some.inj (hextends.symm.trans hextends')
  exact Option.some.inj (hown.symm.trans hown')

/-- The definition was removed, and calls find `e` above it. -/
def Outcome.HandsOn (outcome : Outcome) (hierarchy : Hierarchy) (d e : MethodDefinition) : Prop :=
  d ∈ outcome.report.removed ∧ hierarchy.SuperMethod d e

theorem Outcome.handsOn_rightUnique (outcome : Outcome) (hierarchy : Hierarchy) :
    Relator.RightUnique (outcome.HandsOn hierarchy) := by
  intro d e e' h h'
  exact h.2.unique h'.2

namespace Program

variable {program : Program} {annotations : Annotations} {context : Context}

theorem forwardingCall?_of_removed {d : MethodDefinition}
    (hd : d ∈ (context.process program annotations).report.removed) :
    ∃ call, d.forwardingCall? = some call := by
  rw [removed_eq] at hd
  obtain ⟨call, hcall, _⟩ := elides_iff.mp (mem_filter.mp hd).2
  exact ⟨call, MethodDefinition.forwardingCall?_of_override? hcall⟩

/-- The run compared each definition that it removed with the one that calls find above it. -/
theorem methodReason?_of_handsOn {d e : MethodDefinition}
    (h : (context.process program annotations).HandsOn (program.hierarchy annotations) d e) :
    ∃ call, d.forwardingCall? = some call ∧ call.methodReason? d e annotations = none := by
  rcases h with ⟨hd, hsuper⟩
  rw [removed_eq] at hd
  obtain ⟨call, hcall, hreason⟩ := elides_iff.mp (mem_filter.mp hd).2
  obtain ⟨_, superclass, hextends, _, e', hown, hmethod⟩ :=
    Hierarchy.keepReason?_eq_none_iff.mp hreason
  obtain rfl : e = e' := hsuper.unique ⟨superclass, hextends, hown⟩
  exact ⟨call, MethodDefinition.forwardingCall?_of_override? hcall, hmethod⟩

/-- A call that is not returned may only go to a method without a value. -/
theorem returnsValue_of_handsOn {d e : MethodDefinition}
    (h : (context.process program annotations).HandsOn (program.hierarchy annotations) d e)
    (hbare : d.CallsBare) : e.returnsValue annotations = false := by
  rcases hbare with ⟨bare, hbare, hreturned⟩
  obtain ⟨call, hcall, hmethod⟩ := methodReason?_of_handsOn h
  obtain rfl : bare = call := Option.some.inj (hbare.symm.trans hcall)
  obtain ⟨_, hvalue⟩ := ForwardingCall.methodReason?_eq_none_iff.mp hmethod
  rw [← Bool.not_eq_true, MethodDefinition.returnsValue_iff]
  rcases hvalue with hvalue | hvalue
  · rw [hreturned] at hvalue
    cases hvalue
  · exact hvalue

/-- The induction is along the chain. It carries that the definition reached gives no value, which
makes its own call a bare one if it was removed, too. -/
theorem returnsValue_of_transGen {d e : MethodDefinition}
    (h : TransGen
      ((context.process program annotations).HandsOn (program.hierarchy annotations)) d e)
    (hbare : d.CallsBare) : e.returnsValue annotations = false := by
  induction h with
  | single hstep => exact returnsValue_of_handsOn hstep hbare
  | tail _ hstep ih =>
    obtain ⟨call, hcall⟩ := forwardingCall?_of_removed hstep.1
    exact returnsValue_of_handsOn hstep
      (MethodDefinition.callsBare_of_returnsValue_eq_false hcall ih)

end Program

/-! ## No value is dropped -/

/-- What is called in place of `d` gives no value: neither a definition on the way, so that each one
removed there is a bare call again, nor the kept one that all of them lead to. -/
structure Outcome.DropsNoValue (outcome : Outcome) (program : Program) (annotations : Annotations)
    (d : MethodDefinition) : Prop where
  valueless : ∀ e, TransGen (outcome.HandsOn (program.hierarchy annotations)) d e →
    e.returnsValue annotations = false
  bare : ∀ e, TransGen (outcome.HandsOn (program.hierarchy annotations)) d e →
    e ∈ outcome.report.removed → e.CallsBare
  ends : ∃ k, outcome.Resolves program annotations d k ∧ k.returnsValue annotations = false ∧
    ∀ e, TransGen (outcome.HandsOn (program.hierarchy annotations)) d e →
      ReflTransGen (outcome.HandsOn (program.hierarchy annotations)) e k

/-- When a removed definition did not return its call, there was no value to return. -/
theorem Program.Distinct.process_dropsNoValue {program : Program} (h : program.Distinct)
    {annotations : Annotations} (hacyclic : (program.hierarchy annotations).Acyclic)
    (context : Context) {d : MethodDefinition}
    (hd : d ∈ (context.process program annotations).report.removed) (hbare : d.CallsBare) :
    (context.process program annotations).DropsNoValue program annotations d := by
  obtain ⟨k, hk⟩ := h.exists_resolves hacyclic hd
  have hchain : ReflTransGen
      ((context.process program annotations).HandsOn (program.hierarchy annotations)) d k :=
    hk.chain
  refine ⟨?_, ?_, k, hk, ?_, ?_⟩
  · intro e he
    exact returnsValue_of_transGen he hbare
  · intro e he hremoved
    obtain ⟨call, hcall⟩ := forwardingCall?_of_removed hremoved
    exact MethodDefinition.callsBare_of_returnsValue_eq_false hcall
      (returnsValue_of_transGen he hbare)
  · rcases reflTransGen_iff_eq_or_transGen.mp hchain with heq | hchain
    · exact absurd (heq ▸ hd) hk.kept.2
    · exact returnsValue_of_transGen hchain hbare
  · intro e he
    have hunique := Outcome.handsOn_rightUnique (context.process program annotations)
      (program.hierarchy annotations)
    rcases ReflTransGen.total_of_right_unique hunique he.to_reflTransGen hchain with hek | hke
    · exact hek
    · -- Nothing follows the kept definition, so that one reached from it is itself.
      rcases ReflTransGen.cases_head hke with rfl | ⟨next, hnext, _⟩
      · exact .refl
      · exact absurd hnext.1 hk.kept.2

/-! ## A chain of bare calls -/

namespace Chain

/-- `owner.prototype.m = function (x) { value; };` -/
def procedure (id : Nat) (owner : String) (value : Expr) : Statement :=
  ⟨id, "", .expr (.assign ⟨id, .member (prototype owner) "m",
    .function ⟨parameters, [⟨id + 1, "", .expr value⟩], none, false⟩⟩)⟩

/-- The chain with methods that return nothing. -/
def procedures : Program where
  scripts :=
    [⟨0, "a.js",
      [declaration 0 "A", procedure 1 "A" (.name "x"), declaration 3 "B", link 4 "B" "A",
        procedure 5 "B" (forwarding "B")]⟩,
     ⟨1, "b.js", [declaration 7 "C", link 8 "C" "B", procedure 9 "C" (forwarding "C")]⟩]
  annotations := program.annotations

theorem procedures_distinct : procedures.Distinct := by
  refine ⟨?_, ?_⟩
  · decide
  · decide +kernel

theorem procedures_acyclic : (procedures.hierarchy procedures.annotations).Acyclic := by
  have hfacts : procedures.classFacts procedures.annotations =
      program.classFacts program.annotations := by
    decide +kernel
  have htable : (procedures.hierarchy procedures.annotations).table =
      (program.hierarchy program.annotations).table :=
    congrArg ClassTable.ofFacts hfacts
  exact acyclic.of_table_eq htable

theorem procedures_dropNoValue :
    procedures.Distinct ∧ (procedures.hierarchy procedures.annotations).Acyclic ∧
      ∃ d ∈ (({} : Context).process procedures procedures.annotations).report.removed,
        d.member.owner = "C" ∧ d.CallsBare ∧
          (({} : Context).process procedures procedures.annotations).DropsNoValue procedures
            procedures.annotations d := by
  have howners : (({} : Context).process procedures procedures.annotations).report.removed.map
      (·.member.owner) = ["B", "C"] := by
    decide +kernel
  have hcalls : ∀ d ∈ (({} : Context).process procedures procedures.annotations).report.removed,
      ∃ call ∈ d.forwardingCall?, call.returned = false := by
    decide +kernel
  obtain ⟨d, hd, howner⟩ : ∃ d ∈ (({} : Context).process procedures
      procedures.annotations).report.removed, d.member.owner = "C" := by
    rw [← mem_map, howners]
    decide
  obtain ⟨call, hcall, hreturned⟩ := hcalls d hd
  have hbare : d.CallsBare := ⟨call, hcall, hreturned⟩
  exact ⟨procedures_distinct, procedures_acyclic, d, hd, howner, hbare,
    procedures_distinct.process_dropsNoValue procedures_acyclic {} hd hbare⟩

end Chain

end OverrideElision
