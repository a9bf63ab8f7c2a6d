import OverrideElision.Proofs.ReturnValues

/-! # Signatures along a chain

A run compares each override with the method right above it. Over a chain of removed definitions the
kind of a parameter changes once at most, from required to optional, at a definition that says
nothing about the parameter. The method that answers in the end has the signature of the first
definition unless that one declares such a parameter. -/

namespace OverrideElision

open List Relation

/-- The kind of a parameter is that of the first one, or the first was required and this is
optional. -/
def Param.Widens (own later : Param) : Prop :=
  own.kind = later.kind ∨ own.kind = .required ∧ later.kind = .optional

namespace Param

theorem Accepts.widens {own inherited : Param} (h : own.Accepts inherited) :
    own.Widens inherited := by
  rcases h with hkind | ⟨_, hown, hinherited⟩
  · exact .inl hkind
  · exact .inr ⟨hown, hinherited⟩

theorem Accepts.kind_eq_of_declared {own inherited : Param} (h : own.Accepts inherited)
    (hdeclared : own.declared = true) : own.kind = inherited.kind := by
  rcases h with hkind | ⟨hundeclared, _⟩
  · exact hkind
  · rw [hdeclared] at hundeclared
    cases hundeclared

theorem Widens.trans {a b c : Param} (hab : a.Widens b) (hbc : b.Widens c) : a.Widens c := by
  rcases hab with hab | ⟨ha, hb⟩
  · rcases hbc with hbc | ⟨hb, hc⟩
    · exact .inl (hab.trans hbc)
    · exact .inr ⟨hab.trans hb, hc⟩
  · rcases hbc with hbc | ⟨hb', _⟩
    · exact .inr ⟨ha, hbc ▸ hb⟩
    · rw [hb] at hb'
      cases hb'

end Param

/-! ## Parameters by position -/

/-- Two lists are related item by item when they have one length and the items in each position are
related. -/
theorem forall₂_iff_getElem? {R : Param → Param → Prop} {xs ys : List Param} :
    Forall₂ R xs ys ↔ xs.length = ys.length ∧
      ∀ (i : Nat) (x y : Param), xs[i]? = some x → ys[i]? = some y → R x y := by
  rw [forall₂_iff_get]
  refine and_congr_right fun _ => ?_
  simp only [get_eq_getElem, List.getElem?_eq_some_iff]
  constructor
  · intro h i x y hx hy
    obtain ⟨hi, rfl⟩ := hx
    obtain ⟨hi', rfl⟩ := hy
    exact h i hi hi'
  · intro h i hi hi'
    exact h i _ _ ⟨hi, rfl⟩ ⟨hi', rfl⟩

theorem exists_getElem?_of_forall₂ {R : Param → Param → Prop} {xs ys : List Param}
    (h : Forall₂ R xs ys) {i : Nat} {x : Param} (hx : xs[i]? = some x) :
    ∃ y, ys[i]? = some y ∧ R x y := by
  obtain ⟨hlength, hall⟩ := forall₂_iff_getElem?.mp h
  obtain ⟨hi, _⟩ := List.getElem?_eq_some_iff.mp hx
  have hi : i < ys.length := hlength ▸ hi
  have hy : ys[i]? = some ys[i] := List.getElem?_eq_getElem hi
  exact ⟨_, hy, hall i x _ hx hy⟩

theorem forall₂_widens_refl (params : List Param) : Forall₂ Param.Widens params params :=
  forall₂_same.mpr fun _ _ => .inl rfl

theorem forall₂_widens_trans {xs ys zs : List Param} (hxy : Forall₂ Param.Widens xs ys)
    (hyz : Forall₂ Param.Widens ys zs) : Forall₂ Param.Widens xs zs := by
  induction hxy generalizing zs with
  | nil => exact hyz
  | cons hab _ ih =>
    cases hyz with
    | cons hbc hrest => exact .cons (hab.trans hbc) (ih hrest)

/-! ## Along a chain -/

/-- Above `d`, no removed definition takes over for a required parameter that the method above it
has it optional, unless `d` does not declare this parameter. -/
def Outcome.KeepsDeclared (outcome : Outcome) (hierarchy : Hierarchy) (d : MethodDefinition) :
    Prop :=
  ∀ e f, TransGen (outcome.HandsOn hierarchy) d e → outcome.HandsOn hierarchy e f →
    ∀ (i : Nat) (own between above : Param), d.params[i]? = some own → e.params[i]? = some between →
      f.params[i]? = some above → own.declared = true →
        ¬ (between.kind = .required ∧ above.kind = .optional)

namespace Program

variable {program : Program} {annotations : Annotations} {context : Context}

theorem accepts_of_handsOn {d e : MethodDefinition}
    (h : (context.process program annotations).HandsOn (program.hierarchy annotations) d e) :
    Forall₂ Param.Accepts d.params e.params := by
  obtain ⟨call, _, hmethod⟩ := methodReason?_of_handsOn h
  exact (ForwardingCall.methodReason?_eq_none_iff.mp hmethod).1

theorem widens_of_chain {d e : MethodDefinition}
    (h : ReflTransGen
      ((context.process program annotations).HandsOn (program.hierarchy annotations)) d e) :
    Forall₂ Param.Widens d.params e.params := by
  induction h with
  | refl => exact forall₂_widens_refl _
  | tail _ hstep ih =>
    exact forall₂_widens_trans ih ((accepts_of_handsOn hstep).imp fun _ _ => Param.Accepts.widens)

/-- The induction is along the chain. The first step keeps the kind of a declared parameter, since
the check lets only undeclared ones change, and the later ones do by assumption. -/
theorem kind_eq_of_keepsDeclared {d e : MethodDefinition}
    (hkeeps : (context.process program annotations).KeepsDeclared (program.hierarchy annotations) d)
    (h : TransGen
      ((context.process program annotations).HandsOn (program.hierarchy annotations)) d e)
    {i : Nat} {own later : Param} (hown : d.params[i]? = some own)
    (hlater : e.params[i]? = some later) (hdeclared : own.declared = true) :
    own.kind = later.kind := by
  induction h generalizing later with
  | single hstep =>
    obtain ⟨_, haccepts⟩ := forall₂_iff_getElem?.mp (accepts_of_handsOn hstep)
    exact (haccepts i own later hown hlater).kind_eq_of_declared hdeclared
  | @tail e f hchain hstep ih =>
    obtain ⟨between, hbetween, _⟩ :=
      exists_getElem?_of_forall₂ (widens_of_chain hchain.to_reflTransGen) hown
    obtain ⟨_, haccepts⟩ := forall₂_iff_getElem?.mp (accepts_of_handsOn hstep)
    rcases haccepts i between later hbetween hlater with hkind | ⟨_, hrequired, hoptional⟩
    · exact (ih hbetween).trans hkind
    · exact absurd ⟨hrequired, hoptional⟩
        (hkeeps e f hchain hstep i own between later hown hbetween hlater hdeclared)

/-- From anywhere on its way, a chain goes on to the definition that it ends in. -/
theorem chain_to_end {d e k : MethodDefinition}
    (hk : (context.process program annotations).Resolves program annotations d k)
    (h : ReflTransGen
      ((context.process program annotations).HandsOn (program.hierarchy annotations)) d e) :
    ReflTransGen
      ((context.process program annotations).HandsOn (program.hierarchy annotations)) e k := by
  have hunique := Outcome.handsOn_rightUnique (context.process program annotations)
    (program.hierarchy annotations)
  rcases ReflTransGen.total_of_right_unique hunique h hk.chain with hek | hke
  · exact hek
  · -- Nothing follows the kept definition, so that one reached from it is itself.
    rcases ReflTransGen.cases_head hke with rfl | ⟨next, hnext, _⟩
    · exact .refl
    · exact absurd hnext.1 hk.kept.2

theorem sameSignature_of_keepsDeclared {d k : MethodDefinition}
    (hd : d ∈ (context.process program annotations).report.removed)
    (hk : (context.process program annotations).Resolves program annotations d k)
    (hkeeps :
      (context.process program annotations).KeepsDeclared (program.hierarchy annotations) d) :
    d.sameSignature k = true := by
  obtain ⟨hlength, hwidens⟩ := forall₂_iff_getElem?.mp (widens_of_chain hk.chain)
  have hchain : TransGen
      ((context.process program annotations).HandsOn (program.hierarchy annotations)) d k := by
    rcases reflTransGen_iff_eq_or_transGen.mp hk.chain with heq | hchain
    · exact absurd (heq ▸ hd) hk.kept.2
    · exact hchain
  refine MethodDefinition.sameSignature_iff.mpr (forall₂_iff_getElem?.mpr ⟨hlength, ?_⟩)
  intro i own last hown hlast
  rcases hwidens i own last hown hlast with hkind | ⟨hrequired, hoptional⟩
  · exact .inl hkind
  · refine .inr ⟨?_, hrequired, hoptional⟩
    rw [← Bool.not_eq_true]
    intro hdeclared
    exact absurd (kind_eq_of_keepsDeclared hkeeps hchain hown hlast hdeclared)
      (by simp [hrequired, hoptional])

theorem keepsDeclared_of_sameSignature {d k : MethodDefinition}
    (hk : (context.process program annotations).Resolves program annotations d k)
    (hsame : d.sameSignature k = true) :
    (context.process program annotations).KeepsDeclared (program.hierarchy annotations) d := by
  intro e f hchain hstep i own between above hown hbetween habove hdeclared hchange
  obtain ⟨hrequired, hoptional⟩ := hchange
  have hdf := hchain.to_reflTransGen.tail hstep
  obtain ⟨last, hlast, hbeyond⟩ :=
    exists_getElem?_of_forall₂ (widens_of_chain (chain_to_end hk hdf)) habove
  have hlastKind : last.kind = .optional := by
    rcases hbeyond with hkind | ⟨hkind, _⟩
    · exact hkind ▸ hoptional
    · simp [hoptional] at hkind
  obtain ⟨_, hwidens⟩ := forall₂_iff_getElem?.mp (widens_of_chain hchain.to_reflTransGen)
  have hownKind : own.kind = .required := by
    rcases hwidens i own between hown hbetween with hkind | ⟨hkind, _⟩
    · exact hkind.trans hrequired
    · exact hkind
  obtain ⟨_, haccepts⟩ := forall₂_iff_getElem?.mp (MethodDefinition.sameSignature_iff.mp hsame)
  have hsameKind := (haccepts i own last hown hlast).kind_eq_of_declared hdeclared
  simp [hownKind, hlastKind] at hsameKind

end Program

/-! ## The method that answers -/

/-- The definitions that answer in place of `d`: there is one, each takes as many parameters, of the
kinds of those of `d` or optional ones in place of required ones, and it has the signature of `d` as
the check of the run understands it exactly when the chain keeps the declared parameters. -/
structure Outcome.AnswersAlike (outcome : Outcome) (program : Program) (annotations : Annotations)
    (d : MethodDefinition) : Prop where
  answered : ∃ k, outcome.Resolves program annotations d k
  widens : ∀ k, outcome.Resolves program annotations d k → Forall₂ Param.Widens d.params k.params
  sameSignature_iff : ∀ k, outcome.Resolves program annotations d k →
    (d.sameSignature k = true ↔ outcome.KeepsDeclared (program.hierarchy annotations) d)

theorem Program.Distinct.process_answersAlike {program : Program} (h : program.Distinct)
    {annotations : Annotations} (hacyclic : (program.hierarchy annotations).Acyclic)
    (context : Context) {d : MethodDefinition}
    (hd : d ∈ (context.process program annotations).report.removed) :
    (context.process program annotations).AnswersAlike program annotations d := by
  refine ⟨h.exists_resolves hacyclic hd, fun k hk => widens_of_chain hk.chain, fun k hk => ?_⟩
  constructor
  · exact keepsDeclared_of_sameSignature hk
  · exact sameSignature_of_keepsDeclared hd hk

/-! ## A chain with an optional parameter -/

namespace Chain

/-- `owner.prototype.m = function (param) { return owner.superClass_.m.call(this, param); };` -/
def forwarderOf (id : Nat) (owner : String) (param : Param) : Statement :=
  ⟨id, "", .expr (.assign ⟨id, .member (prototype owner) "m", .function ⟨[param],
    [⟨id + 1, "", .ret (some (.forwardingCall (.member (.name owner) "superClass_") "m"
      [param]))⟩], none, true⟩⟩)⟩

/-- The chain with a parameter that is optional in `A`. Nothing is said about it in `B`, and in `C`
only when it is `declared` there, as required. -/
def optional (declared : Bool) : Program where
  scripts :=
    [⟨0, "a.js",
      [declaration 0 "A",
        ⟨1, "", .expr (.assign ⟨1, .member (prototype "A") "m", .function
          ⟨[{ name := "x", kind := .optional, declared := true }], [], none, false⟩⟩)⟩,
        declaration 3 "B", link 4 "B" "A", forwarderOf 5 "B" { name := "x" }]⟩,
     ⟨1, "b.js",
      [declaration 7 "C", link 8 "C" "B", forwarderOf 9 "C" { name := "x", declared }]⟩]
  annotations := program.annotations

theorem optional_distinct (declared : Bool) : (optional declared).Distinct := by
  cases declared with
  | false => exact ⟨by decide, by decide +kernel⟩
  | true => exact ⟨by decide, by decide +kernel⟩

theorem optional_acyclic (declared : Bool) :
    ((optional declared).hierarchy (optional declared).annotations).Acyclic := by
  have hfacts : (optional declared).classFacts (optional declared).annotations =
      program.classFacts program.annotations := by
    cases declared <;> decide +kernel
  have htable : ((optional declared).hierarchy (optional declared).annotations).table =
      (program.hierarchy program.annotations).table :=
    congrArg ClassTable.ofFacts hfacts
  exact acyclic.of_table_eq htable

/-- Both forwarding methods go, whether `C` declares the parameter or not. -/
theorem optional_removed (declared : Bool) :
    ∃ d ∈ (({} : Context).process (optional declared)
        (optional declared).annotations).report.removed,
      d.params = [{ name := "x", declared }] := by
  have hremoved : (({} : Context).process (optional declared)
      (optional declared).annotations).report.removed.map MethodDefinition.params =
        [[{ name := "x" }], [{ name := "x", declared }]] := by
    cases declared <;> decide +kernel
  rw [← mem_map, hremoved]
  exact mem_cons_of_mem _ (mem_singleton_self _)

/-- Not declared in `C`, the parameter may become optional on the way. -/
theorem optional_answersAlike :
    (optional false).Distinct ∧
      ((optional false).hierarchy (optional false).annotations).Acyclic ∧
      ∃ d ∈ (({} : Context).process (optional false) (optional false).annotations).report.removed,
        (({} : Context).process (optional false) (optional false).annotations).AnswersAlike
            (optional false) (optional false).annotations d ∧
          ∃ k, (({} : Context).process (optional false)
              (optional false).annotations).Resolves (optional false)
                (optional false).annotations d k ∧
            d.sameSignature k = true := by
  obtain ⟨d, hd, hparams⟩ := optional_removed false
  have hanswers := (optional_distinct false).process_answersAlike (optional_acyclic false) {} hd
  obtain ⟨k, hk⟩ := hanswers.answered
  refine ⟨optional_distinct false, optional_acyclic false, d, hd, hanswers, k, hk, ?_⟩
  refine (hanswers.sameSignature_iff k hk).mpr ?_
  intro e f _ _ i own between above hown _ _ hdeclared
  obtain rfl : own = { name := "x" } := by
    have hmem := mem_of_getElem? hown
    rw [hparams] at hmem
    exact mem_singleton.mp hmem
  cases hdeclared

/-- Declared as required in `C`, it is answered by the optional one of `A`, which the check would
have refused right above it. -/
theorem optional_answers_declared :
    (optional true).Distinct ∧
      ((optional true).hierarchy (optional true).annotations).Acyclic ∧
      ∃ d ∈ (({} : Context).process (optional true) (optional true).annotations).report.removed,
        ∃ k, (({} : Context).process (optional true)
            (optional true).annotations).Resolves (optional true) (optional true).annotations d k ∧
          d.params = [{ name := "x", declared := true }] ∧
          k.params = [{ name := "x", kind := .optional, declared := true }] ∧
          d.sameSignature k = false := by
  obtain ⟨d, hd, hparams⟩ := optional_removed true
  obtain ⟨k, hk⟩ := (optional_distinct true).exists_resolves (optional_acyclic true) hd
  have hleft : (({} : Context).process (optional true)
      (optional true).annotations).program.definitions.map MethodDefinition.params =
        [[{ name := "x", kind := .optional, declared := true }]] := by
    decide +kernel
  have hlast : k.params = [{ name := "x", kind := .optional, declared := true }] :=
    mem_singleton.mp (hleft ▸ mem_map_of_mem hk.kept.1)
  refine ⟨optional_distinct true, optional_acyclic true, d, hd, k, hk, hparams, hlast, ?_⟩
  rw [MethodDefinition.sameSignature, hparams, hlast]
  decide

end Chain

end OverrideElision
