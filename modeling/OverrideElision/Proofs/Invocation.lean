import OverrideElision.Proofs.Deletion

/-! # A whole invocation

One context serves all the runs of an invocation, over programs that may have changed in any way in
between, and assignments may be noted in it besides. Whatever the order, it holds what it was told
of, and a member with two different assignments is safe from then on. -/

namespace OverrideElision

open List

/-- One use of a context: an assignment is noted in it, or a run is made with it. -/
inductive Use where
  | note (sighting : Sighting)
  | process (program : Program) (annotations : Annotations)
  | optimize (code : Code) (annotations : Option Annotations)

/-- The run that a use makes with the context, if it makes one. -/
def Use.run? (context : Context) : Use → Option Outcome
  | .note _ => none
  | .process program annotations => some (context.process program annotations)
  | .optimize code annotations => some (context.optimize code annotations)

/-- The context after one use. -/
def Context.use (context : Context) : Use → Context
  | .note x => context.see x
  | .process program annotations => (context.process program annotations).context
  | .optimize code annotations => (context.optimize code annotations).context

/-- The context after several uses, one after the other. -/
def Context.useAll (context : Context) (uses : List Use) : Context :=
  uses.foldl use context

/-! ## What a use tells the context -/

namespace Use

/-- A note tells of one assignment. A run tells of every assignment to a class member in its
program, at any depth, with the documentation of the innermost statement around it. -/
inductive Tells : Use → Sighting → Prop where
  | note (x : Sighting) : Tells (.note x) x
  | process {program : Program} {annotations : Annotations} {script : Script} {s : Statement}
      {o : Occurrence} {member : Member} : script ∈ program.scripts → s ∈ script.statements →
        o ∈ s.occurrences → o.assignment.target.IsMember member →
          Tells (.process program annotations)
            ⟨member, o.assignment.id, script.name, annotations.info o.enclosing⟩
  | optimize {code : Code} {annotations : Option Annotations} {x : Sighting} :
      Tells (.process (code.documented annotations).1 (code.documented annotations).2) x →
        Tells (.optimize code annotations) x

/-- The assignments that a use tells of, in order. -/
def sightings : Use → List Sighting
  | .note x => [x]
  | .process program annotations => program.sightings annotations
  | .optimize code annotations =>
    (code.documented annotations).1.sightings (code.documented annotations).2

theorem tells_process_iff {program : Program} {annotations : Annotations} {x : Sighting} :
    (process program annotations).Tells x ↔ x ∈ program.sightings annotations := by
  rw [Program.mem_sightings]
  constructor
  · intro h
    cases h with
    | @process _ _ script s o member hscript hs ho htarget =>
      exact ⟨script, hscript, s, hs, o, ho, htarget, rfl⟩
  · intro h
    obtain ⟨script, hscript, s, hs, o, ho, htarget, hx⟩ := h
    rw [hx]
    exact .process hscript hs ho htarget

theorem mem_sightings {use : Use} {x : Sighting} : x ∈ use.sightings ↔ use.Tells x := by
  cases use with
  | note y =>
    constructor
    · intro h
      rw [mem_singleton.mp h]
      exact .note y
    · intro h
      cases h
      exact mem_singleton_self x
  | process program annotations => exact tells_process_iff.symm
  | optimize code annotations =>
    constructor
    · intro h
      exact .optimize (tells_process_iff.mpr h)
    · intro h
      cases h with
      | optimize h => exact tells_process_iff.mp h

end Use

namespace Context

/-! ## One use and several -/

theorem use_eq_seeAll (context : Context) (use : Use) :
    context.use use = context.seeAll use.sightings := by
  cases use with
  | note x => rfl
  | process program annotations => exact noteAll_eq_seeAll program.memberAssignments
  | optimize code annotations =>
    exact noteAll_eq_seeAll (code.documented annotations).1.memberAssignments

theorem useAll_eq_seeAll (context : Context) (uses : List Use) :
    context.useAll uses = context.seeAll (uses.flatMap Use.sightings) := by
  induction uses generalizing context with
  | nil => rfl
  | cons use uses ih =>
    rw [flatMap_cons, seeAll_append, ← use_eq_seeAll, ← ih]
    rfl

theorem within_useAll (context : Context) (uses : List Use) (member : Member) :
    (context.record member).Within ((context.useAll uses).record member) := by
  rw [useAll_eq_seeAll, record_seeAll]
  exact DefinitionRecord.within_addAll

/-- The context that a run ends with is the one that the use leaves. -/
theorem context_of_run? {context : Context} {use : Use} {outcome : Outcome}
    (h : use.run? context = some outcome) : outcome.context = context.use use := by
  cases use with
  | note x => cases h
  | process program annotations =>
    cases h
    rfl
  | optimize code annotations =>
    cases h
    rfl

/-- What a run removes has no second assignment on record, those of its own program counted. -/
theorem not_duplicated_of_removed {context : Context} {use : Use} {outcome : Outcome}
    (h : use.run? context = some outcome) {d : MethodDefinition}
    (hd : d ∈ outcome.report.removed) : ¬ (outcome.context.record d.member).Duplicated := by
  rw [← isDuplicated_iff_duplicated, Bool.not_eq_true]
  cases use with
  | note x => cases h
  | process program annotations =>
    cases h
    exact Program.isDuplicated_of_removed hd
  | optimize code annotations =>
    cases h
    exact Program.isDuplicated_of_removed hd

end Context

/-! ## A program that a run has left -/

theorem Script.foldl_erase_sublist (script : Script) (ds : List MethodDefinition) :
    (ds.foldl Script.erase script).statements <+ script.statements := by
  induction ds generalizing script with
  | nil => exact .refl _
  | cons d ds ih =>
    refine (ih (script.erase d)).trans ?_
    unfold erase
    split
    · exact eraseP_sublist
    · exact .refl _

/-- A run leaves no assignment that was not there before. -/
theorem Program.memberAssignments_process_subset (program : Program) (annotations : Annotations)
    (context : Context) :
    (context.process program annotations).program.memberAssignments ⊆
      program.memberAssignments := by
  intro x hx
  rw [process_program, deleteAll_fst] at hx
  obtain ⟨script, hscript, s, hs, hx⟩ := mem_memberAssignments.mp hx
  obtain ⟨original, horiginal, rfl⟩ := mem_map.mp hscript
  refine mem_memberAssignments.mpr
    ⟨original, horiginal, s, (original.foldl_erase_sublist _).subset hs, ?_⟩
  rw [Script.foldl_erase] at hx
  exact hx

/-! ## What the uses told of -/

namespace Context

/-- The uses told of an assignment to this member with this property. -/
def ToldOf (uses : List Use) (member : Member) (p : Sighting → Prop) : Prop :=
  ∃ use ∈ uses, ∃ x, use.Tells x ∧ x.member = member ∧ p x

theorem exists_told_iff {uses : List Use} {member : Member} {p : Sighting → Prop} :
    (∃ x ∈ (uses.flatMap Use.sightings).filter (·.member = member), p x) ↔
      ToldOf uses member p := by
  simp only [mem_filter, mem_flatMap, Use.mem_sightings, decide_eq_true_eq]
  constructor
  · intro h
    rcases h with ⟨x, ⟨⟨use, huse, htells⟩, hmember⟩, hp⟩
    exact ⟨use, huse, x, htells, hmember, hp⟩
  · intro h
    rcases h with ⟨use, huse, x, htells, hmember, hp⟩
    exact ⟨x, ⟨⟨use, huse, htells⟩, hmember⟩, hp⟩

variable (start : Context) (uses : List Use) (member : Member)

theorem isSome_record?_useAll :
    ((start.useAll uses).record? member).isSome = true ↔
      (start.record? member).isSome = true ∨ ToldOf uses member fun _ => True := by
  rw [useAll_eq_seeAll, isSome_record?_seeAll, ← exists_told_iff]
  simp only [mem_filter, decide_eq_true_eq, and_true]

theorem mem_assignments_useAll (i : Nat) :
    i ∈ ((start.useAll uses).record member).assignments ↔
      i ∈ (start.record member).assignments ∨ ToldOf uses member (·.assignment = i) := by
  rw [useAll_eq_seeAll, record_seeAll, DefinitionRecord.mem_assignments_addAll,
    exists_told_iff]

theorem mem_scripts_useAll (name : String) :
    name ∈ ((start.useAll uses).record member).scripts ↔
      name ∈ (start.record member).scripts ∨ ToldOf uses member (·.script = name) := by
  rw [useAll_eq_seeAll, record_seeAll, DefinitionRecord.mem_scripts_addAll, exists_told_iff]

theorem suppressed_useAll :
    ((start.useAll uses).record member).suppressed = true ↔
      (start.record member).suppressed = true ∨
        ToldOf uses member (start.options.duplicateSuppression ∈ ·.info.suppressions) := by
  rw [useAll_eq_seeAll, record_seeAll, DefinitionRecord.suppressed_addAll, exists_told_iff]

/-- A use that was made before tells of nothing new. -/
theorem use_useAll_of_mem {use : Use} (huse : use ∈ uses) :
    (start.useAll uses).use use = start.useAll uses := by
  rw [use_eq_seeAll, useAll_eq_seeAll]
  refine seeAll_of_knows fun x hx => ?_
  exact knows_seeAll (mem_flatMap.mpr ⟨use, huse, hx⟩)

/-- A run over what an earlier run left of its program tells of nothing new. -/
theorem use_useAll_of_left {program : Program} {annotations : Annotations}
    (huse : .process program annotations ∈ uses) (context : Context) :
    (start.useAll uses).use
        (.process (context.process program annotations).program annotations) =
      start.useAll uses := by
  rw [use_eq_seeAll, useAll_eq_seeAll]
  refine seeAll_of_knows fun x hx => ?_
  obtain ⟨a, ha, rfl⟩ := mem_map.mp hx
  have hbefore : a ∈ program.memberAssignments :=
    program.memberAssignments_process_subset annotations context ha
  exact knows_seeAll (mem_flatMap.mpr ⟨_, huse, mem_map_of_mem hbefore⟩)

end Context

/-! ## The context at every point -/

/-- What a context holds after some uses, and what it will do in later ones. Its records hold what
they held at first and what the uses told of, and they never shrink. Runs made before may be made
again without a trace. A member with two assignments is listed, and no run removes a definition of
it any more. -/
structure Context.Remembers (now start : Context) (uses : List Use) : Prop where
  options_eq : now.options = start.options
  recorded : ∀ member, (now.record? member).isSome = true ↔
    (start.record? member).isSome = true ∨ ToldOf uses member fun _ => True
  assignments : ∀ member i, i ∈ (now.record member).assignments ↔
    i ∈ (start.record member).assignments ∨ ToldOf uses member (·.assignment = i)
  scripts : ∀ member name, name ∈ (now.record member).scripts ↔
    name ∈ (start.record member).scripts ∨ ToldOf uses member (·.script = name)
  suppressed : ∀ member, (now.record member).suppressed = true ↔
    (start.record member).suppressed = true ∨
      ToldOf uses member (start.options.duplicateSuppression ∈ ·.info.suppressions)
  duplicates : ∀ member record, now.duplicates.get? member = some record ↔
    now.record? member = some record ∧ record.Duplicated
  grows : ∀ later member, (now.record member).Within ((now.useAll later).record member)
  again : ∀ use ∈ uses, now.use use = now
  again_left : ∀ program annotations, .process program annotations ∈ uses → ∀ context : Context,
    now.use (.process (context.process program annotations).program annotations) = now
  sole : ∀ (use : Use) (outcome : Outcome), use.run? now = some outcome →
    ∀ d ∈ outcome.report.removed, ¬ (outcome.context.record d.member).Duplicated
  guarded : ∀ member, (now.record member).Duplicated → ∀ (later : List Use) (use : Use)
    (outcome : Outcome), use.run? (now.useAll later) = some outcome →
      ∀ d ∈ outcome.report.removed, d.member ≠ member

/-- At every point of an invocation, whatever context it started with, the context remembers what it
was told of. -/
theorem Context.useAll_remembers (start : Context) (uses : List Use) :
    (start.useAll uses).Remembers start uses where
  options_eq := by
    rw [useAll_eq_seeAll, options_seeAll]
  recorded := start.isSome_record?_useAll uses
  assignments := start.mem_assignments_useAll uses
  scripts := start.mem_scripts_useAll uses
  suppressed := start.suppressed_useAll uses
  duplicates := by
    intro member record
    rw [get?_duplicates, Option.filter_eq_some_iff, decide_eq_true_eq,
      DefinitionRecord.one_lt_count_iff]
  grows := (start.useAll uses).within_useAll
  again := fun use huse => start.use_useAll_of_mem uses huse
  again_left := fun program annotations huse context => start.use_useAll_of_left uses huse context
  sole := fun use outcome hrun d hd => not_duplicated_of_removed hrun hd
  guarded := by
    intro member hduplicated later use outcome hrun d hd hmember
    have hlater : (((start.useAll uses).useAll later).record member).Duplicated :=
      hduplicated.of_within ((start.useAll uses).within_useAll later member)
    -- The run itself is one more use, after which the member is still duplicated.
    have hrecorded : (outcome.context.record member).Duplicated := by
      rw [context_of_run? hrun]
      exact hlater.of_within (within_useAll _ [use] member)
    exact not_duplicated_of_removed hrun hd (hmember ▸ hrecorded)

/-- Another assignment to `B.prototype.m`, noted before the run, keeps its definition. The override
of `C` still forwards to it and goes. -/
example :
    ((({} : Context).use (.note ⟨⟨"B", "m"⟩, 99, "c.js", {}⟩)).process Chain.program
      Chain.program.annotations).report.removed.map (·.member.owner) = ["C"] := by
  decide +kernel

end OverrideElision
