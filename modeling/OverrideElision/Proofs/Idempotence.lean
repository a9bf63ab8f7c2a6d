import Mathlib.Data.List.Perm.Basic
import OverrideElision.Proofs.Survivors

/-! # A second run

Whatever kept a definition in one run keeps it in the next: the superclasses are the same, the
records agree on every member that is left, and a member of a superclass has at most lost its
definition. -/

namespace OverrideElision

open List

/-! ## Reasons stay reasons -/

namespace Hierarchy

variable {hierarchy : Hierarchy} {lost : List Member}

theorem ownMethod?_of_without {member : Member} {e : MethodDefinition}
    (h : (hierarchy.without lost).ownMethod? member = some e) :
    hierarchy.ownMethod? member = some e := by
  by_cases hlost : member ∈ lost
  · rw [ownMethod?_without_of_lost hlost] at h
    cases h
  · rwa [ownMethod?_without hlost] at h

/-- A definition that nothing keeps once members are taken out is kept by nothing before. -/
theorem keepReason?_of_without {annotations : Annotations} {context next : Context}
    {d : MethodDefinition} {call : ForwardingCall} (hoptions : next.options = context.options)
    (hduplicated : next.isDuplicated d.member = context.isDuplicated d.member)
    (h : (hierarchy.without lost).keepReason? annotations next d call = none) :
    hierarchy.keepReason? annotations context d call = none := by
  rw [keepReason?_eq_none_iff] at h ⊢
  obtain ⟨hreason, superclass, hsuper, hleads, e, hown, hmethod⟩ := h
  refine ⟨?_, superclass, hsuper, hleads, e, ownMethod?_of_without hown, hmethod⟩
  rw [MethodDefinition.ownReason?_eq_none_iff] at hreason ⊢
  rwa [hoptions, hduplicated] at hreason

end Hierarchy

/-! ## Contexts that agree -/

namespace Context

/-- The contexts of two runs agree on the members that the first one leaves. -/
structure Agrees (noted next : Context) (lost : List Member) : Prop where
  options : next.options = noted.options
  isDuplicated : ∀ member, ¬ member ∈ lost →
    next.isDuplicated member = noted.isDuplicated member

variable {noted next : Context} {lost : List Member}

theorem Agrees.of_eq (h : next = noted) : Agrees noted next lost := by
  refine ⟨by rw [h], fun member _ => by rw [h]⟩

theorem Agrees.of_entries (hoptions : next.options = noted.options)
    (hentries : next.records.entries = noted.records.entries.filter (¬ ·.1 ∈ lost)) :
    Agrees noted next lost := by
  refine ⟨hoptions, ?_⟩
  intro member hkept
  have hrecord : next.record? member = noted.record? member :=
    Table.get?_of_entries_filter (p := (¬ · ∈ lost)) hentries (decide_eq_true hkept)
  rw [Context.isDuplicated, Context.isDuplicated, hrecord]

/-- Members without duplicates make no difference to the duplicates. -/
theorem duplicates_of_entries
    (hentries : next.records.entries = noted.records.entries.filter (¬ ·.1 ∈ lost))
    (hlost : ∀ member ∈ lost, noted.isDuplicated member = false) :
    next.duplicates = noted.duplicates := by
  refine Table.ext ?_
  change next.records.entries.filter _ = noted.records.entries.filter _
  rw [hentries, filter_filter]
  refine filter_congr fun entry hentry => ?_
  obtain ⟨member, record⟩ := entry
  by_cases hmember : member ∈ lost
  · have hrecord : noted.record? member = some record := Table.mem_entries_iff.mp hentry
    have hsingle : decide (1 < record.count) = false := by
      simpa [Context.isDuplicated, hrecord] using hlost member hmember
    simp only [hsingle, Bool.false_and]
  · simp only [hmember, not_false_eq_true, decide_true, Bool.and_true]

end Context

/-! ## Nothing more to remove -/

namespace Program

variable {program : Program} {annotations : Annotations} {context : Context}

theorem Distinct.elides_of_process (h : program.Distinct) {next : Context} {d : MethodDefinition}
    (hagrees : Context.Agrees (program.noted annotations context)
      ((context.process program annotations).program.noted annotations next)
      (context.process program annotations).report.lost)
    (hkept : ¬ d.member ∈ (context.process program annotations).report.lost)
    (helides : (context.process program annotations).program.elides annotations next d = true) :
    program.elides annotations context d = true := by
  rw [elides_iff, h.process_hierarchy] at helides
  obtain ⟨call, hcall, hreason⟩ := helides
  refine elides_iff.mpr ⟨call, hcall, ?_⟩
  exact Hierarchy.keepReason?_of_without hagrees.options (hagrees.isDuplicated _ hkept) hreason

/-- With contexts that agree, a second run removes nothing. -/
theorem Distinct.removed_process (h : program.Distinct) {next : Context}
    (hagrees : Context.Agrees (program.noted annotations context)
      ((context.process program annotations).program.noted annotations next)
      (context.process program annotations).report.lost) :
    (next.process (context.process program annotations).program annotations).report.removed =
      [] := by
  have hafter : (context.process program annotations).program.Distinct := h.process_distinct
  rw [hafter.removed_eq, h.process_definitions]
  refine filter_eq_nil_iff.mpr fun d hd helides => ?_
  obtain ⟨hmem, hkept⟩ := mem_filter.mp hd
  have hkept := of_decide_eq_true hkept
  have hremoved := h.mem_removed_iff.mpr ⟨hmem, h.elides_of_process hagrees hkept helides⟩
  exact hkept (mem_map_of_mem hremoved)

theorem process_program_of_removed_nil
    (h : (context.process program annotations).report.removed = []) :
    (context.process program annotations).program = program := by
  rw [process_program, h]
  rfl

/-! ## Candidates -/

theorem Distinct.candidates_eq_countP (h : program.Distinct) :
    (context.process program annotations).report.candidates =
      program.definitions.countP fun d =>
        (d.override? (annotations.info d.statement)).isSome := by
  change (program.candidates (program.hierarchy annotations) annotations).length = _
  rw [candidates_eq, h.decided_eq, length_filterMap_eq_countP]
  refine countP_congr fun d _ => ?_
  rw [Option.isSome_map]

theorem Distinct.removed_eq_filter_lost (h : program.Distinct) :
    (context.process program annotations).report.removed =
      program.definitions.filter
        (·.member ∈ (context.process program annotations).report.lost) := by
  rw [h.removed_eq]
  refine filter_congr fun d hd => Bool.eq_iff_iff.mpr ?_
  rw [decide_eq_true_eq]
  refine ⟨?_, ?_⟩
  · intro helides
    exact mem_map_of_mem (h.mem_removed_iff.mpr ⟨hd, helides⟩)
  · intro hlost
    exact (h.mem_removed_iff.mp (h.mem_removed_of_lost hd hlost)).2

/-- Every removed definition was a candidate, and the other candidates still are. -/
theorem Distinct.candidates_process (h : program.Distinct) (next : Context) :
    (next.process (context.process program annotations).program annotations).report.candidates +
        (context.process program annotations).report.removed.length =
      (context.process program annotations).report.candidates := by
  have hall : (context.process program annotations).report.removed.countP
      (fun d => (d.override? (annotations.info d.statement)).isSome) =
        (context.process program annotations).report.removed.length := by
    refine countP_eq_length.mpr fun d hd => ?_
    obtain ⟨call, hcall, _⟩ := elides_iff.mp (h.mem_removed_iff.mp hd).2
    rw [hcall]
    rfl
  have hafter : (context.process program annotations).program.Distinct := h.process_distinct
  rw [hafter.candidates_eq_countP, h.candidates_eq_countP, h.process_definitions, ← hall,
    h.removed_eq_filter_lost, countP_eq_countP_filter_add program.definitions _
      (·.member ∈ (context.process program annotations).report.lost), Nat.add_comm]
  simp only [decide_not]

/-! ## Records -/

theorem isDuplicated_of_lost {member : Member}
    (hlost : member ∈ (context.process program annotations).report.lost) :
    (program.noted annotations context).isDuplicated member = false := by
  obtain ⟨d, hd, rfl⟩ := mem_map.mp hlost
  exact isDuplicated_of_removed hd

/-- A context that has seen the program learns nothing from what is left of it. -/
theorem Distinct.noted_again (h : program.Distinct) (annotations : Annotations)
    (context : Context) :
    (context.process program annotations).program.noted annotations
        (program.noted annotations context) = program.noted annotations context := by
  rw [noted, h.process_memberAssignments]
  refine Context.noteAll_of_holds fun a ha => ?_
  exact Context.holds_noteAll (mem_of_mem_filter ha)

/-- A fresh context comes to the same records, but for the members that lost their definition. -/
theorem Distinct.entries_noted_fresh (h : program.Distinct) (annotations : Annotations)
    (options : Options) :
    ((({ options } : Context).process program annotations).program.noted annotations
        { options }).records.entries =
      (program.noted annotations { options }).records.entries.filter
        (¬ ·.1 ∈ (({ options } : Context).process program annotations).report.lost) := by
  have hempty : ({ options } : Context).records.entries =
      ({ options } : Context).records.entries.filter
        (¬ ·.1 ∈ (({ options } : Context).process program annotations).report.lost) := rfl
  rw [noted, h.process_memberAssignments]
  exact Context.entries_noteAll_filter
    (p := (¬ · ∈ (({ options } : Context).process program annotations).report.lost)) rfl hempty _

end Program

/-! ## Idempotence -/

/-- The second run finds the program settled by the first one: it changes nothing and reports the
same, less what the first one removed. -/
structure Outcome.Settled (second first : Outcome) : Prop where
  removed_eq : second.report.removed = []
  program_eq : second.program = first.program
  classes_eq : second.report.classes = first.report.classes
  duplicates_eq : second.report.duplicates = first.report.duplicates
  candidates_eq :
    second.report.candidates + first.report.removed.length = first.report.candidates

theorem Program.Distinct.settled_of_agrees {program : Program} (h : program.Distinct)
    {annotations : Annotations} {context next : Context}
    (hagrees : Context.Agrees (program.noted annotations context)
      ((context.process program annotations).program.noted annotations next)
      (context.process program annotations).report.lost)
    (hduplicates : ((context.process program annotations).program.noted annotations
      next).duplicates = (program.noted annotations context).duplicates) :
    (next.process (context.process program annotations).program annotations).Settled
      (context.process program annotations) := by
  have hremoved := h.removed_process hagrees
  refine ⟨hremoved, process_program_of_removed_nil hremoved, ?_, hduplicates,
    h.candidates_process next⟩
  change ((context.process program annotations).program.hierarchy annotations).table.classes =
    (program.hierarchy annotations).table.classes
  rw [h.process_hierarchy]
  rfl

/-- A second run settles, with the context of the first one, whatever it was, or with a fresh one
for each. -/
theorem Program.Distinct.process_settled {program : Program} (h : program.Distinct)
    (annotations : Annotations) :
    (∀ context : Context,
      ((context.process program annotations).context.process
        (context.process program annotations).program annotations).Settled
          (context.process program annotations)) ∧
    ∀ options : Options,
      (({ options } : Context).process
        (({ options } : Context).process program annotations).program annotations).Settled
          (({ options } : Context).process program annotations) := by
  refine ⟨?_, ?_⟩
  · intro context
    have hnoted := h.noted_again annotations context
    exact h.settled_of_agrees (.of_eq hnoted) (congrArg Context.duplicates hnoted)
  · intro options
    have hentries := h.entries_noted_fresh annotations options
    refine h.settled_of_agrees (.of_entries ?_ hentries) (Context.duplicates_of_entries hentries ?_)
    · exact (Context.options_noteAll _).trans (Context.options_noteAll _).symm
    · intro member hlost
      exact isDuplicated_of_lost hlost

theorem Chain.settled :
    program.Distinct ∧
      ((({} : Context).process program program.annotations).context.process
        (({} : Context).process program program.annotations).program program.annotations).Settled
          (({} : Context).process program program.annotations) ∧
      (({} : Context).process program program.annotations).report.candidates = 2 := by
  refine ⟨distinct, (distinct.process_settled program.annotations).1 {}, ?_⟩
  decide +kernel

end OverrideElision
