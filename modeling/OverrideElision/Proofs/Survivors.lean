import OverrideElision.Proofs.Deletion

/-! # What a run leaves alone

A removed definition is all there is of its member: no other assignment, no class and no link goes
with it. The hierarchy of the smaller program is therefore the old one without the members that lost
their definition. -/

namespace OverrideElision

open List

/-! ## Keeping some of the statements -/

namespace Program

variable {program : Program} {α : Type}

/-- The program with those of its statements that satisfy `p`. -/
def keep (program : Program) (p : Statement → Bool) : Program :=
  { program with
    scripts := program.scripts.map fun script =>
      { script with statements := script.statements.filter p } }

theorem flatMap_filter_eq {β : Type} {f : α → List β} {p : α → Bool} {q : β → Bool} {xs : List α}
    (h : ∀ x ∈ xs, ∀ y ∈ f x, q y = p x) :
    (xs.filter p).flatMap f = xs.flatMap fun x => (f x).filter q := by
  induction xs with
  | nil => rfl
  | cons x xs ih =>
    have hx := h x mem_cons_self
    have ih := ih fun y hy => h y (mem_cons_of_mem x hy)
    cases hp : p x with
    | true =>
      have hall : (f x).filter q = f x := filter_eq_self.mpr fun y hy => (hx y hy).trans hp
      rw [filter_cons_of_pos hp, flatMap_cons, flatMap_cons, ih, hall]
    | false =>
      have hnone : (f x).filter q = [] := by
        refine filter_eq_nil_iff.mpr fun y hy => ?_
        rw [hx y hy, hp]
        exact Bool.false_ne_true
      rw [filter_cons_of_neg (by simp [hp]), flatMap_cons, ih, hnone, nil_append]

/-- A view that tells from its entries whether their statement is kept is filtered by that. -/
theorem collect_keep {f : Script → Statement → List α} {p : Statement → Bool} {q : α → Bool}
    (hf : ∀ (script : Script) ss, f { script with statements := ss } = f script)
    (hq : ∀ script ∈ program.scripts, ∀ s ∈ script.statements, ∀ x ∈ f script s, q x = p s) :
    (program.keep p).collect f = (program.collect f).filter q := by
  simp only [collect, keep, flatMap_map, filter_flatMap, hf]
  exact flatMap_congr fun script hscript => flatMap_filter_eq (hq script hscript)

theorem collect_keep_sublist {f : Script → Statement → List α} (p : Statement → Bool)
    (hf : ∀ (script : Script) ss, f { script with statements := ss } = f script) :
    (program.keep p).collect f <+ program.collect f := by
  simp only [collect, keep, flatMap_map, hf]
  exact Sublist.flatMap_right _ fun script _ => Sublist.flatMap filter_sublist _

theorem Distinct.keep (h : program.Distinct) (p : Statement → Bool) :
    (program.keep p).Distinct := by
  have hstatements : (program.keep p).statements <+ program.statements := by
    rw [statements_eq_collect, statements_eq_collect]
    exact collect_keep_sublist p fun _ _ => rfl
  have hoccurrences : (program.keep p).occurrences <+ program.occurrences := by
    rw [occurrences_eq_collect, occurrences_eq_collect]
    exact collect_keep_sublist p fun _ _ => rfl
  exact ⟨(hstatements.map _).nodup h.statements, (hoccurrences.map _).nodup h.assignments⟩

end Program

/-! ## The hierarchy without some members -/

/-- The members whose definitions were removed. -/
def Report.lost (report : Report) : List Member :=
  report.removed.map (·.member)

namespace Hierarchy

/-- The hierarchy without all that concerns some members. -/
def without (hierarchy : Hierarchy) (lost : List Member) : Hierarchy :=
  { hierarchy with
    definitions := hierarchy.definitions.filter (¬ ·.member ∈ lost)
    assignments := hierarchy.assignments.filter (¬ ·.member ∈ lost) }

variable {hierarchy : Hierarchy} {lost : List Member} {member : Member}

theorem filter_of_lost {α : Type} {key : α → Member} (xs : List α) (hlost : member ∈ lost) :
    (xs.filter (¬ key · ∈ lost)).filter (key · = member) = [] := by
  refine filter_eq_nil_iff.mpr fun x hx hkey => ?_
  have hnot := of_decide_eq_true (mem_filter.mp hx).2
  exact hnot (of_decide_eq_true hkey ▸ hlost)

theorem filter_of_not_lost {α : Type} {key : α → Member} (xs : List α) (hkept : ¬ member ∈ lost) :
    (xs.filter (¬ key · ∈ lost)).filter (key · = member) = xs.filter (key · = member) := by
  rw [filter_filter]
  refine filter_congr fun x _ => ?_
  by_cases hkey : key x = member
  · simp [hkey, hkept]
  · simp [hkey]

theorem definitionsOf_without_of_lost (hlost : member ∈ lost) :
    (hierarchy.without lost).definitionsOf member = [] :=
  filter_of_lost hierarchy.definitions hlost

theorem definitionsOf_without (hkept : ¬ member ∈ lost) :
    (hierarchy.without lost).definitionsOf member = hierarchy.definitionsOf member :=
  filter_of_not_lost hierarchy.definitions hkept

theorem assignmentsTo_without_of_lost (hlost : member ∈ lost) :
    (hierarchy.without lost).assignmentsTo member = [] :=
  filter_of_lost hierarchy.assignments hlost

theorem assignmentsTo_without (hkept : ¬ member ∈ lost) :
    (hierarchy.without lost).assignmentsTo member = hierarchy.assignmentsTo member :=
  filter_of_not_lost hierarchy.assignments hkept

theorem ownMethod?_without_of_lost (hlost : member ∈ lost) :
    (hierarchy.without lost).ownMethod? member = none := by
  rw [ownMethod?, definitionsOf_without_of_lost hlost]

theorem ownMethod?_without (hkept : ¬ member ∈ lost) :
    (hierarchy.without lost).ownMethod? member = hierarchy.ownMethod? member := by
  rw [ownMethod?, ownMethod?, definitionsOf_without hkept, assignmentsTo_without hkept]

end Hierarchy

/-! ## The smaller program -/

namespace Program

variable {program : Program} {annotations : Annotations} {context : Context}

theorem Distinct.mem_removed_iff (h : program.Distinct) {d : MethodDefinition} :
    d ∈ (context.process program annotations).report.removed ↔
      d ∈ program.definitions ∧ program.elides annotations context d = true := by
  rw [h.removed_eq, mem_filter]

/-- A removed definition is the only assignment to its member, and holds no other one. -/
theorem Distinct.sole_of_removed (h : program.Distinct) {d : MethodDefinition}
    (hd : d ∈ (context.process program annotations).report.removed) :
    ∃ a, program.SoleDefinition d.statement d.member a d.function ∧
      d.statement.occurrences = [⟨a, d.statement⟩] := by
  obtain ⟨hmem, helides⟩ := h.mem_removed_iff.mp hd
  obtain ⟨_, a, ha⟩ := defines_of_mem hmem
  obtain ⟨hsole, _, _, _, _, hforwards, _⟩ := (h.elides_iff_redundant hmem).mp helides
  obtain ⟨rfl, rfl, rfl⟩ := ha.assignment_unique hsole.defines
  exact ⟨a, hsole, ha.occurrences_of_forwards hforwards⟩

/-- All assignments to a member with a sole definition are in the one statement. -/
theorem Distinct.statement_eq_of_sole (h : program.Distinct) {s t : Statement} {member : Member}
    {a : Assignment} {literal : FunctionLiteral} {o : Occurrence}
    (hsole : program.SoleDefinition s member a literal) (ht : t ∈ program.statements)
    (ho : o ∈ t.occurrences) (htarget : o.assignment.target.IsMember member) : t = s := by
  have hid := hsole.sole o (mem_occurrences.mpr ⟨t, ht, ho⟩) htarget
  exact h.statement_eq_of_occurs ht hsole.mem ho hsole.defines.mem_occurrences hid

/-- A statement that assigns to a member goes exactly when the member loses its definition. -/
theorem Distinct.removed_iff_lost (h : program.Distinct) {s : Statement} {o : Occurrence}
    {member : Member} (hs : s ∈ program.statements) (ho : o ∈ s.occurrences)
    (htarget : o.assignment.target.IsMember member) :
    s.id ∈ (context.process program annotations).report.removed.map (·.statement.id) ↔
      member ∈ (context.process program annotations).report.lost := by
  refine ⟨?_, ?_⟩
  · intro hid
    obtain ⟨d, hd, hid⟩ := mem_map.mp hid
    obtain ⟨a, hsole, hown⟩ := h.sole_of_removed hd
    obtain rfl := h.statement_eq hsole.mem hs hid
    rw [hown, mem_singleton] at ho
    subst ho
    exact mem_map.mpr ⟨d, hd, hsole.defines.target.unique htarget⟩
  · intro hlost
    obtain ⟨d, hd, rfl⟩ := mem_map.mp hlost
    obtain ⟨a, hsole, _⟩ := h.sole_of_removed hd
    obtain rfl := h.statement_eq_of_sole hsole hs ho htarget
    exact mem_map.mpr ⟨d, hd, rfl⟩

theorem Distinct.process_program (h : program.Distinct) :
    (context.process program annotations).program = program.keep fun s =>
      ¬ s.id ∈ (context.process program annotations).report.removed.map (·.statement.id) := by
  rw [h.coherent.process_program, Program.keep]
  congr 1
  refine map_congr_left fun script hscript => ?_
  congr 1
  refine filter_congr fun s hs => ?_
  rw [drops_eq_of_nodup h.statements _ hscript hs, decide_not]

theorem Distinct.process_distinct (h : program.Distinct) :
    (context.process program annotations).program.Distinct := by
  rw [h.process_program]
  exact h.keep _

theorem Distinct.process_definitions (h : program.Distinct) :
    (context.process program annotations).program.definitions =
      program.definitions.filter
        (¬ ·.member ∈ (context.process program annotations).report.lost) := by
  rw [h.process_program, definitions_eq_collect, definitions_eq_collect]
  refine collect_keep (fun _ _ => rfl) fun script hscript s hs d hd => ?_
  obtain ⟨⟨a, ha⟩, rfl, _, _⟩ := Script.definition?_eq_some_iff.mp (Option.mem_toList.mp hd)
  have hs : d.statement ∈ program.statements := mem_statements.mpr ⟨script, hscript, hs⟩
  simp only [h.removed_iff_lost hs ha.mem_occurrences ha.target]

theorem Distinct.process_memberAssignments (h : program.Distinct) :
    (context.process program annotations).program.memberAssignments =
      program.memberAssignments.filter
        (¬ ·.member ∈ (context.process program annotations).report.lost) := by
  rw [h.process_program, memberAssignments_eq_collect, memberAssignments_eq_collect]
  refine collect_keep (fun _ _ => rfl) fun script hscript s hs x hx => ?_
  obtain ⟨o, ho, htarget, _⟩ := Script.mem_memberAssignments.mp hx
  have hs : s ∈ program.statements := mem_statements.mpr ⟨script, hscript, hs⟩
  simp only [h.removed_iff_lost hs ho htarget]

/-- What is removed says nothing about classes. -/
theorem Distinct.process_classFacts (h : program.Distinct) :
    (context.process program annotations).program.classFacts annotations =
      program.classFacts annotations := by
  have hall : ∀ facts : List ClassFact, facts.filter (fun _ => true) = facts :=
    fun facts => filter_eq_self.mpr fun _ _ => rfl
  rw [h.process_program, classFacts_eq_collect, classFacts_eq_collect]
  refine (collect_keep (fun _ _ => rfl) fun script hscript s hs fact hfact => ?_).trans (hall _)
  symm
  rw [decide_eq_true_eq]
  intro hid
  obtain ⟨d, hd, hid⟩ := mem_map.mp hid
  obtain ⟨a, hsole, _⟩ := h.sole_of_removed hd
  obtain rfl := h.statement_eq hsole.mem (mem_statements.mpr ⟨script, hscript, hs⟩) hid
  rw [Annotations.classFact?_of_defines hsole.defines] at hfact
  cases hfact

/-- A run leaves the hierarchy as it is but for the members that it takes out. -/
theorem Distinct.process_hierarchy (h : program.Distinct) :
    (context.process program annotations).program.hierarchy annotations =
      (program.hierarchy annotations).without
        (context.process program annotations).report.lost := by
  rw [Program.hierarchy, h.process_definitions, h.process_memberAssignments, h.process_classFacts]
  rfl

/-- A member that lost its definition had a sole one. -/
theorem Distinct.mem_removed_of_lost (h : program.Distinct) {d : MethodDefinition}
    (hd : d ∈ program.definitions)
    (hlost : d.member ∈ (context.process program annotations).report.lost) :
    d ∈ (context.process program annotations).report.removed := by
  obtain ⟨hs, a, ha⟩ := defines_of_mem hd
  obtain ⟨e, he, hid⟩ :=
    mem_map.mp ((h.removed_iff_lost hs ha.mem_occurrences ha.target).mpr hlost)
  have hmem := (h.mem_removed_iff.mp he).1
  have hdecided : program.decided annotations = program.definitions := h.decided_eq
  rw [← hdecided] at hd hmem
  rwa [← h.coherent.decided_unique hmem hd hid]

end Program

end OverrideElision
