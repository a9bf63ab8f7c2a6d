import OverrideElision.Proofs.Idempotence

/-! # Order and division of the code

What a run decides depends on the statements of a program only, not on their order nor on the
scripts that they are divided into. The class table keeps first values and the records list
assignments as they come; what is read from them is nevertheless the same. -/

namespace OverrideElision

open List

/-- Two programs hold the same statements, in any order and in any scripts. -/
def Program.Rearranges (p q : Program) : Prop :=
  ∀ s, s ∈ p.statements ↔ s ∈ q.statements

/-- The definition without its place. -/
def MethodDefinition.unplaced (d : MethodDefinition) : MethodDefinition :=
  { d with script := 0, scriptName := "" }

namespace Program

variable {p q program : Program} {annotations : Annotations} {context : Context}

/-! ## Views of a rearranged program -/

/-- A view that does not read the script is a view of the statements. -/
theorem collect_eq_flatMap {α : Type} {f : Script → Statement → List α} {g : Statement → List α}
    (h : ∀ script s, f script s = g s) : program.collect f = program.statements.flatMap g := by
  unfold collect statements
  rw [flatMap_assoc]
  refine flatMap_congr fun script _ => ?_
  exact flatMap_congr fun s _ => h script s

theorem definitions_unplaced (program : Program) :
    program.definitions.map MethodDefinition.unplaced =
      program.statements.flatMap fun s =>
        (s.method?.map fun (member, literal) => ⟨member, literal, s, 0, ""⟩).toList := by
  rw [definitions_eq_collect, map_collect]
  refine collect_eq_flatMap fun script s => ?_
  unfold Script.definition?
  cases s.method? <;> rfl

namespace Rearranges

theorem symm (h : p.Rearranges q) : q.Rearranges p :=
  fun s => (h s).symm

theorem perm (h : p.Rearranges q) (hp : p.Distinct) (hq : q.Distinct) :
    p.statements ~ q.statements :=
  (perm_ext_iff_of_nodup hp.statements.of_map hq.statements.of_map).mpr h

theorem mem_occurrences (h : p.Rearranges q) (o : Occurrence) :
    o ∈ p.occurrences ↔ o ∈ q.occurrences := by
  rw [Program.mem_occurrences, Program.mem_occurrences]
  exact exists_congr fun s => and_congr_left fun _ => h s

theorem mem_classFacts (h : p.Rearranges q) (fact : ClassFact) :
    fact ∈ p.classFacts annotations ↔ fact ∈ q.classFacts annotations := by
  rw [Program.mem_classFacts, Program.mem_classFacts]
  exact exists_congr fun s => and_congr_left fun _ => h s

theorem documentedTypes_eq (h : p.Rearranges q) (name : String) :
    p.documentedTypes annotations name = q.documentedTypes annotations name := by
  ext superType
  exact exists_congr fun s => and_congr_left fun _ => h s

theorem linkedBases_eq (h : p.Rearranges q) (name : String) :
    p.linkedBases annotations name = q.linkedBases annotations name := by
  ext base
  exact exists_congr fun s => and_congr_left fun _ => h s

theorem confirms_iff (h : p.Rearranges q) {name base : String} :
    p.Confirms annotations name base ↔ q.Confirms annotations name base := by
  rw [Program.confirms_iff, Program.confirms_iff, h.documentedTypes_eq, h.linkedBases_eq]

theorem soleDefinition (h : p.Rearranges q) {s : Statement} {member : Member} {a : Assignment}
    {literal : FunctionLiteral} (hsole : p.SoleDefinition s member a literal) :
    q.SoleDefinition s member a literal where
  mem := (h s).mp hsole.mem
  defines := hsole.defines
  sole := fun o ho => hsole.sole o ((h.mem_occurrences o).mpr ho)

theorem redundant (h : p.Rearranges q) {s : Statement}
    (hredundant : p.Redundant annotations context s) : q.Redundant annotations context s := by
  cases hredundant with
  | intro defines override unmarked unsuppressed unseen forwards confirmed leads inherits accepts
      value =>
    exact .intro (h.soleDefinition defines) override unmarked unsuppressed unseen forwards
      (h.confirms_iff.mp confirmed) leads (h.soleDefinition inherits) accepts value

theorem redundant_iff (h : p.Rearranges q) {s : Statement} :
    p.Redundant annotations context s ↔ q.Redundant annotations context s :=
  ⟨h.redundant, h.symm.redundant⟩

end Rearranges

/-! ## Classes -/

theorem Rearranges.mem_classes (h : p.Rearranges q) (name : String) :
    name ∈ (p.hierarchy annotations).table.classes.keys ↔
      name ∈ (q.hierarchy annotations).table.classes.keys := by
  change name ∈ (ClassTable.ofFacts _).classes.keys ↔ name ∈ (ClassTable.ofFacts _).classes.keys
  rw [ClassTable.mem_keys_ofFacts, ClassTable.mem_keys_ofFacts]
  exact exists_congr fun fact => and_congr_left fun _ => h.mem_classFacts fact

theorem Rearranges.immediateSuper?_eq (h : p.Rearranges q) (annotations : Annotations) :
    (p.hierarchy annotations).immediateSuper? = (q.hierarchy annotations).immediateSuper? := by
  funext name
  apply Option.ext
  intro base
  rw [immediateSuper?_iff_confirms, immediateSuper?_iff_confirms]
  exact h.confirms_iff

/-! ## Removed statements and candidates -/

theorem Distinct.mem_removed_statements (h : program.Distinct) {s : Statement} :
    s ∈ (context.process program annotations).report.removed.map (·.statement) ↔
      program.Redundant annotations context s := by
  constructor
  · intro hs
    obtain ⟨d, hd, rfl⟩ := mem_map.mp hs
    obtain ⟨hmem, helides⟩ := h.mem_removed_iff.mp hd
    exact (h.elides_iff_redundant hmem).mp helides
  · intro hredundant
    have hcopy := hredundant
    obtain ⟨hsole, _⟩ := hcopy
    obtain ⟨d, hd, rfl, _⟩ := exists_definition hsole.mem hsole.defines
    have helides := (h.elides_iff_redundant hd).mpr hredundant
    exact mem_map_of_mem (h.mem_removed_iff.mpr ⟨hd, helides⟩)

theorem Distinct.mem_left_iff (h : program.Distinct) {s : Statement} :
    s ∈ (context.process program annotations).program.statements ↔
      s ∈ program.statements ∧ ¬ program.Redundant annotations context s := by
  rw [h.coherent.statements_process h.statements, mem_filter, decide_eq_true_eq]
  refine and_congr_right fun hs => not_congr ?_
  rw [← h.mem_removed_statements]
  constructor
  · intro hid
    obtain ⟨d, hd, hid⟩ := mem_map.mp hid
    have hstatement := (defines_of_mem (h.mem_removed_iff.mp hd).1).1
    exact mem_map.mpr ⟨d, hd, h.statement_eq hstatement hs hid⟩
  · intro hmem
    obtain ⟨d, hd, rfl⟩ := mem_map.mp hmem
    exact mem_map_of_mem hd

/-- The candidates are counted without their places. -/
theorem Distinct.candidates_eq_countP_unplaced (h : program.Distinct) :
    (context.process program annotations).report.candidates =
      (program.definitions.map MethodDefinition.unplaced).countP fun d =>
        (d.override? (annotations.info d.statement)).isSome := by
  rw [h.candidates_eq_countP, countP_map]
  rfl

theorem Rearranges.candidates_eq (h : p.Rearranges q) (hp : p.Distinct) (hq : q.Distinct) :
    (context.process p annotations).report.candidates =
      (context.process q annotations).report.candidates := by
  rw [hp.candidates_eq_countP_unplaced, hq.candidates_eq_countP_unplaced, definitions_unplaced,
    definitions_unplaced]
  exact ((h.perm hp hq).flatMap_right _).countP_eq _

/-! ## Records -/

theorem suppressed_noted {member : Member} :
    ((program.noted annotations context).record member).suppressed = true ↔
      (context.record member).suppressed = true ∨ ∃ o ∈ program.occurrences,
        o.assignment.target.IsMember member ∧
          context.options.duplicateSuppression ∈ (annotations.info o.enclosing).suppressions := by
  rw [record_noted, DefinitionRecord.suppressed_addAll]
  exact or_congr_right (exists_sighting_iff
    (p := fun _ info => context.options.duplicateSuppression ∈ info.suppressions))

theorem Rearranges.count_eq (h : p.Rearranges q) (member : Member) :
    ((p.noted annotations context).record member).count =
      ((q.noted annotations context).record member).count := by
  apply DefinitionRecord.count_eq_of_mem_iff
  intro i
  rw [← Context.seen_eq, ← Context.seen_eq, seen_noted, seen_noted]
  refine or_congr_right ?_
  exact exists_congr fun o => and_congr_left fun _ => h.mem_occurrences o

theorem Rearranges.suppressed_eq (h : p.Rearranges q) (member : Member) :
    ((p.noted annotations context).record member).suppressed =
      ((q.noted annotations context).record member).suppressed := by
  rw [Bool.eq_iff_iff, suppressed_noted, suppressed_noted]
  refine or_congr_right ?_
  exact exists_congr fun o => and_congr_left fun _ => h.mem_occurrences o

end Program

/-- A duplicated member is listed with the count and the mark of its record. -/
theorem Context.map_get?_duplicates (context : Context) (member : Member) :
    (context.duplicates.get? member).map (fun record => (record.count, record.suppressed)) =
      if 1 < (context.record member).count then
        some ((context.record member).count, (context.record member).suppressed)
      else none := by
  rw [get?_duplicates, record]
  cases context.record? member with
  | none => rfl
  | some record =>
    simp only [Option.filter_some, Option.getD_some, decide_eq_true_eq]
    split <;> rfl

/-! ## Findings -/

/-- Two runs find the same: they remove the same statements and leave the same ones, among as many
candidates, and report the same classes and the same duplicates, equally often seen and marked. -/
structure Outcome.SameFindings (first second : Outcome) : Prop where
  removed : ∀ s, s ∈ first.report.removed.map (·.statement) ↔
    s ∈ second.report.removed.map (·.statement)
  left : first.program.Rearranges second.program
  candidates : first.report.candidates = second.report.candidates
  classes : ∀ name, name ∈ first.report.classes.keys ↔ name ∈ second.report.classes.keys
  duplicates : ∀ member,
    (first.report.duplicates.get? member).map (fun record => (record.count, record.suppressed)) =
      (second.report.duplicates.get? member).map fun record => (record.count, record.suppressed)

/-- Rearranging a program changes neither its confirmed superclasses nor what a run finds, if both
runs start from the same context, such as a fresh one. -/
theorem Program.Rearranges.process_sameFindings {p q : Program} (h : p.Rearranges q)
    (hp : p.Distinct) (hq : q.Distinct) (annotations : Annotations) (context : Context) :
    (p.hierarchy annotations).immediateSuper? = (q.hierarchy annotations).immediateSuper? ∧
      (context.process p annotations).SameFindings (context.process q annotations) := by
  refine ⟨h.immediateSuper?_eq annotations, ?_, ?_, h.candidates_eq hp hq, h.mem_classes, ?_⟩
  · intro s
    rw [hp.mem_removed_statements, hq.mem_removed_statements, h.redundant_iff]
  · intro s
    rw [hp.mem_left_iff, hq.mem_left_iff, h.redundant_iff, h s]
  · intro member
    change ((p.noted annotations context).duplicates.get? member).map _ =
      ((q.noted annotations context).duplicates.get? member).map _
    rw [Context.map_get?_duplicates, Context.map_get?_duplicates, h.count_eq, h.suppressed_eq]

/-! ## The chain, backwards -/

namespace Chain

/-- The chain in one script and in the opposite order, so that overrides and links come before the
classes that they are about. -/
def backwards : Program :=
  { program with scripts := [⟨0, "all.js", program.statements.reverse⟩] }

theorem backwards_distinct : backwards.Distinct := by
  refine ⟨?_, ?_⟩
  · decide +kernel
  · decide +kernel

theorem rearranges_backwards : program.Rearranges backwards := by
  intro s
  simp [backwards, Program.statements]

theorem backwards_sameFindings :
    program.Rearranges backwards ∧ program.Distinct ∧ backwards.Distinct ∧
      (({} : Context).process program program.annotations).SameFindings
        (({} : Context).process backwards program.annotations) ∧
      (({} : Context).process backwards program.annotations).report.removed.map
        (·.statement.id) = [9, 5] := by
  refine ⟨rearranges_backwards, distinct, backwards_distinct,
    (rearranges_backwards.process_sameFindings distinct backwards_distinct _ {}).2, ?_⟩
  decide +kernel

end Chain

end OverrideElision
