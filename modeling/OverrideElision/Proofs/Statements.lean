import Mathlib.Data.List.Basic
import Mathlib.Data.List.Flatten
import Mathlib.Data.List.Nodup
import Mathlib.Data.List.Pairwise
import OverrideElision.Tree.Program

/-! # The statements of a program

Everything a run reads is gathered statement by statement: `Program.collect` is that walk, and the
views of a program are instances of it. -/

namespace OverrideElision

open List

namespace Program

variable {α β : Type}

/-- What `f` gives for every top-level statement, script by script, in order. -/
def collect (program : Program) (f : Script → Statement → List α) : List α :=
  program.scripts.flatMap fun script => script.statements.flatMap (f script)

/-- The top-level statements. -/
def statements (program : Program) : List Statement :=
  program.scripts.flatMap Script.statements

/-- The assignments at any depth. -/
def occurrences (program : Program) : List Occurrence :=
  program.statements.flatMap Statement.occurrences

/-! ## The walk -/

theorem mem_collect {program : Program} {f : Script → Statement → List α} {x : α} :
    x ∈ program.collect f ↔
      ∃ script ∈ program.scripts, ∃ s ∈ script.statements, x ∈ f script s := by
  simp only [collect, mem_flatMap]

theorem collect_congr {program : Program} {f g : Script → Statement → List α}
    (h : ∀ script ∈ program.scripts, ∀ s ∈ script.statements, f script s = g script s) :
    program.collect f = program.collect g :=
  flatMap_congr fun script hscript => flatMap_congr (h script hscript)

theorem map_collect (program : Program) (f : Script → Statement → List α) (g : α → β) :
    (program.collect f).map g = program.collect fun script s => (f script s).map g := by
  simp only [collect, map_flatMap]

theorem filter_collect (program : Program) (f : Script → Statement → List α) (p : α → Bool) :
    (program.collect f).filter p = program.collect fun script s => (f script s).filter p := by
  simp only [collect, filter_flatMap]

theorem collect_sublist {program : Program} {f g : Script → Statement → List α}
    (h : ∀ script ∈ program.scripts, ∀ s ∈ script.statements, f script s <+ g script s) :
    program.collect f <+ program.collect g :=
  Sublist.flatMap_right _ fun script hscript => Sublist.flatMap_right _ (h script hscript)

/-! ## The views of a program -/

theorem statements_eq_collect (program : Program) :
    program.statements = program.collect fun _ s => [s] := by
  simp only [statements, collect, flatMap_singleton']

theorem occurrences_eq_collect (program : Program) :
    program.occurrences = program.collect fun _ s => s.occurrences := by
  simp only [occurrences, statements, collect, flatMap_assoc]

theorem definitions_eq_collect (program : Program) :
    program.definitions = program.collect fun script s => (script.definition? s).toList := by
  simp only [definitions, collect, filterMap_eq_flatMap_toList]

theorem memberAssignments_eq_collect (program : Program) :
    program.memberAssignments = program.collect Script.memberAssignments :=
  rfl

theorem mem_statements {program : Program} {s : Statement} :
    s ∈ program.statements ↔ ∃ script ∈ program.scripts, s ∈ script.statements :=
  mem_flatMap

theorem statements_sublist {program : Program} {script : Script}
    (hscript : script ∈ program.scripts) : script.statements <+ program.statements := by
  unfold statements
  rw [flatMap_def]
  exact sublist_flatten_of_mem (mem_map_of_mem hscript)

theorem mem_occurrences {program : Program} {o : Occurrence} :
    o ∈ program.occurrences ↔ ∃ s ∈ program.statements, o ∈ s.occurrences :=
  mem_flatMap

theorem mem_definitions {program : Program} {d : MethodDefinition} :
    d ∈ program.definitions ↔
      ∃ script ∈ program.scripts, ∃ s ∈ script.statements, script.definition? s = some d := by
  simp only [definitions_eq_collect, mem_collect, Option.mem_toList]

/-! ## Distinct nodes -/

/-- When all that a list of lists holds is distinct, an item is in one of the lists only. -/
theorem eq_of_nodup_flatMap {γ : Type} {f : α → List β} {key : β → γ} {xs : List α}
    (h : ((xs.flatMap f).map key).Nodup) {x y : α} {a b : β} (hx : x ∈ xs) (hy : y ∈ xs)
    (ha : a ∈ f x) (hb : b ∈ f y) (hkey : key a = key b) : x = y := by
  by_contra hne
  rw [map_flatMap, nodup_flatMap] at h
  have hsymm : Std.Symm (Function.onFun List.Disjoint fun x => (f x).map key) :=
    ⟨fun _ _ hdisjoint _ hleft hright => hdisjoint hright hleft⟩
  exact h.2.forall hx hy hne (mem_map_of_mem ha) (hkey ▸ mem_map_of_mem hb)

/-- No statement stands twice at top level, and no assignment stands twice at any depth. -/
structure Distinct (program : Program) : Prop where
  statements : (program.statements.map Statement.id).Nodup
  assignments : (program.occurrences.map (·.assignment.id)).Nodup

theorem Distinct.statement_eq {program : Program} (h : program.Distinct) {s t : Statement}
    (hs : s ∈ program.statements) (ht : t ∈ program.statements) (hid : s.id = t.id) : s = t :=
  inj_on_of_nodup_map h.statements hs ht hid

/-- An assignment stands in one top-level statement only. -/
theorem Distinct.statement_eq_of_occurs {program : Program} (h : program.Distinct)
    {s t : Statement} {o o' : Occurrence} (hs : s ∈ program.statements)
    (ht : t ∈ program.statements) (ho : o ∈ s.occurrences) (ho' : o' ∈ t.occurrences)
    (hid : o.assignment.id = o'.assignment.id) : s = t :=
  eq_of_nodup_flatMap h.assignments hs ht ho ho' hid

end Program

end OverrideElision
