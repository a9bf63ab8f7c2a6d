import Mathlib.Data.List.Induction
import OverrideElision.Proofs.Members

/-! # Where a statement defines its method

A statement may stand in several places. It defines its method in the last script that holds it,
and when nothing is shared that is the script it stands in. -/

namespace OverrideElision

open List

/-- The script holds the statement at top level. -/
def Script.holds (script : Script) (s : Statement) : Bool :=
  script.statements.any (·.id = s.id)

namespace Program

/-- The last script that holds the statement at top level. -/
def lastScript? (program : Program) (s : Statement) : Option Script :=
  (program.scripts.filter (·.holds s)).getLast?

/-- Statements of one identity are one and the same statement. -/
def Coherent (program : Program) : Prop :=
  ∀ s ∈ program.statements, ∀ t ∈ program.statements, s.id = t.id → s = t

/-- When no statement is shared, statements are told apart by their identities. -/
theorem coherent_of_nodup {program : Program}
    (h : (program.statements.map Statement.id).Nodup) : program.Coherent :=
  fun _ hs _ ht hid => inj_on_of_nodup_map h hs ht hid

theorem Distinct.coherent {program : Program} (h : program.Distinct) : program.Coherent :=
  coherent_of_nodup h.statements

end Program

theorem Script.holds_iff {script : Script} {s : Statement} :
    script.holds s = true ↔ ∃ t ∈ script.statements, t.id = s.id := by
  simp only [holds, any_eq_true, decide_eq_true_eq]

/-- Within one script the last definition of a statement is the one that the script makes of it. -/
theorem Script.getLast?_definitions {script : Script} {s : Statement}
    (hsame : ∀ t ∈ script.statements, t.id = s.id → t = s) :
    ((script.statements.filterMap script.definition?).filter (·.statement.id = s.id)).getLast? =
      if script.holds s then script.definition? s else none := by
  cases hlast : ((script.statements.filterMap script.definition?).filter
      (·.statement.id = s.id)).getLast? with
  | none =>
    have hnone := filter_eq_nil_iff.mp (getLast?_eq_none_iff.mp hlast)
    by_cases hholds : script.holds s = true
    · rw [if_pos hholds]
      obtain ⟨t, ht, hid⟩ := Script.holds_iff.mp hholds
      obtain rfl := hsame t ht hid
      cases hd : script.definition? t with
      | none => rfl
      | some d =>
        have hstatement := (Script.definition?_eq_some_iff.mp hd).2.1
        have hnot := hnone d (mem_filterMap.mpr ⟨t, ht, hd⟩)
        exact absurd (by simp [hstatement]) hnot
    · rw [if_neg hholds]
  | some d =>
    obtain ⟨hd, hid⟩ := mem_filter.mp (mem_of_getLast? hlast)
    obtain ⟨t, ht, hd⟩ := mem_filterMap.mp hd
    have hstatement := (Script.definition?_eq_some_iff.mp hd).2.1
    have hid : t.id = s.id := by simpa [hstatement] using hid
    obtain rfl := hsame t ht hid
    rw [if_pos (Script.holds_iff.mpr ⟨t, ht, rfl⟩), hd]

theorem Script.definition?_of_method?_eq_none {s : Statement} (h : s.method? = none)
    (script : Script) : script.definition? s = none := by
  simp only [Script.definition?, h, Option.map_none]

/-- The induction is on the scripts from the last one backwards, as it is the last that counts. -/
theorem getLast?_definitions_of_scripts {scripts : List Script} {s : Statement}
    (hsame : ∀ script ∈ scripts, ∀ t ∈ script.statements, t.id = s.id → t = s) :
    ((scripts.flatMap fun script => script.statements.filterMap script.definition?).filter
      (·.statement.id = s.id)).getLast? =
      (scripts.filter (·.holds s)).getLast?.bind (·.definition? s) := by
  induction scripts using reverseRecOn with
  | nil => rfl
  | append_singleton scripts script ih =>
    have ih := ih fun other hother => hsame other (mem_append_left _ hother)
    have hscript := Script.getLast?_definitions (hsame script (by simp))
    rw [flatMap_append, filter_append, getLast?_append, flatMap_singleton, hscript, ih,
      filter_append, getLast?_append]
    cases hholds : script.holds s with
    | false => simp [hholds]
    | true =>
      cases hmethod : s.method? with
      | none => simp [hholds, Script.definition?_of_method?_eq_none hmethod]
      | some found => simp [hholds, Script.definition?, hmethod]

namespace Program

/-- A statement defines its method in the last script that holds it. -/
theorem Coherent.definitionOf?_eq {program : Program} (h : program.Coherent)
    {annotations : Annotations} {s : Statement} (hs : s ∈ program.statements) :
    (program.hierarchy annotations).definitionOf? s =
      (program.lastScript? s).bind (·.definition? s) := by
  refine getLast?_definitions_of_scripts fun script hscript t ht hid => ?_
  exact h t (mem_statements.mpr ⟨script, hscript, ht⟩) s hs hid

/-- When no statement is shared, the last script that holds a statement is the one it stands in. -/
theorem lastScript?_eq {program : Program} (h : (program.statements.map Statement.id).Nodup)
    {script : Script} {s : Statement} (hscript : script ∈ program.scripts)
    (hs : s ∈ script.statements) : program.lastScript? s = some script := by
  have hmem : script ∈ program.scripts.filter (·.holds s) :=
    mem_filter.mpr ⟨hscript, Script.holds_iff.mpr ⟨s, hs, rfl⟩⟩
  unfold lastScript?
  cases hlast : (program.scripts.filter (·.holds s)).getLast? with
  | none =>
    rw [getLast?_eq_none_iff.mp hlast] at hmem
    cases hmem
  | some other =>
    obtain ⟨hother, hholds⟩ := mem_filter.mp (mem_of_getLast? hlast)
    obtain ⟨t, ht, hid⟩ := Script.holds_iff.mp hholds
    rw [eq_of_nodup_flatMap h hscript hother hs ht hid.symm]

/-- When no statement is shared, a statement defines its method where it stands. -/
theorem definitionOf?_eq_of_nodup {program : Program}
    (h : (program.statements.map Statement.id).Nodup) {annotations : Annotations} {script : Script}
    {s : Statement} (hscript : script ∈ program.scripts) (hs : s ∈ script.statements) :
    (program.hierarchy annotations).definitionOf? s = script.definition? s := by
  rw [(coherent_of_nodup h).definitionOf?_eq (mem_statements.mpr ⟨script, hscript, hs⟩),
    lastScript?_eq h hscript hs]
  rfl

end Program

end OverrideElision
