import Mathlib.Data.List.Basic
import Mathlib.Data.List.Infix
import OverrideElision.Doc.Braces

/-! # Balanced types

A type in which every brace has its partner is read as a whole, whatever follows it. -/

namespace OverrideElision.Doc

open List

/-! ## Steps of a group -/

section

variable (depth : Nat) (rest : List Char)

@[simp]
theorem closeGroup_nil : closeGroup depth [] = none := rfl

@[simp]
theorem closeGroup_open :
    closeGroup depth ('{' :: rest) =
      (closeGroup (depth + 1) rest).map fun (inner, after) => ('{' :: inner, after) := by
  rw [closeGroup.eq_def]
  rfl

@[simp]
theorem closeGroup_zero_close : closeGroup 0 ('}' :: rest) = some ([], rest) := by
  rw [closeGroup.eq_def]
  rfl

@[simp]
theorem closeGroup_succ_close :
    closeGroup (depth + 1) ('}' :: rest) =
      (closeGroup depth rest).map fun (inner, after) => ('}' :: inner, after) := by
  rw [closeGroup.eq_def]
  rfl

theorem closeGroup_cons {c : Char} (hopen : c ≠ '{') (hclose : c ≠ '}') :
    closeGroup depth (c :: rest) =
      (closeGroup depth rest).map fun (inner, after) => (c :: inner, after) := by
  rw [closeGroup.eq_def]
  simp [hopen, hclose]

end

/-! ## Balanced texts -/

/-- Every brace that opens is closed, and none is closed before it is opened. -/
structure Balanced (text : List Char) : Prop where
  opened : ∀ front, front <+: text → front.count '}' ≤ front.count '{'
  closed : text.count '}' = text.count '{'

instance (text : List Char) : Decidable (Balanced text) :=
  decidable_of_iff
    ((∀ front ∈ text.inits, front.count '}' ≤ front.count '{') ∧ text.count '}' = text.count '{')
    ⟨fun ⟨opened, closed⟩ => ⟨fun front h => opened front ((mem_inits _ _).mpr h), closed⟩,
      fun h => ⟨fun front hfront => h.opened front ((mem_inits _ _).mp hfront), h.closed⟩⟩

theorem balanced_of_no_brace {text : List Char} (hopen : '{' ∉ text) (hclose : '}' ∉ text) :
    Balanced text where
  opened front hfront := by
    rw [count_eq_zero_of_not_mem fun h => hclose (hfront.subset h)]
    exact Nat.zero_le _
  closed := by rw [count_eq_zero_of_not_mem hopen, count_eq_zero_of_not_mem hclose]

/-- A text that closes no more braces than are open belongs to the group as a whole; after it, the
group has the depth that the text leaves. -/
theorem closeGroup_append {depth : Nat} {text : List Char} (rest : List Char)
    (h : ∀ front, front <+: text → front.count '}' ≤ front.count '{' + depth) :
    closeGroup depth (text ++ rest) =
      (closeGroup (depth + text.count '{' - text.count '}') rest).map
        fun (inner, after) => (text ++ inner, after) := by
  induction text generalizing depth with
  | nil => simp
  | cons c text ih =>
    have hstep : ∀ front, front <+: text →
        (c :: front).count '}' ≤ (c :: front).count '{' + depth := fun front hfront =>
      h (c :: front) (cons_prefix_cons.mpr ⟨rfl, hfront⟩)
    rw [cons_append]
    by_cases hopen : c = '{'
    · subst hopen
      have hfronts : ∀ front, front <+: text →
          front.count '}' ≤ front.count '{' + (depth + 1) := by
        intro front hfront
        have := hstep front hfront
        simp at this
        omega
      have hdepth : depth + 1 + text.count '{' = depth + (text.count '{' + 1) := by omega
      simp [ih hfronts, Function.comp_def, hdepth]
    · by_cases hclose : c = '}'
      · subst hclose
        cases depth with
        | zero => simpa using hstep [] nil_prefix
        | succ depth =>
          have hfronts : ∀ front, front <+: text →
              front.count '}' ≤ front.count '{' + depth := by
            intro front hfront
            have := hstep front hfront
            simp at this
            omega
          have hdepth : depth + 1 + text.count '{' - (text.count '}' + 1) =
              depth + text.count '{' - text.count '}' := by omega
          simp [ih hfronts, Function.comp_def, hdepth]
      · have hfronts : ∀ front, front <+: text →
            front.count '}' ≤ front.count '{' + depth := by
          intro front hfront
          simpa [hopen, hclose] using hstep front hfront
        rw [closeGroup_cons _ _ hopen hclose, ih hfronts]
        simp [hopen, hclose, Function.comp_def]

theorem Balanced.closeGroup_append {text : List Char} (h : Balanced text) (after : List Char) :
    closeGroup 0 (text ++ '}' :: after) = some (text, after) := by
  rw [Doc.closeGroup_append _ h.opened, h.closed]
  simp

/-- A text in braces. -/
def inBraces (text : List Char) : List Char := '{' :: text ++ ['}']

/-- A balanced type in braces is read whatever gaps stand before it and whatever follows it, without
white space around it. -/
theorem Balanced.braced?_append {type gaps : List Char} (h : Balanced type)
    (hgaps : ∀ c ∈ gaps, isGap c = true) (after : List Char) :
    Doc.braced? (gaps ++ inBraces type ++ after) = some (Text.trim type, after) := by
  have hbrace : isGap '{' = false := by decide
  simp [Doc.braced?, inBraces, dropWhile_append_of_pos hgaps, hbrace, h.closeGroup_append]

theorem Balanced.braced? {type : List Char} (h : Balanced type) (after : List Char) :
    braced? (' ' :: inBraces type ++ after) = some (Text.trim type, after) := by
  have hgap : ∀ c ∈ [' '], isGap c = true := by
    intro c hc
    rw [mem_singleton.mp hc]
    rfl
  exact h.braced?_append hgap after

end OverrideElision.Doc
