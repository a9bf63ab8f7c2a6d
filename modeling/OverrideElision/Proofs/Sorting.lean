import Mathlib.Data.List.Basic
import OverrideElision.Tree.Reference

/-! # Listings sorted by a key

Things with different keys are listed in strictly increasing order of their keys. Keys are strings,
compared code point by code point, or members, compared by owner and then by name. -/

namespace OverrideElision

open List

section

variable {α κ : Type} {xs : List α} (key : α → κ)

/-- Sorting by a key leaves no two things in the wrong order, or with the same key. -/
theorem pairwise_mergeSort_key {le : κ → κ → Bool}
    (htrans : ∀ a b c, le a b = true → le b c = true → le a c = true)
    (htotal : ∀ a b, (le a b || le b a) = true) (h : (xs.map key).Nodup) :
    (xs.mergeSort fun a b => le (key a) (key b)).Pairwise fun a b =>
      le (key a) (key b) = true ∧ key a ≠ key b := by
  have hsorted := pairwise_mergeSort (fun a b c => htrans (key a) (key b) (key c))
    (fun a b => htotal (key a) (key b)) xs
  have hperm := (xs.mergeSort_perm fun a b => le (key a) (key b)).map key
  exact hsorted.and (pairwise_map.mp (hperm.nodup_iff.mpr h))

end

/-- Things whose names differ are listed by name in strictly increasing order. -/
theorem pairwise_mergeSort_name {α : Type} {xs : List α} (name : α → String)
    (h : (xs.map name).Nodup) :
    (xs.mergeSort fun a b => name a ≤ name b).Pairwise fun a b => name a < name b := by
  have htrans (a b c : String) (hab : decide (a ≤ b) = true) (hbc : decide (b ≤ c) = true) :
      decide (a ≤ c) = true :=
    decide_eq_true (String.le_trans (of_decide_eq_true hab) (of_decide_eq_true hbc))
  have htotal (a b : String) : (decide (a ≤ b) || decide (b ≤ a)) = true := by
    rw [Bool.or_eq_true, decide_eq_true_eq, decide_eq_true_eq]
    exact String.le_total a b
  exact (pairwise_mergeSort_key name htrans htotal h).imp fun ⟨hle, hne⟩ =>
    Std.lt_of_le_of_ne (of_decide_eq_true hle) hne

namespace Member

/-- The member comes before the other one, by owner and then by name. -/
def Before (a b : Member) : Prop :=
  a.owner < b.owner ∨ a.owner = b.owner ∧ a.name < b.name

theorem le_iff {a b : Member} : a.le b = true ↔
    a.owner < b.owner ∨ a.owner = b.owner ∧ a.name ≤ b.name := by
  simp [le]

theorem le_trans (a b c : Member) (hab : a.le b = true) (hbc : b.le c = true) :
    a.le c = true := by
  rw [le_iff] at *
  rcases hab with hab | ⟨hab, hab'⟩ <;> rcases hbc with hbc | ⟨hbc, hbc'⟩
  · exact .inl (String.lt_trans hab hbc)
  · exact .inl (hbc ▸ hab)
  · exact .inl (hab ▸ hbc)
  · exact .inr ⟨hab.trans hbc, String.le_trans hab' hbc'⟩

theorem le_total (a b : Member) : (a.le b || b.le a) = true := by
  rw [Bool.or_eq_true, le_iff, le_iff]
  rcases Std.lt_trichotomy a.owner b.owner with h | h | h
  · exact .inl (.inl h)
  · exact (String.le_total a.name b.name).imp (.inr ⟨h, ·⟩) (.inr ⟨h.symm, ·⟩)
  · exact .inr (.inl h)

theorem before_of_le_of_ne {a b : Member} (hle : a.le b = true) (hne : a ≠ b) : a.Before b := by
  rcases le_iff.mp hle with h | ⟨howner, hname⟩
  · exact .inl h
  · refine .inr ⟨howner, Std.lt_of_le_of_ne hname fun h => hne ?_⟩
    cases a; cases b
    simp_all

theorem Before.irrefl (a : Member) : ¬ a.Before a := by
  rintro (h | ⟨_, h⟩) <;> exact String.lt_irrefl _ h

theorem Before.asymm {a b : Member} (hab : a.Before b) (hba : b.Before a) : False := by
  rcases hab with hab | ⟨hab, hab'⟩ <;> rcases hba with hba | ⟨hba, hba'⟩
  · exact String.lt_irrefl _ (String.lt_trans hab hba)
  · exact String.lt_irrefl _ (hba ▸ hab)
  · exact String.lt_irrefl _ (hab ▸ hba)
  · exact String.lt_irrefl _ (String.lt_trans hab' hba')

end Member

end OverrideElision
