import Mathlib.Data.List.TakeWhile
import Mathlib.Order.Bounds.Basic
import OverrideElision.Proofs.Doc.Braces

/-! # Where a type in braces ends

A type ends at the first position at which as many braces have been closed as opened. Until then
more of them are open than closed, so that counting the open ones is enough to find the end. -/

namespace OverrideElision.Doc

open List

/-! ## Counting open braces -/

/-- With `depth` braces open before the text, it never closes one that is not open. -/
def Fits (depth : Nat) (text : List Char) : Prop :=
  ∀ front, front <+: text → front.count '}' ≤ front.count '{' + depth

section

variable {depth : Nat} {text : List Char}

theorem fits_nil : Fits depth [] := by
  intro front hfront
  simp [prefix_nil.mp hfront]

theorem fits_cons_iff {c : Char} :
    Fits depth (c :: text) ↔
      ∀ front, front <+: text → (c :: front).count '}' ≤ (c :: front).count '{' + depth := by
  constructor
  · intro h front hfront
    exact h (c :: front) (cons_prefix_cons.mpr ⟨rfl, hfront⟩)
  · intro h front hfront
    rcases prefix_cons_iff.mp hfront with rfl | ⟨front, rfl, hfront⟩
    · simp
    · exact h front (cons_prefix_cons.mp hfront).2

theorem Fits.take (h : Fits depth text) (n : Nat) : Fits depth (text.take n) := by
  intro front hfront
  have htake : text.take n <+: text := take_prefix n text
  exact h front (hfront.trans htake)

theorem fits_open_iff : Fits depth ('{' :: text) ↔ Fits (depth + 1) text := by
  rw [fits_cons_iff]
  refine forall₂_congr fun front _ => ?_
  simp only [count_cons]
  simp
  omega

theorem not_fits_zero_close : ¬ Fits 0 ('}' :: text) := by
  intro h
  simpa using fits_cons_iff.mp h [] nil_prefix

theorem fits_succ_close_iff : Fits (depth + 1) ('}' :: text) ↔ Fits depth text := by
  rw [fits_cons_iff]
  refine forall₂_congr fun front _ => ?_
  simp [← Nat.add_assoc]

theorem fits_cons_iff_of_ne {c : Char} (hopen : c ≠ '{') (hclose : c ≠ '}') :
    Fits depth (c :: text) ↔ Fits depth text := by
  rw [fits_cons_iff]
  refine forall₂_congr fun front _ => ?_
  simp [hopen, hclose]

end

/-- A group closes at the first brace that closes more than is open. -/
theorem closeGroup_eq_some_iff {depth : Nat} {text inner after : List Char} :
    closeGroup depth text = some (inner, after) ↔
      text = inner ++ '}' :: after ∧ inner.count '}' = inner.count '{' + depth ∧
        Fits depth inner := by
  constructor
  · intro h
    refine ⟨append_of_closeGroup h, ?_⟩
    induction text generalizing depth inner with
    | nil => simp at h
    | cons c text ih =>
      by_cases hopen : c = '{'
      · subst hopen
        rw [closeGroup_open] at h
        obtain ⟨⟨inner, after⟩, hinner, heq⟩ := Option.map_eq_some_iff.mp h
        obtain ⟨rfl, rfl⟩ := Prod.mk.inj heq
        obtain ⟨hcount, hfits⟩ := ih hinner
        exact ⟨by simp; omega, fits_open_iff.mpr hfits⟩
      · by_cases hclose : c = '}'
        · subst hclose
          cases depth with
          | zero =>
            rw [closeGroup_zero_close] at h
            obtain ⟨rfl, rfl⟩ := Prod.mk.inj (Option.some.inj h)
            exact ⟨rfl, fits_nil⟩
          | succ depth =>
            rw [closeGroup_succ_close] at h
            obtain ⟨⟨inner, after⟩, hinner, heq⟩ := Option.map_eq_some_iff.mp h
            obtain ⟨rfl, rfl⟩ := Prod.mk.inj heq
            obtain ⟨hcount, hfits⟩ := ih hinner
            exact ⟨by simp; omega, fits_succ_close_iff.mpr hfits⟩
        · rw [closeGroup_cons _ _ hopen hclose] at h
          obtain ⟨⟨inner, after⟩, hinner, heq⟩ := Option.map_eq_some_iff.mp h
          obtain ⟨rfl, rfl⟩ := Prod.mk.inj heq
          obtain ⟨hcount, hfits⟩ := ih hinner
          exact ⟨by simpa [hopen, hclose] using hcount,
            (fits_cons_iff_of_ne hopen hclose).mpr hfits⟩
  · rintro ⟨rfl, hcount, hfits⟩
    have hdepth : depth + inner.count '{' - inner.count '}' = 0 := by omega
    rw [closeGroup_append _ hfits, hdepth]
    simp

theorem closeGroup_eq_none_iff {depth : Nat} {text : List Char} :
    closeGroup depth text = none ↔ Fits depth text := by
  induction text generalizing depth with
  | nil => simp [fits_nil]
  | cons c text ih =>
    by_cases hopen : c = '{'
    · subst hopen
      rw [closeGroup_open, Option.map_eq_none_iff, ih, fits_open_iff]
    · by_cases hclose : c = '}'
      · subst hclose
        cases depth with
        | zero => simp [not_fits_zero_close]
        | succ depth => rw [closeGroup_succ_close, Option.map_eq_none_iff, ih, fits_succ_close_iff]
      · rw [closeGroup_cons _ _ hopen hclose, Option.map_eq_none_iff, ih,
          fits_cons_iff_of_ne hopen hclose]

/-! ## Positions -/

/-- The first position from `start` on at which no gap stands, be it the end of the text. -/
def onset (text : List Char) (start : Nat) : Nat :=
  start + ((text.drop start).takeWhile isGap).length

theorem dropWhile_drop_eq (text : List Char) (start : Nat) :
    (text.drop start).dropWhile isGap = text.drop (onset text start) := by
  have hsplit : (text.drop start).takeWhile isGap ++ (text.drop start).dropWhile isGap =
      text.drop start := takeWhile_append_dropWhile
  have hdrop := congrArg (drop ((text.drop start).takeWhile isGap).length) hsplit
  rwa [drop_left, drop_drop] at hdrop

theorem isLeast_onset (text : List Char) (start : Nat) :
    IsLeast {i | start ≤ i ∧ ∀ c ∈ text[i]?, isGap c = false} (onset text start) := by
  constructor
  · refine ⟨Nat.le_add_right .., fun c hc => ?_⟩
    have hhead := head?_dropWhile_not isGap (text.drop start)
    rw [dropWhile_drop_eq, head?_drop, Option.mem_def.mp hc] at hhead
    exact hhead
  · rintro i ⟨hi, hstop⟩
    by_contra hlt
    have hindex : i - start < ((text.drop start).takeWhile isGap).length := by
      rw [onset] at hlt
      omega
    have hgaps : (text.drop start).takeWhile isGap <+: text.drop start :=
      takeWhile_prefix isGap
    have hget : text[i]? = some ((text.drop start).takeWhile isGap)[i - start] := by
      rw [hgaps.getElem hindex, ← getElem?_eq_getElem, getElem?_drop, Nat.add_sub_cancel' hi]
    have hgap : isGap ((text.drop start).takeWhile isGap)[i - start] = true :=
      mem_takeWhile_imp (getElem_mem hindex)
    rw [hstop _ hget] at hgap
    cases hgap

/-! ## The end of a group -/

/-- From `i` up to `stop`, further on, the text closes as many braces as it opens. -/
def EvensOut (text : List Char) (i stop : Nat) : Prop :=
  i < stop ∧ (text.extract i stop).count '}' = (text.extract i stop).count '{'

/-- From `i` up to `j` the text opens more braces than it closes. -/
def IsOpen (text : List Char) (i j : Nat) : Prop :=
  (text.extract i j).count '}' < (text.extract i j).count '{'

section

variable {text rest inner after : List Char} {i : Nat}

theorem extract_eq_cons (hdrop : text.drop i = '{' :: rest) {j : Nat} (h : i < j) :
    text.extract i j = '{' :: rest.take (j - i - 1) := by
  obtain ⟨n, hn⟩ := Nat.exists_eq_add_of_lt h
  have hlength : j - i = n + 1 := by omega
  rw [extract_eq_take_drop, hdrop, hlength, take_succ_cons, Nat.add_sub_cancel]

theorem isOpen_of_fits (hdrop : text.drop i = '{' :: rest) {j : Nat} (h : i < j)
    (hfits : Fits 0 (rest.take (j - i - 1))) : IsOpen text i j := by
  have hcount := hfits _ prefix_rfl
  rw [IsOpen, extract_eq_cons hdrop h]
  simp
  omega

/-- A group that never closes is open everywhere. -/
theorem not_evensOut_of_fits (hdrop : text.drop i = '{' :: rest) (hfits : Fits 0 rest)
    (stop : Nat) : ¬ EvensOut text i stop := by
  rintro ⟨hlt, heven⟩
  have hopen : IsOpen text i stop := isOpen_of_fits hdrop hlt (hfits.take _)
  exact Nat.ne_of_lt hopen heven

/-- A group is even after the brace that closes it. -/
theorem evensOut_of_close (hdrop : text.drop i = '{' :: (inner ++ '}' :: after))
    (hcount : inner.count '}' = inner.count '{') : EvensOut text i (i + inner.length + 2) := by
  have hlength : i + inner.length + 2 - i - 1 = inner.length + 1 := by omega
  have htake : (inner ++ '}' :: after).take (inner.length + 1) = inner ++ ['}'] := by
    rw [take_length_add_append]
    rfl
  refine ⟨by omega, ?_⟩
  rw [extract_eq_cons hdrop (by omega), hlength, htake]
  simp [hcount]

/-- A group is open up to the brace that closes it. -/
theorem isOpen_of_lt_close (hdrop : text.drop i = '{' :: (inner ++ '}' :: after))
    (hfits : Fits 0 inner) {j : Nat} (hi : i < j) (hj : j < i + inner.length + 2) :
    IsOpen text i j := by
  refine isOpen_of_fits hdrop hi ?_
  rw [take_append_of_le_length (by omega)]
  exact hfits.take _

/-- The text between the two braces of a group. -/
theorem extract_inner (hdrop : text.drop i = '{' :: (inner ++ '}' :: after)) :
    text.extract (i + 1) (i + inner.length + 2 - 1) = inner := by
  have hlength : i + inner.length + 2 - 1 - (i + 1) = inner.length := by omega
  rw [extract_eq_take_drop, ← drop_drop, hdrop, hlength, drop_succ_cons, drop_zero, take_left]

theorem isLeast_evensOut_iff (hdrop : text.drop i = '{' :: (inner ++ '}' :: after))
    (hcount : inner.count '}' = inner.count '{') (hfits : Fits 0 inner) {stop : Nat} :
    IsLeast {stop | EvensOut text i stop} stop ↔ stop = i + inner.length + 2 := by
  have hleast : IsLeast {stop | EvensOut text i stop} (i + inner.length + 2) := by
    refine ⟨evensOut_of_close hdrop hcount, fun j heven => ?_⟩
    by_contra hlt
    have hopen := isOpen_of_lt_close hdrop hfits heven.1 (Nat.not_le.mp hlt)
    exact Nat.ne_of_lt hopen heven.2
  constructor
  · exact fun h => h.unique hleast
  · rintro rfl
    exact hleast

end

/-! ## Reading a group -/

/-- `i` is the first position from `start` on at which no blank, tab or line feed stands. -/
def IsOnset (text : List Char) (start i : Nat) : Prop :=
  IsLeast {i | start ≤ i ∧ ∀ c ∈ text[i]?, isGap c = false} i

theorem isOnset_iff {text : List Char} {start i : Nat} :
    IsOnset text start i ↔ i = onset text start := by
  constructor
  · exact fun h => h.unique (isLeast_onset text start)
  · rintro rfl
    exact isLeast_onset text start

section

variable {text rest inner after : List Char} {start : Nat}

theorem bracedAt_of_closeGroup (hdrop : text.drop (onset text start) = '{' :: rest)
    (hclose : closeGroup 0 rest = some (inner, after)) :
    bracedAt text start = (Text.trim inner, onset text start + inner.length + 2) := by
  have hlength := congrArg length hdrop
  rw [append_of_closeGroup hclose] at hlength
  simp only [length_drop, length_cons, length_append] at hlength
  have hend : text.length - after.length = onset text start + inner.length + 2 := by omega
  simp [bracedAt, braced?, dropWhile_drop_eq, hdrop, hclose, hend]

theorem bracedAt_of_closeGroup_eq_none (hdrop : text.drop (onset text start) = '{' :: rest)
    (hclose : closeGroup 0 rest = none) : bracedAt text start = ([], start) := by
  simp [bracedAt, braced?, dropWhile_drop_eq, hdrop, hclose]

theorem bracedAt_of_no_brace (h : text[onset text start]? ≠ some '{') :
    bracedAt text start = ([], start) := by
  rw [← head?_drop] at h
  unfold bracedAt braced?
  rw [dropWhile_drop_eq]
  cases hdrop : text.drop (onset text start) with
  | nil => rfl
  | cons c rest =>
    have hbrace : c ≠ '{' := by simpa [hdrop] using h
    simp [hbrace]

end

/-- What is read from `start` on is the group that stands there. -/
structure ReadsGroup (text : List Char) (start : Nat) : Prop where
  onset : ∃ i, IsOnset text start i
  /-- A group that opens there and is evened out is read up to the first such end, before which it
  is open. -/
  group : ∀ i, IsOnset text start i → text[i]? = some '{' → (∃ stop, EvensOut text i stop) →
    ∃ stop ≤ text.length, (∀ e, IsLeast {e | EvensOut text i e} e ↔ e = stop) ∧
      (∀ j, i < j → j < stop → IsOpen text i j) ∧
        bracedAt text start = (Text.trim (text.extract (i + 1) (stop - 1)), stop)
  /-- In every other case nothing is read. -/
  nothing : ∀ i, IsOnset text start i →
    ¬ (text[i]? = some '{' ∧ ∃ stop, EvensOut text i stop) → bracedAt text start = ([], start)
  /-- A balanced type written in braces is read as it is. -/
  written : ∀ front gaps type after, start = front.length →
    text = front ++ gaps ++ inBraces type ++ after → (∀ c ∈ gaps, isGap c = true) →
      Balanced type → Text.IsTrimmed type →
        bracedAt text start = (type, (front ++ gaps ++ inBraces type).length)

theorem bracedAt_readsGroup (text : List Char) (start : Nat) : ReadsGroup text start where
  onset := ⟨_, isLeast_onset text start⟩
  group := by
    intro i hi hbrace heven
    obtain rfl := isOnset_iff.mp hi
    rw [← head?_drop] at hbrace
    obtain ⟨rest, hdrop⟩ := head?_eq_some_iff.mp hbrace
    cases hclose : closeGroup 0 rest with
    | none =>
      obtain ⟨stop, heven⟩ := heven
      exact absurd heven (not_evensOut_of_fits hdrop (closeGroup_eq_none_iff.mp hclose) stop)
    | some found =>
      obtain ⟨inner, after⟩ := found
      have hread := bracedAt_of_closeGroup hdrop hclose
      obtain ⟨rfl, hcount, hfits⟩ := closeGroup_eq_some_iff.mp hclose
      refine ⟨_, ?_, fun e => isLeast_evensOut_iff hdrop hcount hfits,
        fun j hj hlt => isOpen_of_lt_close hdrop hfits hj hlt, ?_⟩
      · have hlength := congrArg length hdrop
        simp only [length_drop, length_cons, length_append] at hlength
        omega
      · rw [hread, extract_inner hdrop]
  nothing := by
    intro i hi hnot
    obtain rfl := isOnset_iff.mp hi
    by_cases hbrace : text[Doc.onset text start]? = some '{'
    · have hnever : ∀ stop, ¬ EvensOut text (Doc.onset text start) stop :=
        fun stop heven => hnot ⟨hbrace, stop, heven⟩
      rw [← head?_drop] at hbrace
      obtain ⟨rest, hdrop⟩ := head?_eq_some_iff.mp hbrace
      cases hclose : closeGroup 0 rest with
      | none => exact bracedAt_of_closeGroup_eq_none hdrop hclose
      | some found =>
        obtain ⟨inner, after⟩ := found
        obtain ⟨rfl, hcount, _⟩ := closeGroup_eq_some_iff.mp hclose
        exact absurd (evensOut_of_close hdrop hcount) (hnever _)
    · exact bracedAt_of_no_brace hbrace
  written := by
    rintro front gaps type after rfl rfl hgaps hbalanced htrimmed
    have hbraced : braced? (gaps ++ inBraces type ++ after) = some (type, after) := by
      rw [hbalanced.braced?_append hgaps, Text.trim_of_isTrimmed htrimmed]
    have htext : front ++ gaps ++ inBraces type ++ after =
        front ++ (gaps ++ inBraces type ++ after) := by simp
    rw [htext, bracedAt, drop_left, hbraced]
    simp only [length_append, Prod.mk.injEq, true_and]
    omega

end OverrideElision.Doc
