/-! # White space

The characters that count as white space in comment text, and trimming by them. Besides the blanks
of ASCII these are the information separators, U+0085 and the Unicode space and line separators;
a zero-width space and a byte-order mark are not among them. -/

namespace OverrideElision.Text

/-- White space: tab to carriage return, the four information separators, the space, and the
Unicode characters whose only function is to separate. -/
def isBlank (c : Char) : Bool :=
  let n := c.toNat
  (9 ≤ n && n ≤ 13) || (28 ≤ n && n ≤ 32) || n == 0x85 || n == 0xA0 || n == 0x1680 ||
    (0x2000 ≤ n && n ≤ 0x200A) || n == 0x2028 || n == 0x2029 || n == 0x202F || n == 0x205F ||
    n == 0x3000

/-- The text without the white space it starts with. -/
def trimLeft (text : List Char) : List Char :=
  text.dropWhile isBlank

/-- The text without the white space it starts or ends with. -/
def trim (text : List Char) : List Char :=
  ((trimLeft text).reverse.dropWhile isBlank).reverse

/-- A text is trimmed when it neither starts nor ends with white space. -/
def IsTrimmed (text : List Char) : Prop :=
  (∀ c ∈ text.head?, isBlank c = false) ∧ (∀ c ∈ text.getLast?, isBlank c = false)

theorem trim_of_isTrimmed {text : List Char} (h : IsTrimmed text) : trim text = text := by
  obtain ⟨hfirst, hlast⟩ := h
  have hl : trimLeft text = text := by
    cases text with
    | nil => rfl
    | cons c rest => simp [trimLeft, List.dropWhile, hfirst c (by simp)]
  have hr : text.reverse.dropWhile isBlank = text.reverse := by
    cases hrev : text.reverse with
    | nil => rfl
    | cons c rest =>
      have hc : c ∈ text.getLast? := by
        rw [← List.head?_reverse, hrev]; simp
      simp [List.dropWhile, hlast c hc]
  simp [trim, hl, hr]

end OverrideElision.Text
