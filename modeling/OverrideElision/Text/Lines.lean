import OverrideElision.Text.Blank

/-! # Lines

A line ends at a line feed, a carriage return, the pair of both, a vertical tab, a form feed, one of
the first three information separators, U+0085, or a Unicode line or paragraph separator. Cutting a
text into lines drops these ends; a text that ends in one has no further, empty line after it. -/

namespace OverrideElision.Text

/-- A character that ends a line. -/
def isLineEnd (c : Char) : Bool :=
  let n := c.toNat
  (10 ≤ n && n ≤ 13) || (28 ≤ n && n ≤ 30) || n == 0x85 || n == 0x2028 || n == 0x2029

theorem isBlank_of_isLineEnd {c : Char} (h : isLineEnd c = true) : isBlank c = true := by
  simp only [isLineEnd, isBlank, Bool.or_eq_true, Bool.and_eq_true, decide_eq_true_eq,
    beq_iff_eq] at h ⊢
  omega

/-- The lines of `current.reverse ++ text`, where `current` holds the characters of an unfinished
line, last first. An unfinished line at the end counts when it is not empty. -/
def splitLinesFrom (current : List Char) : List Char → List (List Char)
  | [] => if current.isEmpty then [] else [current.reverse]
  | '\r' :: '\n' :: rest => current.reverse :: splitLinesFrom [] rest
  | c :: rest =>
    if isLineEnd c then current.reverse :: splitLinesFrom [] rest
    else splitLinesFrom (c :: current) rest

/-- The lines of a text, without their ends. -/
def splitLines (text : List Char) : List (List Char) :=
  splitLinesFrom [] text

/-- The lines with a line feed between each two. -/
def joinLines (lines : List (List Char)) : List Char :=
  List.intercalate ['\n'] lines

/-- Every line end of a file, `\r\n`, `\r` or `\n`, read as one line feed. -/
def unifyLineEnds : List Char → List Char
  | [] => []
  | '\r' :: '\n' :: rest => '\n' :: unifyLineEnds rest
  | '\r' :: rest => '\n' :: unifyLineEnds rest
  | c :: rest => c :: unifyLineEnds rest

theorem splitLinesFrom_of_no_end {current line : List Char}
    (h : ∀ c ∈ line, isLineEnd c = false) :
    splitLinesFrom current line =
      if (line.reverse ++ current).isEmpty then [] else [current.reverse ++ line] := by
  induction line generalizing current with
  | nil => simp [splitLinesFrom]
  | cons c rest ih =>
    have hc : isLineEnd c = false := h c (by simp)
    have hcr : c ≠ '\r' := by rintro rfl; exact absurd hc (by decide)
    rw [splitLinesFrom, if_neg (by simp [hc]), ih fun d hd => h d (by simp [hd])]
    · simp
    · intro rest' hcr'; exact absurd hcr' hcr

/-- A line without a line end is cut off by the line feed after it. -/
theorem splitLinesFrom_append_newline {current line rest : List Char}
    (h : ∀ c ∈ line, isLineEnd c = false) :
    splitLinesFrom current (line ++ '\n' :: rest) =
      (current.reverse ++ line) :: splitLines rest := by
  induction line generalizing current with
  | nil => simp [splitLinesFrom, splitLines, isLineEnd]
  | cons c line ih =>
    have hc : isLineEnd c = false := h c (by simp)
    have hcr : c ≠ '\r' := by rintro rfl; exact absurd hc (by decide)
    rw [List.cons_append, splitLinesFrom, if_neg (by simp [hc]), ih fun d hd => h d (by simp [hd])]
    · simp
    · intro rest' hcr'; exact absurd hcr' hcr

end OverrideElision.Text
