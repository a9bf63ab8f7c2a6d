/-! # Splitting at separators

A text cut at every character of a class. A text with `n` separators has `n + 1` parts, some of them
possibly empty, and joining the parts gives the text back. -/

namespace OverrideElision.Text

/-- The parts of a text between the characters that satisfy `p`. -/
def splitAt (p : Char → Bool) : List Char → List (List Char)
  | [] => [[]]
  | c :: rest =>
    if p c then [] :: splitAt p rest
    else match splitAt p rest with
      | [] => [[c]]
      | first :: others => (c :: first) :: others

theorem splitAt_of_none {p : Char → Bool} {text : List Char} (h : ∀ c ∈ text, p c = false) :
    splitAt p text = [text] := by
  induction text with
  | nil => rfl
  | cons c rest ih =>
    simp [splitAt, h c (by simp), ih fun d hd => h d (by simp [hd])]

theorem splitAt_append {p : Char → Bool} {first : List Char} {c : Char} {rest : List Char}
    (h : ∀ d ∈ first, p d = false) (hc : p c = true) :
    splitAt p (first ++ c :: rest) = first :: splitAt p rest := by
  induction first with
  | nil => simp [splitAt, hc]
  | cons d first ih =>
    simp [splitAt, h d (by simp), ih fun x hx => h x (by simp [hx])]

end OverrideElision.Text
