import OverrideElision.Text.Blank

/-! # Types in braces

A tag's type is written in braces, and may hold braces itself as long as they balance. -/

namespace OverrideElision.Doc

/-- What may stand between a tag and the brace that opens its type. -/
def isGap (c : Char) : Bool :=
  c == ' ' || c == '\t' || c == '\n'

/-- Reads up to the brace that closes a group in which `depth` further braces are open: the text
before that brace and the text after it. Nothing when the group never closes. -/
def closeGroup (depth : Nat) : List Char → Option (List Char × List Char)
  | [] => none
  | c :: rest =>
    if c = '{' then
      (closeGroup (depth + 1) rest).map fun (inner, after) => (c :: inner, after)
    else if c = '}' then
      match depth with
      | 0 => some ([], rest)
      | depth + 1 => (closeGroup depth rest).map fun (inner, after) => (c :: inner, after)
    else (closeGroup depth rest).map fun (inner, after) => (c :: inner, after)

/-- The type in the group of braces that the text starts with, gaps apart, without outer white
space, and the text after the group. -/
def braced? (text : List Char) : Option (List Char × List Char) :=
  match text.dropWhile isGap with
  | [] => none
  | c :: rest =>
    if c = '{' then (closeGroup 0 rest).map fun (inner, after) => (Text.trim inner, after)
    else none

/-- The type in braces at `start`, and where the group ends. No type and `start` itself when no
group stands there. -/
def bracedAt (text : List Char) (start : Nat) : List Char × Nat :=
  match braced? (text.drop start) with
  | some (type, after) => (type, text.length - after.length)
  | none => ([], start)

theorem append_of_closeGroup {depth : Nat} {text inner after : List Char}
    (h : closeGroup depth text = some (inner, after)) : text = inner ++ '}' :: after := by
  induction text generalizing depth inner with
  | nil => simp [closeGroup] at h
  | cons c rest ih =>
    unfold closeGroup at h
    split at h
    · obtain ⟨⟨i, a⟩, hi, heq⟩ := Option.map_eq_some_iff.mp h
      simp only [Prod.mk.injEq] at heq
      obtain ⟨rfl, rfl⟩ := heq
      simp [ih hi]
    · split at h
      · split at h
        · simp only [Option.some.injEq, Prod.mk.injEq] at h
          obtain ⟨rfl, rfl⟩ := h
          simp [*]
        · obtain ⟨⟨i, a⟩, hi, heq⟩ := Option.map_eq_some_iff.mp h
          simp only [Prod.mk.injEq] at heq
          obtain ⟨rfl, rfl⟩ := heq
          simp [ih hi]
      · obtain ⟨⟨i, a⟩, hi, heq⟩ := Option.map_eq_some_iff.mp h
        simp only [Prod.mk.injEq] at heq
        obtain ⟨rfl, rfl⟩ := heq
        simp [ih hi]

end OverrideElision.Doc
