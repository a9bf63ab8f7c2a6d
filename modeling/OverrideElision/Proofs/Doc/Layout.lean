import Mathlib.Data.List.Basic
import OverrideElision.Doc.Comment
import OverrideElision.Proofs.Doc.Braces

/-! # The layout of documentation comments

The lines of a documentation comment may have gutters or not, each line as it likes. What the
comment says depends only on the text of its lines: it is what their tags say when the lines are put
one below the other. -/

namespace OverrideElision

open List

/-! ## Lines -/

namespace Text

/-- What is asked of a text's characters is tried on those, not on all the characters there are. -/
instance (priority := 1100) decidableForallMem (text : List Char) (p : Char → Prop)
    [DecidablePred p] : Decidable (∀ c ∈ text, p c) :=
  text.decidableBAll p

@[simp]
theorem joinLines_singleton (line : List Char) : joinLines [line] = line := by
  simp [joinLines, intercalate]

theorem joinLines_cons_cons (first second : List Char) (rest : List (List Char)) :
    joinLines (first :: second :: rest) = first ++ '\n' :: joinLines (second :: rest) := by
  simp [joinLines, intercalate]

theorem joinLines_concat_nil {lines : List (List Char)} (h : lines ≠ []) :
    joinLines (lines ++ [[]]) = joinLines lines ++ ['\n'] := by
  induction lines with
  | nil => exact absurd rfl h
  | cons first rest ih =>
    cases rest with
    | nil => simp [joinLines, intercalate]
    | cons second rest =>
      rw [cons_append, cons_append, joinLines_cons_cons, joinLines_cons_cons, append_assoc,
        cons_append, ← ih (cons_ne_nil _ _), cons_append]

/-- Joined lines are cut apart again. An empty line at the end leaves no trace but the line feed
before it, which ends the last line. -/
theorem splitLines_joinLines {lines : List (List Char)}
    (h : ∀ line ∈ lines, ∀ c ∈ line, isLineEnd c = false) :
    splitLines (joinLines lines) = if lines.getLast? = some [] then lines.dropLast else lines := by
  induction lines with
  | nil => rfl
  | cons first rest ih =>
    obtain ⟨hfirst, hrest⟩ := forall_mem_cons.mp h
    cases rest with
    | nil =>
      rw [joinLines_singleton, splitLines, splitLinesFrom_of_no_end hfirst]
      cases first <;> simp
    | cons second rest =>
      rw [joinLines_cons_cons, splitLines, splitLinesFrom_append_newline hfirst, ih hrest,
        getLast?_cons_cons, dropLast_cons_cons]
      split <;> simp

end Text

namespace Doc

/-! ## A line feed at the end -/

theorem takeWhile_concat_of_neg {α : Type} {p : α → Bool} {x : α} (h : p x = false) (xs : List α) :
    (xs ++ [x]).takeWhile p = xs.takeWhile p := by
  induction xs with
  | nil => simp [h]
  | cons y ys ih => simp [takeWhile_cons, ih]

theorem dropWhile_concat_of_neg {α : Type} {p : α → Bool} {x : α} (h : p x = false) (xs : List α) :
    (xs ++ [x]).dropWhile p = xs.dropWhile p ++ [x] := by
  induction xs with
  | nil => simp [h]
  | cons y ys ih => by_cases hy : p y = true <;> simp [hy, ih]

theorem closeGroup_concat_newline (depth : Nat) (text : List Char) :
    closeGroup depth (text ++ ['\n']) =
      (closeGroup depth text).map fun (inner, after) => (inner, after ++ ['\n']) := by
  induction text generalizing depth with
  | nil => simp [closeGroup_cons]
  | cons c rest ih =>
    rw [cons_append]
    by_cases hopen : c = '{'
    · simp [hopen, ih, Function.comp_def]
    · by_cases hclose : c = '}'
      · cases depth <;> simp [hclose, ih, Function.comp_def]
      · simp [closeGroup_cons, hopen, hclose, ih, Function.comp_def]

theorem braced?_concat_newline (text : List Char) :
    braced? (text ++ ['\n']) =
      (braced? text).map fun (type, after) => (type, after ++ ['\n']) := by
  rw [braced?, braced?, dropWhile_append]
  cases h : text.dropWhile isGap with
  | nil => simp [isGap]
  | cons c rest =>
    simp only [isEmpty_cons, Bool.false_eq_true, if_false, cons_append, closeGroup_concat_newline]
    split_ifs <;> simp [Function.comp_def]

theorem paramName?_concat_newline (text : List Char) :
    paramName? (text ++ ['\n']) = paramName? text := by
  have hblank : Text.isBlank '\n' = true := by decide
  have hchar : isParamChar '\n' = false := by decide
  rw [paramName?, paramName?, Text.trimLeft, Text.trimLeft, dropWhile_append]
  cases h : text.dropWhile Text.isBlank with
  | nil => simp [hblank]
  | cons c rest =>
    by_cases hopen : c = '['
    · simp [hopen, takeWhile_concat_of_neg hchar]
    · simp only [isEmpty_cons, Bool.false_eq_true, if_false, cons_append, head?_cons,
        Option.some.injEq, hopen]
      rw [← cons_append, takeWhile_concat_of_neg hchar]

namespace Tag

/-- The tag with a line feed after all that follows it. -/
def withNewline (tag : Tag) : Tag := { tag with after := tag.after ++ ['\n'] }

variable (tag : Tag)

theorem is_withNewline : tag.withNewline.is = tag.is := rfl

theorem type_withNewline : tag.withNewline.type = (tag.type.1, tag.type.2 ++ ['\n']) := by
  rw [type, type, withNewline, braced?_concat_newline]
  cases braced? tag.after <;> rfl

theorem superType?_withNewline : tag.withNewline.superType? = tag.superType? := by
  rw [superType?, superType?, type_withNewline, is_withNewline]

theorem suppressions_withNewline : tag.withNewline.suppressions = tag.suppressions := by
  rw [suppressions, suppressions, type_withNewline, is_withNewline]

theorem param?_withNewline : tag.withNewline.param? = tag.param? := by
  rw [param?, param?, type_withNewline, is_withNewline, paramName?_concat_newline]

end Tag

theorem tags_concat_newline (text : List Char) :
    tags (text ++ ['\n']) = (tags text).map Tag.withNewline := by
  have hword : Text.isWord '\n' = false := by decide
  have hstart : ∀ rest : List Char,
      (rest ++ ['\n']).head?.any Text.isTagStart = rest.head?.any Text.isTagStart := by
    intro rest
    cases rest <;> simp [Text.isTagStart]
  fun_induction tags text with
  | case1 => simp [tags]
  | case2 c rest h after ih =>
    rw [cons_append, tags, if_pos (by rwa [hstart]), takeWhile_concat_of_neg hword,
      dropWhile_concat_of_neg hword]
    exact congrArg (_ :: ·) ih
  | case3 c rest h ih => rw [cons_append, tags, if_neg (by rwa [hstart]), ih]

/-- A line feed at the end of a text does not change what its tags say. -/
theorem Info.ofTags_concat_newline (text : List Char) :
    Info.ofTags (tags (text ++ ['\n'])) = Info.ofTags (tags text) := by
  rw [tags_concat_newline]
  simp only [Info.ofTags, any_map, filterMap_map, flatMap_map, map_map, Function.comp_def,
    Tag.is_withNewline, Tag.isReturn, Tag.superType?_withNewline, Tag.suppressions_withNewline,
    Tag.param?_withNewline]
  rfl

/-- An empty last line does not change what the tags of the lines say. -/
theorem Info.ofTags_joinLines_dropLast {lines : List (List Char)} (h : lines.getLast? = some []) :
    Info.ofTags (tags (Text.joinLines lines.dropLast)) =
      Info.ofTags (tags (Text.joinLines lines)) := by
  have hlines : lines.dropLast ++ [[]] = lines := dropLast_append_getLast? _ h
  by_cases hnil : lines.dropLast = []
  · rw [← hlines, hnil]
    rfl
  · rw [← hlines, dropLast_concat, Text.joinLines_concat_nil hnil, ofTags_concat_newline]

/-! ## Lines with gutters -/

/-- A line of a documentation comment: what its text is set apart by, and the text. -/
structure Line where
  gutter : List Char
  text : List Char
deriving DecidableEq

namespace Line

/-- The line as it stands in the comment. -/
def written (line : Line) : List Char := line.gutter ++ line.text

/-- The line without a gutter. -/
def bare (line : Line) : Line := { line with gutter := [] }

/-- Nothing, or a star with a space after it and any white space before it, and a text on one line
that is not itself set apart by a star. -/
structure WellFormed (line : Line) : Prop where
  gutter : line.gutter = [] ∨ ∃ indent, line.gutter = indent ++ ['*', ' '] ∧
    ∀ c ∈ indent, Text.isBlank c = true ∧ Text.isLineEnd c = false
  unbroken : ∀ c ∈ line.text, Text.isLineEnd c = false
  starless : (Text.trimLeft line.text).head? ≠ some '*'

theorem WellFormed.bare {line : Line} (h : line.WellFormed) : line.bare.WellFormed :=
  ⟨.inl rfl, h.unbroken, h.starless⟩

theorem WellFormed.unbroken_written {line : Line} (h : line.WellFormed) :
    ∀ c ∈ line.written, Text.isLineEnd c = false := by
  intro c hc
  rcases mem_append.mp hc with hc | hc
  · rcases h.gutter with hnone | ⟨indent, hgutter, hindent⟩
    · simp [hnone] at hc
    · rw [hgutter, mem_append, mem_pair] at hc
      rcases hc with hc | rfl | rfl
      · exact (hindent c hc).2
      · decide
      · decide
  · exact h.unbroken c hc

/-- Reading takes off the gutter and nothing else. -/
theorem WellFormed.dropGutter_written {line : Line} (h : line.WellFormed) :
    dropGutter line.written = line.text := by
  rcases h.gutter with hnone | ⟨indent, hgutter, hindent⟩
  · rw [written, hnone, nil_append, dropGutter]
    split
    · rename_i rest hstar
      exact absurd (by rw [hstar]; rfl) h.starless
    · rfl
  · have htrim : Text.trimLeft line.written = '*' :: ' ' :: line.text := by
      have hstar : Text.isBlank '*' = false := by decide
      rw [written, hgutter, append_assoc, Text.trimLeft,
        dropWhile_append_of_pos fun c hc => (hindent c hc).1]
      simp [hstar]
    have hspace : Text.isBlank ' ' = true := by decide
    simp [dropGutter, htrim, hspace]

end Line

/-- The documentation comment with these lines. -/
def comment (lines : List Line) : String :=
  String.ofList ("/**".toList ++ Text.joinLines (lines.map Line.written) ++ "*/".toList)

theorem body_comment (lines : List Line) :
    body (comment lines).toList = Text.joinLines (lines.map Line.written) := by
  have htext : (comment lines).toList =
      '/' :: '*' :: '*' :: (Text.joinLines (lines.map Line.written) ++ ['*', '/']) := by
    simp [comment]
  simp [htext, body]

/-- A comment says what the tags of its lines say, put one below the other. -/
theorem Info.ofComment_comment {lines : List Line} (h : ∀ line ∈ lines, line.WellFormed) :
    ofComment (comment lines) = ofTags (tags (Text.joinLines (lines.map Line.text))) := by
  have hlines : ∀ line ∈ lines.map Line.written, ∀ c ∈ line, Text.isLineEnd c = false :=
    forall_mem_map.mpr fun line hline => (h line hline).unbroken_written
  have htexts : (lines.map Line.written).map dropGutter = lines.map Line.text := by
    rw [map_map]
    exact map_congr_left fun line hline => (h line hline).dropGutter_written
  rw [ofComment, content, body_comment, Text.splitLines_joinLines hlines]
  split
  · -- The last line is empty, and so is its text: only a line feed is lost.
    rename_i hlast
    have hempty : (lines.map Line.text).getLast? = some [] := by
      rw [← htexts, getLast?_map, hlast]
      rfl
    rw [map_dropLast, htexts, ofTags_joinLines_dropLast hempty]
  · rw [htexts]

/-- The gutters of a comment's lines, and whether they have any, make no difference. -/
theorem Info.ofComment_layout {lines : List Line} (h : ∀ line ∈ lines, line.WellFormed) :
    ofComment (comment lines) = ofComment (comment (lines.map Line.bare)) ∧
      ∀ others : List Line, (∀ line ∈ others, line.WellFormed) →
        others.map Line.text = lines.map Line.text →
          ofComment (comment others) = ofComment (comment lines) := by
  have hother : ∀ others : List Line, (∀ line ∈ others, line.WellFormed) →
      others.map Line.text = lines.map Line.text →
        ofComment (comment others) = ofComment (comment lines) := by
    intro others hothers htexts
    rw [ofComment_comment h, ofComment_comment hothers, htexts]
  refine ⟨(hother _ (forall_mem_map.mpr fun line hline => (h line hline).bare) ?_).symm, hother⟩
  rw [map_map]
  rfl

/-- A parameter whose type goes over two lines and whose name stands on a third, under gutters of
three kinds, and an empty last line with one. -/
def scattered : List Line := [
  ⟨[], []⟩,
  ⟨[' ', '*', ' '], "@param \x7bnumber".toList⟩,
  ⟨['\u00a0', '*', ' '], "  |string\x7d".toList⟩,
  ⟨[], " x".toList⟩,
  ⟨['*', ' '], []⟩]

theorem scattered_layout :
    (∀ line ∈ scattered, line.WellFormed) ∧
      Info.ofComment (comment scattered) = Info.ofComment (comment (scattered.map Line.bare)) ∧
        (Info.ofComment (comment scattered)).params = [⟨"x", "number\n  |string"⟩] := by
  have h : ∀ line ∈ scattered, line.WellFormed := by
    simp only [scattered, forall_mem_cons]
    refine ⟨⟨.inl rfl, by decide, by decide⟩, ⟨.inr ⟨[' '], rfl, by decide⟩, by decide, by decide⟩,
      ⟨.inr ⟨['\u00a0'], rfl, by decide⟩, by decide, by decide⟩,
      ⟨.inl rfl, by decide, by decide⟩, ⟨.inr ⟨[], rfl, by decide⟩, by decide, by decide⟩,
      forall_mem_nil _⟩
  exact ⟨h, (Info.ofComment_layout h).1, by decide +kernel⟩

end Doc

end OverrideElision
