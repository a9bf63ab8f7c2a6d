import Mathlib.Data.List.Forall2
import Mathlib.Data.List.TakeWhile
import OverrideElision.Proofs.Doc.Layout

/-! # Writing documentation blocks

A block is written from a list of tags, one on each line, and reading it gives the data of each tag
back: no tag takes in anything of another, however much their types look like text. -/

namespace OverrideElision

open List

namespace Text

/-! ## Characters -/

/-- White space is no part of a word. -/
theorem isWord_eq_false_of_isBlank {c : Char} (h : isBlank c = true) : isWord c = false := by
  have hpoints : ∀ n ∈ range' 9 5 ++ range' 28 5 ++ [0x85, 0xA0, 0x1680] ++ range' 0x2000 11 ++
      [0x2028, 0x2029, 0x202F, 0x205F, 0x3000], isWord (Char.ofNat n) = false := by
    decide +kernel
  rw [← Char.ofNat_toNat c]
  apply hpoints
  simp [isBlank] at h ⊢
  omega

instance (text : List Char) : Decidable (IsTrimmed text) :=
  decidable_of_iff (text.head?.any isBlank = false ∧ text.getLast?.any isBlank = false)
    (by simp only [IsTrimmed, Option.any_eq_false, Option.mem_def])

/-- Trimming takes off white space only. -/
theorem exists_trim (text : List Char) :
    ∃ front back, text = front ++ trim text ++ back ∧
      (∀ c ∈ front, isBlank c = true) ∧ ∀ c ∈ back, isBlank c = true := by
  refine ⟨text.takeWhile isBlank, ((trimLeft text).reverse.takeWhile isBlank).reverse, ?_,
    fun c => mem_takeWhile_imp, fun c hc => mem_takeWhile_imp (mem_reverse.mp hc)⟩
  have hright : trimLeft text =
      trim text ++ ((trimLeft text).reverse.takeWhile isBlank).reverse := by
    rw [trim, ← reverse_append, takeWhile_append_dropWhile, reverse_reverse]
  rw [append_assoc, ← hright, trimLeft, takeWhile_append_dropWhile]

/-- Trimming takes off all white space around a text. -/
theorem trim_of_surrounded {front text back : List Char} (h : IsTrimmed text)
    (hfront : ∀ c ∈ front, isBlank c = true) (hback : ∀ c ∈ back, isBlank c = true) :
    trim (front ++ text ++ back) = text := by
  have hback' : ∀ c ∈ back.reverse, isBlank c = true := fun c hc => hback c (mem_reverse.mp hc)
  rw [trim, trimLeft, append_assoc, dropWhile_append_of_pos hfront]
  cases text with
  | nil =>
    have hnil : back.dropWhile isBlank = [] := dropWhile_eq_nil_iff.mpr hback
    simp [hnil]
  | cons c rest =>
    have hc : isBlank c = false := h.1 c rfl
    rw [cons_append, dropWhile_cons_of_neg (by simp [hc]), ← cons_append, reverse_append,
      dropWhile_append_of_pos hback']
    have htrim := trim_of_isTrimmed h
    rwa [trim, trimLeft, dropWhile_cons_of_neg (by simp [hc])] at htrim

end Text

namespace Doc

/-! ## Tags to write -/

/-- A tag as it is written into a block. -/
inductive Entry where
  /-- A name and nothing else. -/
  | marker (name : String)
  | superType (keyword type : String)
  /-- Names in braces, with the separator between each two. -/
  | suppress (separator : List Char) (names : List String)
  | param (type : Option String) (name : String)
  | returns (keyword : String) (type : Option String)
deriving DecidableEq

/-- A character that neither starts a tag nor ends a line. -/
def IsPlain (c : Char) : Prop := c ≠ '@' ∧ Text.isLineEnd c = false

instance (c : Char) : Decidable (IsPlain c) := inferInstanceAs (Decidable (_ ∧ _))

/-- A name that a tag can have. -/
def IsTagName (name : List Char) : Prop :=
  name.head?.any Text.isTagStart = true ∧ ∀ c ∈ name, Text.isWord c = true

instance (name : List Char) : Decidable (IsTagName name) :=
  inferInstanceAs (Decidable (_ ∧ _))

/-- A type that can be written in braces. -/
structure IsType (type : List Char) : Prop where
  nonempty : type ≠ []
  trimmed : Text.IsTrimmed type
  balanced : Balanced type
  plain : ∀ c ∈ type, IsPlain c

instance (type : List Char) : Decidable (IsType type) :=
  decidable_of_iff
    (type ≠ [] ∧ Text.IsTrimmed type ∧ Balanced type ∧ ∀ c ∈ type, IsPlain c)
    ⟨fun ⟨nonempty, trimmed, balanced, plain⟩ => ⟨nonempty, trimmed, balanced, plain⟩,
      fun h => ⟨h.nonempty, h.trimmed, h.balanced, h.plain⟩⟩

/-- A name that can be listed in braces. -/
structure IsListed (name : List Char) : Prop where
  nonempty : name ≠ []
  trimmed : Text.IsTrimmed name
  plain : ∀ c ∈ name, c ∉ [',', '|', '{', '}'] ∧ IsPlain c

instance (name : List Char) : Decidable (IsListed name) :=
  decidable_of_iff
    (name ≠ [] ∧ Text.IsTrimmed name ∧ ∀ c ∈ name, c ∉ [',', '|', '{', '}'] ∧ IsPlain c)
    ⟨fun ⟨nonempty, trimmed, plain⟩ => ⟨nonempty, trimmed, plain⟩,
      fun h => ⟨h.nonempty, h.trimmed, h.plain⟩⟩

/-- A comma or a bar, with white space around it. -/
def IsSeparator (separator : List Char) : Prop :=
  Text.trim separator ∈ [[','], ['|']] ∧ ∀ c ∈ separator, Text.isLineEnd c = false

instance (separator : List Char) : Decidable (IsSeparator separator) :=
  inferInstanceAs (Decidable (_ ∧ _))

namespace Entry

/-- The name of the tag. -/
def tag : Entry → String
  | marker name => name
  | superType keyword _ => keyword
  | suppress _ _ => "suppress"
  | param _ _ => "param"
  | returns keyword _ => keyword

/-- What is written after the name. -/
def content : Entry → List Char
  | marker _ => []
  | superType _ type => ' ' :: inBraces type.toList
  | suppress separator names => ' ' :: inBraces (separator.intercalate (names.map String.toList))
  | param none name => ' ' :: name.toList
  | param (some type) name => ' ' :: inBraces type.toList ++ ' ' :: name.toList
  | returns _ none => []
  | returns _ (some type) => ' ' :: inBraces type.toList

/-- The tag as it is written. -/
def line (entry : Entry) : List Char := '@' :: entry.tag.toList ++ entry.content

/-- The superclass type that the tag names. -/
def superType? : Entry → Option String
  | superType _ type => some type
  | _ => none

/-- The names that the tag suppresses. -/
def suppressed : Entry → List String
  | suppress _ names => names
  | _ => []

/-- The parameter that the tag documents. -/
def param? : Entry → Option Param
  | param type name => some ⟨name, type.getD ""⟩
  | _ => none

/-- What is written can be told from what stands around it. -/
def WellFormed : Entry → Prop
  | marker name => IsTagName name.toList
  | superType keyword type =>
    keyword ∈ ["extends", "inherits"] ∧ IsType type.toList ∧ type.toList.head? ≠ some '!'
  | suppress separator names => IsSeparator separator ∧ ∀ name ∈ names, IsListed name.toList
  | param type name =>
    (∀ t ∈ type, IsType t.toList) ∧ name ≠ "" ∧ ∀ c ∈ name.toList, isParamChar c = true
  | returns keyword type => keyword ∈ ["return", "returns"] ∧ ∀ t ∈ type, IsType t.toList

instance : (entry : Entry) → Decidable entry.WellFormed
  | marker _ => inferInstanceAs (Decidable (IsTagName _))
  | superType _ _ => inferInstanceAs (Decidable (_ ∧ _ ∧ _))
  | suppress _ _ => inferInstanceAs (Decidable (_ ∧ _))
  | param _ _ => inferInstanceAs (Decidable (_ ∧ _ ∧ _))
  | returns _ _ => inferInstanceAs (Decidable (_ ∧ _))

end Entry

/-- A block with one tag on each line between, under a gutter. -/
def block (entries : List Entry) : String :=
  comment (⟨[], []⟩ :: entries.map (fun entry => ⟨[' ', '*', ' '], entry.line⟩) ++ [⟨[], [' ']⟩])

example :
    block [.superType "extends" "Base", .param (some "\x7bx: T\x7d") "arg"] =
      "/**\n * @extends \x7bBase\x7d\n * @param \x7b\x7bx: T\x7d\x7d arg\n */" := by
  decide

/-- The record says what the tags do. -/
structure Info.Records (info : Info) (entries : List Entry) : Prop where
  markers : ∀ name, name ∈ info.markers ↔ ∃ entry ∈ entries, entry.tag = name
  superType : info.superType = (entries.filterMap Entry.superType?).getLast?
  suppressions : ∀ name, name ∈ info.suppressions ↔ ∃ entry ∈ entries, name ∈ entry.suppressed
  params : info.params = entries.filterMap Entry.param?
  hasReturn : info.hasReturn = true ↔ ∃ entry ∈ entries, entry.tag ∈ ["return", "returns"]
  isOverride : info.isOverride = true ↔ ∃ entry ∈ entries, entry.tag = "override"
  isConstructor : info.isConstructor = true ↔ ∃ entry ∈ entries, entry.tag = "constructor"

/-! ## Reading them back -/

/-- The tag is read as it was written. -/
structure Tag.Reads (tag : Tag) (entry : Entry) : Prop where
  name : tag.name = entry.tag.toList
  superType? : tag.superType? = entry.superType?
  suppressions : tag.suppressions = entry.suppressed
  param? : tag.param? = entry.param?

theorem tags_cons {c : Char} (h : c ≠ '@') (rest : List Char) : tags (c :: rest) = tags rest := by
  rw [tags, if_neg (by simp [h])]

theorem tags_append_of_not_mem {text : List Char} (h : '@' ∉ text) (rest : List Char) :
    tags (text ++ rest) = tags rest := by
  induction text with
  | nil => rfl
  | cons c text ih =>
    rw [mem_cons, not_or] at h
    rw [cons_append, tags_cons (Ne.symm h.1), ih h.2]

theorem tags_tag {name after : List Char} (h : IsTagName name)
    (hafter : after.head?.any Text.isWord = false) :
    tags ('@' :: name ++ after) = ⟨name, after⟩ :: tags after := by
  obtain ⟨hstart, hword⟩ := h
  have hcut : (name ++ after).takeWhile Text.isWord = name ∧
      (name ++ after).dropWhile Text.isWord = after := by
    rw [takeWhile_append_of_pos hword, dropWhile_append_of_pos hword]
    cases after with
    | nil => simp
    | cons c after => simp_all
  have hopens : (name ++ after).head?.any Text.isTagStart = true := by
    cases name <;> simp_all
  rw [cons_append, tags, if_pos ⟨rfl, hopens⟩, hcut.1, hcut.2]

/-! ## Names in a list -/

/-- What the names of a list are cut at. -/
def isMark (c : Char) : Bool := c == ',' || c == '|'

theorem IsSeparator.exists_mark {separator : List Char} (h : IsSeparator separator) :
    ∃ before mark after, separator = before ++ mark :: after ∧ isMark mark = true ∧
      (∀ c ∈ before, Text.isBlank c = true) ∧ ∀ c ∈ after, Text.isBlank c = true := by
  obtain ⟨before, after, hseparator, hbefore, hafter⟩ := Text.exists_trim separator
  have hmark : ∃ mark, Text.trim separator = [mark] ∧ isMark mark = true := by
    rcases mem_pair.mp h.1 with hmark | hmark
    · exact ⟨',', hmark, by decide⟩
    · exact ⟨'|', hmark, by decide⟩
  obtain ⟨mark, htrim, hmark⟩ := hmark
  rw [htrim, append_assoc, singleton_append] at hseparator
  exact ⟨before, mark, after, hseparator, hmark, hbefore, hafter⟩

theorem IsSeparator.chars {separator : List Char} (h : IsSeparator separator) :
    ∀ c ∈ separator, c ∉ ['{', '}', '@'] := by
  obtain ⟨before, mark, after, rfl, hmark, hbefore, hafter⟩ := h.exists_mark
  have hblank : ∀ c, Text.isBlank c = true → c ∉ ['{', '}', '@'] := by
    intro c hc hmem
    have hnone : ∀ c ∈ ['{', '}', '@'], Text.isBlank c = false := by decide
    simp [hnone c hmem] at hc
  have hmarks : ∀ c, isMark c = true → c ∉ ['{', '}', '@'] := by
    intro c hc hmem
    have hnone : ∀ c ∈ ['{', '}', '@'], isMark c = false := by decide
    simp [hnone c hmem] at hc
  intro c hc
  rcases mem_append.mp hc with hc | hc
  · exact hblank c (hbefore c hc)
  · rcases mem_cons.mp hc with rfl | hc
    · exact hmarks c hmark
    · exact hblank c (hafter c hc)

theorem IsSeparator.plain {separator : List Char} (h : IsSeparator separator) :
    ∀ c ∈ separator, c ∉ ['{', '}'] ∧ IsPlain c := by
  have hchars : ∀ c ∈ separator, c ∉ ['{', '}', '@'] := h.chars
  intro c hc
  have hline := h.2 c hc
  have := hchars c hc
  simp_all [IsPlain]

theorem IsListed.isMark_eq_false {name : List Char} (h : IsListed name) :
    ∀ c ∈ name, isMark c = false := by
  intro c hc
  have := (h.plain c hc).1
  simp_all [isMark]

theorem isMark_eq_false_of_isBlank {c : Char} (h : Text.isBlank c = true) : isMark c = false := by
  rw [isMark, Bool.or_eq_false_iff]
  constructor <;> rw [beq_eq_false_iff_ne] <;> rintro rfl <;> exact absurd h (by decide)

theorem mem_of_mem_intercalate {separator : List Char} {names : List (List Char)} {c : Char}
    (h : c ∈ separator.intercalate names) : c ∈ separator ∨ ∃ name ∈ names, c ∈ name := by
  induction names with
  | nil => cases h
  | cons first rest ih =>
    cases rest with
    | nil => exact .inr ⟨first, mem_cons_self, by simpa using h⟩
    | cons second rest =>
      rw [intercalate_cons_cons, mem_append, mem_append] at h
      rcases h with (h | h) | h
      · exact .inr ⟨first, mem_cons_self, h⟩
      · exact .inl h
      · rcases ih h with h | ⟨name, hname, hc⟩
        · exact .inl h
        · exact .inr ⟨name, mem_cons_of_mem _ hname, hc⟩

/-- Separated names are cut apart again. The white space before the first one stands for what a
separator leaves there. -/
theorem map_trim_splitAt {separator : List Char} (hseparator : IsSeparator separator)
    {names : List (List Char)} (hne : names ≠ []) (hnames : ∀ name ∈ names, IsListed name)
    {front : List Char} (hfront : ∀ c ∈ front, Text.isBlank c = true) :
    (Text.splitAt isMark (front ++ separator.intercalate names)).map Text.trim = names := by
  induction names generalizing front with
  | nil => exact absurd rfl hne
  | cons first rest ih =>
    obtain ⟨hfirst, hrest⟩ := forall_mem_cons.mp hnames
    have hunmarked : ∀ c ∈ front ++ first, isMark c = false := by
      intro c hc
      rcases mem_append.mp hc with hc | hc
      · exact isMark_eq_false_of_isBlank (hfront c hc)
      · exact hfirst.isMark_eq_false c hc
    cases rest with
    | nil =>
      have htrim := Text.trim_of_surrounded hfirst.trimmed hfront (forall_mem_nil _)
      rw [append_nil] at htrim
      rw [intercalate_singleton, Text.splitAt_of_none hunmarked, map_singleton, htrim]
    | cons second rest =>
      obtain ⟨before, mark, after, heq, hmark, hbefore, hafter⟩ := hseparator.exists_mark
      have htext : front ++ separator.intercalate (first :: second :: rest) =
          (front ++ first ++ before) ++ mark ::
            (after ++ separator.intercalate (second :: rest)) := by
        rw [intercalate_cons_cons]
        simp [heq]
      have hpart : ∀ c ∈ front ++ first ++ before, isMark c = false := by
        intro c hc
        rcases mem_append.mp hc with hc | hc
        · exact hunmarked c hc
        · exact isMark_eq_false_of_isBlank (hbefore c hc)
      rw [htext, Text.splitAt_append hpart hmark, map_cons, ih (cons_ne_nil _ _) hrest hafter,
        Text.trim_of_surrounded hfirst.trimmed hfront hbefore]

theorem filter_map_trim_splitAt {separator : List Char} (hseparator : IsSeparator separator)
    {names : List (List Char)} (hnames : ∀ name ∈ names, IsListed name) :
    ((Text.splitAt isMark (separator.intercalate names)).map Text.trim).filter (!·.isEmpty) =
      names := by
  by_cases hne : names = []
  · rw [hne]
    rfl
  · have hcut := map_trim_splitAt hseparator hne hnames (forall_mem_nil _)
    rw [nil_append] at hcut
    rw [hcut, filter_eq_self]
    intro name hname
    simpa using (hnames name hname).nonempty

theorem isTrimmed_intercalate {separator : List Char} {names : List (List Char)}
    (hnames : ∀ name ∈ names, IsListed name) :
    Text.IsTrimmed (separator.intercalate names) ∧
      (names ≠ [] → separator.intercalate names ≠ []) := by
  induction names with
  | nil => exact ⟨⟨by simp, by simp⟩, fun h => absurd rfl h⟩
  | cons first rest ih =>
    obtain ⟨hfirst, hrest⟩ := forall_mem_cons.mp hnames
    cases rest with
    | nil =>
      rw [intercalate_singleton]
      exact ⟨hfirst.trimmed, fun _ => hfirst.nonempty⟩
    | cons second rest =>
      obtain ⟨⟨-, hlast⟩, hne⟩ := ih hrest
      obtain ⟨c, tail, rfl⟩ := exists_cons_of_ne_nil hfirst.nonempty
      have hend := getLast?_eq_some_getLast (hne (cons_ne_nil _ _))
      rw [intercalate_cons_cons]
      refine ⟨⟨?_, ?_⟩, by simp⟩
      · intro d hd
        exact hfirst.trimmed.1 d (by simpa using hd)
      · intro d hd
        rw [getLast?_append, hend, Option.some_or] at hd
        exact hlast d (by rwa [hend])

/-! ## Single tags -/

/-- What follows a line of a block: a tag, or the white space at its end. -/
def Follows (rest : List Char) : Prop := rest = [' '] ∨ rest.head? = some '@'

section

variable {tag : Tag} {name type rest : List Char}

theorem is_of_name {name : String} (h : tag.name = name.toList) (keyword : String) :
    tag.is keyword = decide (name = keyword) := by
  rw [Tag.is, h]
  by_cases heq : name = keyword <;> simp [heq, String.toList_inj]

theorem superType?_of_name {name : String} (h : tag.name = name.toList)
    (hname : name ∉ ["extends", "inherits"]) : tag.superType? = none := by
  rw [mem_pair, not_or] at hname
  simp [Tag.superType?, is_of_name h, hname]

theorem suppressions_of_name {name : String} (h : tag.name = name.toList)
    (hname : name ≠ "suppress") : tag.suppressions = [] := by
  simp [Tag.suppressions, is_of_name h, hname]

theorem param?_of_name {name : String} (h : tag.name = name.toList) (hname : name ≠ "param") :
    tag.param? = none := by
  simp [Tag.param?, is_of_name h, hname]

theorem isPlain_inBraces {text : List Char} (h : ∀ c ∈ text, IsPlain c) :
    ∀ c ∈ ' ' :: inBraces text, IsPlain c := by
  have hothers : IsPlain ' ' ∧ IsPlain '{' ∧ IsPlain '}' := by decide
  simp only [inBraces, forall_mem_cons, forall_mem_append, cons_append]
  exact ⟨hothers.1, hothers.2.1, h, hothers.2.2, forall_mem_nil _⟩

theorem isBlank_eq_false_of_isParamChar {c : Char} (h : isParamChar c = true) :
    Text.isBlank c = false := by
  by_contra hblank
  rw [Bool.not_eq_false] at hblank
  have hdollar : Text.isBlank '$' = false := by decide
  rw [isParamChar, Text.isWord_eq_false_of_isBlank hblank, Bool.false_or, beq_iff_eq] at h
  rw [h, hdollar] at hblank
  cases hblank

theorem isPlain_of_isParamChar {c : Char} (h : isParamChar c = true) : IsPlain c := by
  constructor
  · rintro rfl
    exact absurd h (by decide)
  · by_contra hend
    rw [Bool.not_eq_false] at hend
    have hblank := Text.isBlank_of_isLineEnd hend
    rw [isBlank_eq_false_of_isParamChar h] at hblank
    cases hblank

theorem type_of_bare (hrest : Follows rest) (hafter : tag.after = '\n' :: rest) :
    tag.type = ([], '\n' :: rest) := by
  have hgaps : isGap '\n' = true ∧ isGap ' ' = true ∧ isGap '@' = false := by decide
  have hnone : braced? ('\n' :: rest) = none := by
    rcases hrest with rfl | hrest
    · simp [braced?, hgaps]
    · obtain ⟨more, rfl⟩ := head?_eq_some_iff.mp hrest
      simp [braced?, hgaps]
  rw [Tag.type, hafter, hnone]
  rfl

theorem paramName?_of_bare (hrest : Follows rest) : paramName? ('\n' :: rest) = none := by
  have hblanks : Text.isBlank '\n' = true ∧ Text.isBlank ' ' = true ∧ Text.isBlank '@' = false := by
    decide
  have hchar : isParamChar '@' = false := by decide
  rcases hrest with rfl | hrest
  · simp [paramName?, Text.trimLeft, hblanks]
  · obtain ⟨more, rfl⟩ := head?_eq_some_iff.mp hrest
    simp [paramName?, Text.trimLeft, hblanks, hchar]

theorem type_of_isType (h : IsType type) (hafter : tag.after = ' ' :: inBraces type ++ rest) :
    tag.type = (type, rest) := by
  rw [Tag.type, hafter, h.balanced.braced?, Text.trim_of_isTrimmed h.trimmed]
  rfl

theorem type_of_isListed {separator : List Char} {names : List (List Char)}
    (hseparator : IsSeparator separator) (hnames : ∀ name ∈ names, IsListed name)
    (hafter : tag.after = ' ' :: inBraces (separator.intercalate names) ++ rest) :
    tag.type = (separator.intercalate names, rest) := by
  have hbraces : ∀ c ∈ separator.intercalate names, c ∉ ['{', '}'] := by
    intro c hc
    rcases mem_of_mem_intercalate hc with hc | ⟨listed, hlisted, hc⟩
    · exact (hseparator.plain c hc).1
    · have := ((hnames listed hlisted).plain c hc).1
      simp_all
  have hbalanced : Balanced (separator.intercalate names) :=
    balanced_of_no_brace (fun h => by simpa using hbraces _ h) fun h => by simpa using hbraces _ h
  rw [Tag.type, hafter, hbalanced.braced?,
    Text.trim_of_isTrimmed (isTrimmed_intercalate hnames).1]
  rfl

theorem paramName?_of_name (hne : name ≠ []) (hname : ∀ c ∈ name, isParamChar c = true) :
    paramName? (' ' :: name ++ '\n' :: rest) = some name := by
  have hblank : Text.isBlank ' ' = true := by decide
  have hchars : isParamChar '[' = false ∧ isParamChar '\n' = false := by decide
  obtain ⟨c, tail, rfl⟩ := exists_cons_of_ne_nil hne
  obtain ⟨hc, htail⟩ := forall_mem_cons.mp hname
  have hopen : c ≠ '[' := by
    rintro rfl
    simp [hchars] at hc
  have htake : (c :: tail ++ '\n' :: rest).takeWhile isParamChar = c :: tail := by
    rw [takeWhile_append_of_pos hname]
    simp [hchars]
  have htrim : Text.trimLeft (' ' :: (c :: tail) ++ '\n' :: rest) = c :: tail ++ '\n' :: rest := by
    simp [Text.trimLeft, hblank, isBlank_eq_false_of_isParamChar hc]
  rw [paramName?, htrim, if_neg (by simpa using hopen), htake]

theorem type_of_name (hne : name ≠ []) (hname : ∀ c ∈ name, isParamChar c = true)
    (hafter : tag.after = ' ' :: name ++ rest) : tag.type = ([], ' ' :: name ++ rest) := by
  obtain ⟨c, tail, rfl⟩ := exists_cons_of_ne_nil hne
  have hc := hname c mem_cons_self
  have hgap : isGap ' ' = true := by decide
  have hnone : c ≠ '{' ∧ isGap c = false := by
    constructor
    · rintro rfl
      exact absurd hc (by decide)
    · rw [isGap, Bool.or_eq_false_iff, Bool.or_eq_false_iff]
      refine ⟨⟨?_, ?_⟩, ?_⟩ <;> rw [beq_eq_false_iff_ne] <;> rintro rfl <;>
        exact absurd hc (by decide)
  rw [Tag.type, hafter]
  simp [braced?, hgap, hnone]

end

namespace Entry

variable {entry : Entry} {rest : List Char}

theorem WellFormed.isTagName (h : entry.WellFormed) : IsTagName entry.tag.toList := by
  have hkeywords : ∀ keyword ∈ ["extends", "inherits", "suppress", "param", "return", "returns"],
      IsTagName keyword.toList := by decide
  cases entry with
  | marker name => exact h
  | superType keyword type =>
    obtain ⟨hkeyword, -⟩ := h
    refine hkeywords keyword ?_
    rcases mem_pair.mp hkeyword with rfl | rfl <;> decide
  | suppress separator names => exact hkeywords "suppress" (by decide)
  | param type name => exact hkeywords "param" (by decide)
  | returns keyword type =>
    obtain ⟨hkeyword, -⟩ := h
    refine hkeywords keyword ?_
    rcases mem_pair.mp hkeyword with rfl | rfl <;> decide

theorem WellFormed.plain_content (h : entry.WellFormed) : ∀ c ∈ entry.content, IsPlain c := by
  cases entry with
  | marker name => exact forall_mem_nil _
  | superType keyword type => exact isPlain_inBraces h.2.1.plain
  | suppress separator names =>
    refine isPlain_inBraces fun c hc => ?_
    rcases mem_of_mem_intercalate hc with hc | ⟨name, hname, hc⟩
    · exact (h.1.plain c hc).2
    · obtain ⟨listed, hlisted, rfl⟩ := mem_map.mp hname
      exact ((h.2 listed hlisted).plain c hc).2
  | param type name =>
    obtain ⟨htype, -, hname⟩ := h
    have hplain : ∀ c ∈ ' ' :: name.toList, IsPlain c :=
      forall_mem_cons.mpr ⟨by decide, fun c hc => isPlain_of_isParamChar (hname c hc)⟩
    cases type with
    | none => exact hplain
    | some type => exact forall_mem_append.mpr ⟨isPlain_inBraces (htype type rfl).plain, hplain⟩
  | returns keyword type =>
    cases type with
    | none => exact forall_mem_nil _
    | some type => exact isPlain_inBraces (h.2 type rfl).plain

theorem WellFormed.reads (h : entry.WellFormed) (hrest : Follows rest) {tag : Tag}
    (hname : tag.name = entry.tag.toList) (hafter : tag.after = entry.content ++ '\n' :: rest) :
    tag.Reads entry := by
  cases entry with
  | marker name =>
    -- The name can be that of another kind of tag, which has nothing to say here.
    have htype := type_of_bare hrest hafter
    refine ⟨hname, ?_, ?_, ?_⟩
    · simp [Tag.superType?, htype, superType?]
    · simp [Tag.suppressions, htype, suppressed, Text.splitAt, Text.trim, Text.trimLeft]
    · simp [Tag.param?, htype, param?, paramName?_of_bare hrest]
  | superType keyword type =>
    obtain ⟨hkeyword, hwritten, hbang⟩ := h
    have htype := type_of_isType hwritten hafter
    have hne := hwritten.nonempty
    have hkeep : type.toList.dropWhile (· == '!') = type.toList := by
      cases hchars : type.toList with
      | nil => rfl
      | cons c rest => simp_all
    have his : (tag.is "extends" || tag.is "inherits") = true := by
      rcases mem_pair.mp hkeyword with rfl | rfl <;> simp [is_of_name hname, Entry.tag]
    refine ⟨hname, ?_, suppressions_of_name hname ?_, param?_of_name hname ?_⟩
    · simp [Tag.superType?, his, htype, hne, hkeep, superType?]
    · rcases mem_pair.mp hkeyword with rfl | rfl <;> simp [Entry.tag]
    · rcases mem_pair.mp hkeyword with rfl | rfl <;> simp [Entry.tag]
  | suppress separator names =>
    have hnames : ∀ name ∈ names.map String.toList, IsListed name := forall_mem_map.mpr h.2
    have htype := type_of_isListed h.1 hnames hafter
    have hcut : ((Text.splitAt (fun c => c == ',' || c == '|') tag.type.1).map Text.trim).filter
        (!·.isEmpty) = names.map String.toList := by
      rw [htype]
      exact filter_map_trim_splitAt h.1 hnames
    have hname : tag.name = "suppress".toList := hname
    refine ⟨hname, superType?_of_name hname (by decide), ?_, param?_of_name hname (by decide)⟩
    rw [Tag.suppressions, if_pos (by rw [is_of_name hname]; rfl), hcut]
    simp [suppressed, Function.comp_def]
  | param type name =>
    obtain ⟨hwritten, hne, hchars⟩ := h
    have hne : name.toList ≠ [] := by simpa using hne
    have hname : tag.name = "param".toList := hname
    refine ⟨hname, superType?_of_name hname (by decide), suppressions_of_name hname (by decide), ?_⟩
    rw [Tag.param?, if_pos (by rw [is_of_name hname]; rfl)]
    cases type with
    | none =>
      rw [type_of_name hne hchars hafter, paramName?_of_name hne hchars]
      simp [param?]
    | some type =>
      have hbehind : tag.after =
          ' ' :: inBraces type.toList ++ (' ' :: name.toList ++ '\n' :: rest) := by
        rw [hafter, content, append_assoc]
      rw [type_of_isType (hwritten type rfl) hbehind, paramName?_of_name hne hchars]
      simp [param?]
  | returns keyword type =>
    obtain ⟨hkeyword, -⟩ := h
    refine ⟨hname, superType?_of_name hname ?_, suppressions_of_name hname ?_,
      param?_of_name hname ?_⟩ <;>
      rcases mem_pair.mp hkeyword with rfl | rfl <;> simp [Entry.tag]

end Entry

/-! ## Blocks -/

/-- The tags below each other, and the white space at the end. -/
def written : List Entry → List Char
  | [] => [' ']
  | entry :: rest => entry.line ++ '\n' :: written rest

theorem follows_written (entries : List Entry) : Follows (written entries) := by
  cases entries with
  | nil => exact .inl rfl
  | cons entry rest => exact .inr rfl

/-- The tags of a block are those written into it, one by one. -/
theorem tags_written {entries : List Entry} (h : ∀ entry ∈ entries, entry.WellFormed) :
    Forall₂ Tag.Reads (tags (written entries)) entries := by
  induction entries with
  | nil => simp [written, tags]
  | cons entry rest ih =>
    obtain ⟨hentry, hrest⟩ := forall_mem_cons.mp h
    have hplain : ∀ c ∈ entry.content ++ ['\n'], c ≠ '@' :=
      forall_mem_append.mpr ⟨fun c hc => (hentry.plain_content c hc).1, by decide⟩
    have hnone : '@' ∉ entry.content ++ ['\n'] := fun hmem => hplain _ hmem rfl
    have hword : (entry.content ++ '\n' :: written rest).head?.any Text.isWord = false := by
      have hends : Text.isWord ' ' = false ∧ Text.isWord '\n' = false := by decide
      cases entry with
      | param type name => cases type <;> simp [Entry.content, hends]
      | returns keyword type => cases type <;> simp [Entry.content, hends]
      | _ => simp [Entry.content, hends]
    have htext : written (entry :: rest) =
        '@' :: entry.tag.toList ++ (entry.content ++ '\n' :: written rest) := by
      simp [written, Entry.line]
    have hbehind : entry.content ++ '\n' :: written rest =
        entry.content ++ ['\n'] ++ written rest := by simp
    rw [htext, tags_tag hentry.isTagName hword, hbehind, tags_append_of_not_mem hnone,
      ← hbehind]
    exact .cons (hentry.reads (follows_written rest) rfl rfl) (ih hrest)

theorem joinLines_lines (entries : List Entry) :
    Text.joinLines (entries.map Entry.line ++ [[' ']]) = written entries := by
  induction entries with
  | nil => rfl
  | cons entry rest ih =>
    cases rest with
    | nil => rfl
    | cons second rest =>
      rw [map_cons, cons_append] at ih ⊢
      rw [map_cons, cons_append, Text.joinLines_cons_cons, ih]
      rfl

theorem Entry.WellFormed.line {entry : Entry} (h : entry.WellFormed) :
    Line.WellFormed ⟨[' ', '*', ' '], entry.line⟩ := by
  have hstart : Text.isLineEnd '@' = false ∧ Text.isBlank '@' = false := by decide
  refine ⟨.inr ⟨[' '], rfl, by decide⟩, ?_, by simp [Entry.line, Text.trimLeft, hstart]⟩
  have hname : ∀ c ∈ entry.tag.toList, Text.isLineEnd c = false := by
    intro c hc
    have hword := h.isTagName.2 c hc
    by_contra hend
    rw [Bool.not_eq_false] at hend
    rw [Text.isWord_eq_false_of_isBlank (Text.isBlank_of_isLineEnd hend)] at hword
    cases hword
  rw [Entry.line, cons_append]
  exact forall_mem_cons.mpr
    ⟨hstart.1, forall_mem_append.mpr ⟨hname, fun c hc => (h.plain_content c hc).2⟩⟩

theorem Info.ofComment_block_eq {entries : List Entry} (h : ∀ entry ∈ entries, entry.WellFormed) :
    ofComment (block entries) = ofTags (tags (written entries)) := by
  have hlines : ∀ line ∈ (⟨[], []⟩ :: entries.map (fun entry => ⟨[' ', '*', ' '], entry.line⟩) ++
      [⟨[], [' ']⟩] : List Line), line.WellFormed := by
    refine forall_mem_append.mpr ⟨forall_mem_cons.mpr ⟨?_, forall_mem_map.mpr ?_⟩, ?_⟩
    · exact ⟨.inl rfl, by decide, by decide⟩
    · exact fun entry hentry => (h entry hentry).line
    · exact forall_mem_singleton.mpr ⟨.inl rfl, by decide, by decide⟩
  have htext : Text.joinLines ([] :: (entries.map Entry.line ++ [[' ']])) =
      '\n' :: written entries := by
    rw [← joinLines_lines]
    cases entries <;> exact Text.joinLines_cons_cons _ _ _
  rw [block, ofComment_comment hlines, map_append, map_cons, map_map]
  exact (congrArg (ofTags <| tags ·) htext).trans (by rw [tags_cons (by decide)])

theorem map_eq_of_reads {β : Type} {tags : List Tag} {entries : List Entry} {read : Tag → β}
    {meant : Entry → β} (h : Forall₂ Tag.Reads tags entries)
    (heq : ∀ tag entry, tag.Reads entry → read tag = meant entry) :
    tags.map read = entries.map meant := by
  induction h with
  | nil => rfl
  | cons hread _ ih => rw [map_cons, map_cons, heq _ _ hread, ih]

theorem any_of_reads {tags : List Tag} {entries : List Entry} {read : Tag → Bool}
    {meant : Entry → Prop} [DecidablePred meant] (h : Forall₂ Tag.Reads tags entries)
    (heq : ∀ tag entry, tag.Reads entry → read tag = decide (meant entry)) :
    tags.any read = true ↔ ∃ entry ∈ entries, meant entry := by
  have hany : tags.any read = entries.any (decide <| meant ·) := by
    have hmap := congrArg (any · id) (map_eq_of_reads h heq)
    rwa [any_map, any_map] at hmap
  simp [hany]

/-- Tags that are read one by one as they were written say together what was written. -/
theorem Info.records_of_reads {tags : List Tag} {entries : List Entry}
    (h : Forall₂ Tag.Reads tags entries) : (ofTags tags).Records entries := by
  have his : ∀ keyword, tags.any (·.is keyword) = true ↔ ∃ entry ∈ entries, entry.tag = keyword :=
    fun keyword => any_of_reads h fun _ _ hread => is_of_name hread.name keyword
  have hnames : tags.map (fun tag => String.ofList tag.name) = entries.map Entry.tag :=
    map_eq_of_reads h fun _ _ hread => by rw [hread.name, String.ofList_toList]
  have hsupers : tags.map Tag.superType? = entries.map Entry.superType? :=
    map_eq_of_reads h fun _ _ hread => hread.superType?
  have hlists : tags.map Tag.suppressions = entries.map Entry.suppressed :=
    map_eq_of_reads h fun _ _ hread => hread.suppressions
  have hparams : tags.map Tag.param? = entries.map Entry.param? :=
    map_eq_of_reads h fun _ _ hread => hread.param?
  constructor
  · intro name
    rw [ofTags, NameSet.mem_ofList, hnames, mem_map]
  · rw [ofTags, ← Function.id_comp Tag.superType?, ← filterMap_map, hsupers, filterMap_map]
    rfl
  · intro name
    rw [ofTags, NameSet.mem_ofList, flatMap_def, hlists, ← flatMap_def, mem_flatMap]
  · rw [ofTags, ← Function.id_comp Tag.param?, ← filterMap_map, hparams, filterMap_map]
    rfl
  · refine any_of_reads h fun tag entry hread => ?_
    rw [Tag.isReturn, is_of_name hread.name, is_of_name hread.name]
    simp
  · exact his "override"
  · exact his "constructor"

/-- A block is read as it was written. -/
theorem Info.ofComment_block {entries : List Entry} (h : ∀ entry ∈ entries, entry.WellFormed) :
    (ofComment (block entries)).Records entries := by
  rw [ofComment_block_eq h]
  exact records_of_reads (tags_written h)

/-- Types with braces and marks in them, a superclass named twice, and tags that have the name of
another kind and nothing to say. -/
def assorted : List Entry := [
  .marker "extends",
  .superType "inherits" "a.Base<\x7bx: \x7by: (b|c)\x7d\x7d>",
  .param (some "\x7b\x7d, !*/ ...*=") "$first",
  .suppress [' ', '|', ' '] ["checkTypes", "uselessCode *"],
  .superType "extends" "B!",
  .param none "second_2",
  .suppress [','] [],
  .returns "returns" (some "!"),
  .marker "override",
  .marker "_own"]

theorem assorted_read :
    (∀ entry ∈ assorted, entry.WellFormed) ∧
      (Info.ofComment (block assorted)).Records assorted ∧
        (Info.ofComment (block assorted)).superType = some "B!" := by
  have h : ∀ entry ∈ assorted, entry.WellFormed := by decide +kernel
  have hreads := Info.ofComment_block h
  exact ⟨h, hreads, by rw [hreads.superType]; decide⟩

end Doc

end OverrideElision
