import Mathlib.Data.List.Basic
import OverrideElision.Json

/-! # Reading JSON

A reader for JSON texts whose numbers are natural, with blanks wherever the grammar has them, every
escape, and surrogate pairs joined. What is written of a value is read as that value. -/

namespace OverrideElision.Json

open List

/-! ## Numerals -/

/-- The value of a digit in the given base, which is at most sixteen. -/
def digit? (base : Nat) (c : Char) : Option Nat :=
  let value? :=
    if '0' ≤ c ∧ c ≤ '9' then some (c.toNat - '0'.toNat)
    else if 'a' ≤ c ∧ c ≤ 'f' then some (10 + (c.toNat - 'a'.toNat))
    else if 'A' ≤ c ∧ c ≤ 'F' then some (10 + (c.toNat - 'A'.toNat))
    else none
  value?.filter (· < base)

/-- The value of a list of digits in the given base. -/
def numeral? (base : Nat) (digits : List Char) : Option Nat :=
  digits.foldlM (fun value c => (digit? base c).map (base * value + ·)) 0

section

variable {base : Nat} (hlow : 1 < base) (hhigh : base ≤ 16)
include hlow hhigh

omit hlow in
theorem digit?_digitChar {n : Nat} (h : n < base) : digit? base n.digitChar = some n := by
  have hvalue : ∀ n < 16, digit? 16 n.digitChar = some n := by decide
  have hn := hvalue n (by omega)
  rw [digit?, Option.filter_eq_some_iff] at hn ⊢
  exact ⟨hn.1, decide_eq_true h⟩

theorem numeral?_toDigits (n : Nat) : numeral? base (Nat.toDigits base n) = some n := by
  induction n using Nat.strongRecOn with
  | ind n ih =>
    by_cases h : n < base
    · simp [Nat.toDigits_of_lt_base h, numeral?, digit?_digitChar hhigh h]
    · have hquotient : n / base < n := Nat.div_lt_self (by omega) hlow
      have hdigit := digit?_digitChar hhigh (Nat.mod_lt n (by omega : 0 < base))
      rw [Nat.toDigits_of_base_le hlow (by omega), numeral?, foldlM_append]
      have hfront := ih (n / base) hquotient
      rw [numeral?] at hfront
      simp [hfront, hdigit, Nat.div_add_mod]

/-- Noughts in front of a numeral do not change its value. -/
theorem numeral?_replicate_append (count : Nat) (digits : List Char) :
    numeral? base (replicate count '0' ++ digits) = numeral? base digits := by
  have hzero : digit? base '0' = some 0 := digit?_digitChar hhigh (by omega : 0 < base)
  induction count with
  | zero => rfl
  | succ count ih =>
    rw [replicate_succ, cons_append, ← ih]
    simp [numeral?, hzero]

end

/-- The numeral of a positive number does not start with a nought. -/
theorem head?_toDigits {n : Nat} (h : 0 < n) : (Nat.toDigits 10 n).head? ≠ some '0' := by
  induction n using Nat.strongRecOn with
  | ind n ih =>
    by_cases hn : n < 10
    · have hdigit : ∀ n < 10, 0 < n → n.digitChar ≠ '0' := by decide
      simpa [Nat.toDigits_of_lt_base hn] using hdigit n hn h
    · have hfront := ih (n / 10) (by omega) (by omega)
      rw [Nat.toDigits_of_base_le (by omega) (by omega),
        head?_append_of_ne_nil _ Nat.toDigits_ne_nil]
      exact hfront

/-! ## Strings -/

/-- A code unit in four hexadecimal digits. -/
def readUnit (cs : List Char) : Option (Nat × List Char) :=
  if 4 ≤ cs.length then (numeral? 16 (cs.take 4)).map (·, cs.drop 4) else none

/-- The second half of a surrogate pair whose first half is given, and the character of the pair. -/
def readSecondHalf (high : Nat) : List Char → Option (Char × List Char)
  | '\\' :: 'u' :: cs => do
    let (low, cs) ← readUnit cs
    if 0xDC00 ≤ low ∧ low < 0xE000 then
      some (.ofNat (0x10000 + (high - 0xD800) * 0x400 + (low - 0xDC00)), cs)
    else none
  | _ => none

/-- What follows the backslash of an escape. -/
def readEscape : List Char → Option (Char × List Char)
  | [] => none
  | 'u' :: cs => do
    let (unit, cs) ← readUnit cs
    if unit < 0xD800 ∨ 0xE000 ≤ unit then some (.ofNat unit, cs)
    else if unit < 0xDC00 then readSecondHalf unit cs
    else none
  | '"' :: cs => some ('"', cs)
  | '\\' :: cs => some ('\\', cs)
  | '/' :: cs => some ('/', cs)
  | 'b' :: cs => some ('\x08', cs)
  | 'f' :: cs => some ('\x0c', cs)
  | 'n' :: cs => some ('\n', cs)
  | 'r' :: cs => some ('\r', cs)
  | 't' :: cs => some ('\t', cs)
  | _ => none

/-- One character of a string. Control characters have to be escaped. -/
def readChar : List Char → Option (Char × List Char)
  | [] => none
  | c :: cs => if c = '\\' then readEscape cs else if c.toNat < 32 then none else some (c, cs)

/-- The characters of a string up to the quote that ends it, with fewer than `bound` of them. -/
def readChars : Nat → List Char → Option (List Char × List Char)
  | 0, _ => none
  | bound + 1, cs =>
    if cs.head? = some '"' then some ([], cs.tail)
    else do
      let (c, cs) ← readChar cs
      let (s, cs) ← readChars bound cs
      some (c :: s, cs)

/-- A string after its first quote. No string is longer than the text that it stands in. -/
def readString (cs : List Char) : Option (String × List Char) :=
  (readChars cs.length cs).map fun (s, cs) => (.ofList s, cs)

theorem length_hexDigits {unit : Nat} (h : unit < 0x10000) :
    (Text.hexDigits 4 unit).length = 4 := by
  have hlength : (Nat.toDigits 16 unit).length ≤ 4 :=
    (Nat.length_toDigits_le_iff (by omega) (by omega)).mpr (by omega)
  rw [Text.hexDigits, length_append, length_replicate]
  omega

theorem readUnit_hexDigits {unit : Nat} (h : unit < 0x10000) (rest : List Char) :
    readUnit (Text.hexDigits 4 unit ++ rest) = some (unit, rest) := by
  have hlength := length_hexDigits h
  have hvalue : numeral? 16 (Text.hexDigits 4 unit) = some unit := by
    rw [Text.hexDigits, numeral?_replicate_append (by omega) (by omega),
      numeral?_toDigits (by omega) (by omega)]
  rw [readUnit, if_pos (by rw [length_append]; omega), take_left' hlength, drop_left' hlength,
    hvalue, Option.map_some]

theorem readChar_unitEscape {unit : Nat} (h : unit < 0x10000)
    (hvalid : unit < 0xD800 ∨ 0xE000 ≤ unit) (rest : List Char) :
    readChar (unitEscape unit ++ rest) = some (.ofNat unit, rest) := by
  simp [unitEscape, readChar, readEscape, readUnit_hexDigits h, hvalid]

/-- The two halves of a surrogate pair are read as one character. -/
theorem readChar_pair {high low : Nat} (hhigh : 0xD800 ≤ high ∧ high < 0xDC00)
    (hlow : 0xDC00 ≤ low ∧ low < 0xE000) (rest : List Char) :
    readChar (unitEscape high ++ unitEscape low ++ rest) =
      some (.ofNat (0x10000 + (high - 0xD800) * 0x400 + (low - 0xDC00)), rest) := by
  have hfirst : ¬ (high < 0xD800 ∨ 0xE000 ≤ high) := by omega
  have hread := readUnit_hexDigits (by omega : high < 0x10000)
  have hread' := readUnit_hexDigits (by omega : low < 0x10000)
  simp [unitEscape, readChar, readEscape, readSecondHalf, hread, hread', hfirst, hhigh.2, hlow]

/-- A written character is read as that character. -/
theorem readChar_escaped (c : Char) (rest : List Char) :
    readChar (escaped c ++ rest) = some (c, rest) := by
  have hvalid : c.toNat < 0xD800 ∨ 0xDFFF < c.toNat ∧ c.toNat < 0x110000 := c.valid
  unfold escaped
  split_ifs with h1 h2 h3 h4 h5 h6 h7 h8 h9
  · rw [h1]; rfl
  · rw [h2]; rfl
  · rw [h3]; rfl
  · rw [h4]; rfl
  · rw [h5]; rfl
  · rw [h6]; rfl
  · rw [h7]; rfl
  · simp [readChar, h2, h8.1]
  · rw [readChar_unitEscape h9 (by omega), Char.ofNat_toNat]
  · rw [readChar_pair (by omega) (by omega)]
    have hvalue : 0x10000 + (0xD800 + (c.toNat - 0x10000) / 0x400 - 0xD800) * 0x400 +
        (0xDC00 + (c.toNat - 0x10000) % 0x400 - 0xDC00) = c.toNat := by omega
    rw [hvalue, Char.ofNat_toNat]

theorem exists_escaped_eq_cons (c : Char) : ∃ first others, escaped c = first :: others ∧
    first ≠ '"' := by
  unfold escaped unitEscape
  split_ifs with hquote
  iterate 7 exact ⟨'\\', _, rfl, by decide⟩
  · exact ⟨c, [], rfl, hquote⟩
  · exact ⟨'\\', _, rfl, by decide⟩
  · exact ⟨'\\', _, rfl, by decide⟩

theorem readChars_escaped (bound : Nat) (c : Char) (cs : List Char) :
    readChars (bound + 1) (escaped c ++ cs) =
      (readChars bound cs).map fun (s, rest) => (c :: s, rest) := by
  obtain ⟨first, others, hescaped, hquote⟩ := exists_escaped_eq_cons c
  have hhead : (escaped c ++ cs).head? ≠ some '"' := by
    rw [hescaped]
    exact fun h => hquote (Option.some.inj h)
  rw [readChars, if_neg hhead, readChar_escaped]
  simp only [Option.bind_eq_bind, Option.bind_some]
  cases readChars bound cs <;> rfl

/-- The characters of a written string are read up to the quote that ends it. -/
theorem readChars_flatMap {bound : Nat} {s : List Char} (h : s.length < bound) (rest : List Char) :
    readChars bound (s.flatMap escaped ++ '"' :: rest) = some (s, rest) := by
  obtain ⟨bound, rfl⟩ : ∃ n, bound = n + 1 := ⟨bound - 1, by omega⟩
  induction s generalizing bound with
  | nil => rfl
  | cons c s ih =>
    obtain ⟨bound, rfl⟩ : ∃ n, bound = n + 1 := ⟨bound - 1, by simp at h; omega⟩
    rw [flatMap_cons, append_assoc, readChars_escaped, ih bound (by simpa using h), Option.map_some]

theorem length_le_flatMap_escaped (s : List Char) : s.length ≤ (s.flatMap escaped).length := by
  induction s with
  | nil => exact Nat.le_refl _
  | cons c s ih =>
    obtain ⟨first, others, hescaped, _⟩ := exists_escaped_eq_cons c
    simp only [flatMap_cons, hescaped, length_append, length_cons]
    omega

theorem readString_flatMap (s : String) (rest : List Char) :
    readString (s.toList.flatMap escaped ++ '"' :: rest) = some (s, rest) := by
  have hlength := length_le_flatMap_escaped s.toList
  rw [readString, readChars_flatMap (by rw [length_append, length_cons]; omega)]
  simp

/-! ## Values -/

/-- A character between tokens. -/
def isBlank (c : Char) : Bool :=
  c = ' ' || c = '\n' || c = '\r' || c = '\t'

/-- The text from its first token on. -/
def skipBlanks (cs : List Char) : List Char :=
  cs.dropWhile isBlank

/-- A natural number, which has no nought in front. -/
def readNumber (cs : List Char) : Option (Json × List Char) :=
  let digits := cs.takeWhile Char.isDigit
  if digits.head? = some '0' ∧ digits ≠ ['0'] then none
  else (numeral? 10 digits).map fun value => (.number value, cs.dropWhile Char.isDigit)

/-- One of the three literal names. -/
def readName (cs : List Char) : Option (Json × List Char) :=
  [("null", Json.null), ("true", .bool true), ("false", .bool false)].findSome? fun (name, value) =>
    if name.toList.isPrefixOf cs then some (value, cs.drop name.toList.length) else none

/-- A member of an object whose value is read by `read`: its name, a colon and the value. -/
def readMember (read : List Char → Option (Json × List Char)) (cs : List Char) :
    Option ((String × Json) × List Char) :=
  match skipBlanks cs with
  | '"' :: cs => do
    let (name, cs) ← readString cs
    match skipBlanks cs with
    | ':' :: cs => (read cs).map fun (value, cs) => ((name, value), cs)
    | _ => none
  | _ => none

mutual

/-- A value, after blanks, with at most `bound` values and brackets one after or in the other. -/
def readValue : Nat → List Char → Option (Json × List Char)
  | 0, _ => none
  | bound + 1, cs =>
    match skipBlanks cs with
    | [] => none
    | c :: cs =>
      if c = '"' then (readString cs).map fun (s, cs) => (.string s, cs)
      else if c = '[' then
        if (skipBlanks cs).head? = some ']' then some (.array [], (skipBlanks cs).tail)
        else do
          let (item, cs) ← readValue bound cs
          let (items, cs) ← readItems bound cs
          some (.array (item :: items), cs)
      else if c = '{' then
        if (skipBlanks cs).head? = some '}' then some (.object [], (skipBlanks cs).tail)
        else do
          let (member, cs) ← readMember (readValue bound) cs
          let (members, cs) ← readMembers bound cs
          some (.object (member :: members), cs)
      else if c.isDigit then readNumber (c :: cs)
      else readName (c :: cs)

/-- The items of an array after the first, each after its comma, and the bracket. -/
def readItems : Nat → List Char → Option (List Json × List Char)
  | 0, _ => none
  | bound + 1, cs =>
    match skipBlanks cs with
    | ']' :: cs => some ([], cs)
    | ',' :: cs => do
      let (item, cs) ← readValue bound cs
      let (items, cs) ← readItems bound cs
      some (item :: items, cs)
    | _ => none

/-- The members of an object after the first, each after its comma, and the brace. -/
def readMembers : Nat → List Char → Option (List (String × Json) × List Char)
  | 0, _ => none
  | bound + 1, cs =>
    match skipBlanks cs with
    | '}' :: cs => some ([], cs)
    | ',' :: cs => do
      let (member, cs) ← readMember (readValue bound) cs
      let (members, cs) ← readMembers bound cs
      some (member :: members, cs)
    | _ => none

end

/-- The value that a text is, with blanks around it and nothing else. Each value and each bracket
takes up a character of the text. -/
def ofText? (text : String) : Option Json :=
  match readValue text.toList.length text.toList with
  | some (value, rest) => if skipBlanks rest = [] then some value else none
  | none => none

theorem skipBlanks_cons {c : Char} (h : isBlank c = false) (cs : List Char) :
    skipBlanks (c :: cs) = c :: cs := by
  simp [skipBlanks, h]

@[simp]
theorem skipBlanks_lineBreak (depth : Nat) (cs : List Char) :
    skipBlanks (lineBreak depth ++ cs) = skipBlanks cs := by
  have hblank : ∀ c ∈ lineBreak depth, isBlank c = true := by
    intro c hc
    rcases mem_cons.mp hc with rfl | hc
    · rfl
    · rw [eq_of_mem_replicate hc]
      rfl
  exact dropWhile_append_of_pos hblank

/-- Blanks in front of a value do not matter. -/
theorem readValue_of_skipBlanks {cs ds : List Char} (h : skipBlanks cs = skipBlanks ds)
    (bound : Nat) : readValue bound cs = readValue bound ds := by
  cases bound with
  | zero => rfl
  | succ bound => simp only [readValue, h]

theorem readValue_lineBreak (bound depth : Nat) (cs : List Char) :
    readValue bound (lineBreak depth ++ cs) = readValue bound cs :=
  readValue_of_skipBlanks (skipBlanks_lineBreak depth cs) bound

theorem readMember_lineBreak (read : List Char → Option (Json × List Char)) (depth : Nat)
    (cs : List Char) : readMember read (lineBreak depth ++ cs) = readMember read cs := by
  rw [readMember, skipBlanks_lineBreak, ← readMember]

/-- An array is empty, or it has a first item and others. -/
theorem readValue_array (bound : Nat) (cs : List Char) :
    readValue (bound + 1) ('[' :: cs) =
      if (skipBlanks cs).head? = some ']' then some (.array [], (skipBlanks cs).tail)
      else (do
        let (item, cs) ← readValue bound cs
        let (items, cs) ← readItems bound cs
        some (.array (item :: items), cs)) :=
  rfl

/-- An object is empty, or it has a first member and others. -/
theorem readValue_object (bound : Nat) (cs : List Char) :
    readValue (bound + 1) ('{' :: cs) =
      if (skipBlanks cs).head? = some '}' then some (.object [], (skipBlanks cs).tail)
      else (do
        let (member, cs) ← readMember (readValue bound) cs
        let (members, cs) ← readMembers bound cs
        some (.object (member :: members), cs)) :=
  rfl

theorem readItems_comma (bound : Nat) (cs : List Char) :
    readItems (bound + 1) (',' :: cs) = (do
      let (item, cs) ← readValue bound cs
      let (items, cs) ← readItems bound cs
      some (item :: items, cs)) :=
  rfl

theorem readMembers_comma (bound : Nat) (cs : List Char) :
    readMembers (bound + 1) (',' :: cs) = (do
      let (member, cs) ← readMember (readValue bound) cs
      let (members, cs) ← readMembers bound cs
      some (member :: members, cs)) :=
  rfl

/-- What may follow a number: anything but a further digit. -/
def Ends (rest : List Char) : Prop :=
  ∀ c, rest.head? = some c → c.isDigit = false

theorem readNumber_toDigits (n : Nat) {rest : List Char} (h : Ends rest) :
    readNumber (Nat.toDigits 10 n ++ rest) = some (.number n, rest) := by
  have hdigits : ∀ c ∈ Nat.toDigits 10 n, c.isDigit = true := fun c hc =>
    Nat.isDigit_of_mem_toDigits (by omega) (by omega) hc
  have hrest : rest.takeWhile Char.isDigit = [] ∧ rest.dropWhile Char.isDigit = rest := by
    cases rest with
    | nil => exact ⟨rfl, rfl⟩
    | cons c rest => simp [h c rfl]
  have hnought : ¬ ((Nat.toDigits 10 n).head? = some '0' ∧ Nat.toDigits 10 n ≠ ['0']) := by
    rintro ⟨hhead, hne⟩
    rcases Nat.eq_zero_or_pos n with rfl | hpos
    · exact hne rfl
    · exact head?_toDigits hpos hhead
  rw [readNumber, takeWhile_append_of_pos hdigits, dropWhile_append_of_pos hdigits, hrest.1,
    hrest.2, append_nil, if_neg hnought, numeral?_toDigits (by omega) (by omega), Option.map_some]

theorem ends_cons {c : Char} (h : c.isDigit = false) (rest : List Char) : Ends (c :: rest) := by
  intro first hfirst
  obtain rfl : c = first := by simpa using hfirst
  exact h

theorem ends_itemsText (depth outer : Nat) (items : List Json) (rest : List Char) :
    Ends (itemsText depth items ++ (lineBreak outer ++ rest)) := by
  cases items with
  | nil => exact ends_cons (by decide) _
  | cons item items => exact ends_cons (by decide) _

theorem ends_membersText (depth outer : Nat) (members : List (String × Json)) (rest : List Char) :
    Ends (membersText depth members ++ (lineBreak outer ++ rest)) := by
  cases members with
  | nil => exact ends_cons (by decide) _
  | cons member members => rw [membersText]; exact ends_cons (by decide) _

theorem not_isBlank_of_isDigit {c : Char} (h : c.isDigit = true) : isBlank c = false := by
  rw [← Bool.not_eq_true, isBlank]
  intro hblank
  simp only [Bool.or_eq_true, decide_eq_true_eq] at hblank
  rcases hblank with ((rfl | rfl) | rfl) | rfl <;> exact absurd h (by decide)

theorem exists_toDigits_eq_cons (n : Nat) : ∃ first others,
    Nat.toDigits 10 n = first :: others ∧ first.isDigit = true := by
  obtain ⟨first, others, htext⟩ := exists_cons_of_ne_nil (Nat.toDigits_ne_nil (b := 10) (n := n))
  exact ⟨first, others, htext,
    Nat.isDigit_of_mem_toDigits (by omega) (by omega) (htext ▸ mem_cons_self)⟩

/-- A value starts with a character that neither is a blank nor ends an array. -/
theorem exists_text_eq_cons (depth : Nat) (value : Json) : ∃ first others,
    value.text depth = first :: others ∧ isBlank first = false ∧ first ≠ ']' := by
  cases value with
  | null => exact ⟨'n', _, rfl, rfl, by decide⟩
  | bool value => cases value <;> exact ⟨_, _, rfl, rfl, by decide⟩
  | number n =>
    obtain ⟨first, others, htext, hdigit⟩ := exists_toDigits_eq_cons n
    refine ⟨first, others, by rw [text, htext], not_isBlank_of_isDigit hdigit, ?_⟩
    rintro rfl
    exact absurd hdigit (by decide)
  | string s => exact ⟨'"', _, rfl, rfl, by decide⟩
  | array items => cases items <;> exact ⟨'[', _, rfl, rfl, by decide⟩
  | object members => cases members <;> exact ⟨'{', _, rfl, rfl, by decide⟩

theorem readMember_text {bound depth : Nat} (name : String) {value : Json} {rest : List Char}
    (h : readValue bound (value.text depth ++ rest) = some (value, rest)) :
    readMember (readValue bound) (stringText name ++ ':' :: ' ' :: (value.text depth ++ rest)) =
      some ((name, value), rest) := by
  have hname := readString_flatMap name (':' :: ' ' :: (value.text depth ++ rest))
  have hblank : readValue bound (' ' :: (value.text depth ++ rest)) =
      readValue bound (value.text depth ++ rest) :=
    readValue_of_skipBlanks (dropWhile_cons_of_pos (by rfl)) bound
  rw [readMember]
  simp [stringText, skipBlanks_cons, isBlank, hname, hblank, h]

mutual

/-- A written value is read as that value. -/
theorem readValue_text {bound : Nat} (depth : Nat) (value : Json) {rest : List Char}
    (hbound : (value.text depth).length ≤ bound) (h : Ends rest) :
    readValue bound (value.text depth ++ rest) = some (value, rest) := by
  have hpos : 0 < (value.text depth).length := by
    obtain ⟨first, others, htext, _⟩ := exists_text_eq_cons depth value
    rw [htext]
    exact Nat.succ_pos _
  obtain ⟨bound, rfl⟩ : ∃ n, bound = n + 1 := ⟨bound - 1, by omega⟩
  match value with
  | .null | .bool true | .bool false | .array [] | .object [] => rfl
  | .number n =>
    obtain ⟨first, others, htext, hdigit⟩ := exists_toDigits_eq_cons n
    have hread := readNumber_toDigits n h
    have hne : first ≠ '"' ∧ first ≠ '[' ∧ first ≠ '{' := by
      refine ⟨?_, ?_, ?_⟩ <;> (rintro rfl; exact absurd hdigit (by decide))
    rw [htext, cons_append] at hread
    rw [text, htext, cons_append, readValue, skipBlanks_cons (not_isBlank_of_isDigit hdigit)]
    simp [hne, hdigit, hread]
  | .string s =>
    have hread : readValue (bound + 1) (stringText s ++ rest) =
        (readString (s.toList.flatMap escaped ++ ['"'] ++ rest)).map fun (s, cs) =>
          (.string s, cs) := rfl
    rw [text, hread, append_assoc]
    exact congrArg _ (readString_flatMap s rest)
  | .array (item :: items) =>
    have hlength : (item.text (depth + 1)).length ≤ bound ∧
        (itemsText (depth + 1) items).length < bound := by
      simp only [text, length_append, length_cons] at hbound
      omega
    have hitem := readValue_text (depth + 1) item hlength.1
      (ends_itemsText (depth + 1) depth items (']' :: rest))
    have hitems := readItems_itemsText (depth + 1) depth items rest hlength.2
    obtain ⟨first, others, htext, hblank, hclose⟩ := exists_text_eq_cons (depth + 1) item
    have hopen (rest : List Char) :
        (skipBlanks (item.text (depth + 1) ++ rest)).head? ≠ some ']' := by
      simpa [htext, skipBlanks_cons hblank] using hclose
    simp only [text, cons_append, append_assoc, nil_append, readValue_array, skipBlanks_lineBreak,
      if_neg (hopen _), readValue_lineBreak, hitem, Option.bind_eq_bind, Option.bind_some, hitems]
  | .object ((name, value) :: members) =>
    have hlength : (value.text (depth + 1)).length ≤ bound ∧
        (membersText (depth + 1) members).length < bound := by
      simp only [text, length_append, length_cons] at hbound
      omega
    have hmember := readMember_text name (readValue_text (depth + 1) value hlength.1
      (ends_membersText (depth + 1) depth members ('}' :: rest)))
    have hmembers := readMembers_membersText (depth + 1) depth members rest hlength.2
    have hopen (rest : List Char) : (skipBlanks (stringText name ++ rest)).head? ≠ some '}' := by
      simp [stringText, skipBlanks_cons, isBlank]
    simp only [text, cons_append, append_assoc, nil_append, readValue_object, skipBlanks_lineBreak,
      if_neg (hopen _), readMember_lineBreak, hmember, Option.bind_eq_bind, Option.bind_some,
      hmembers]

theorem readItems_itemsText {bound : Nat} (depth outer : Nat) (items : List Json)
    (rest : List Char) (hbound : (itemsText depth items).length < bound) :
    readItems bound (itemsText depth items ++ (lineBreak outer ++ ']' :: rest)) =
      some (items, rest) := by
  obtain ⟨bound, rfl⟩ : ∃ n, bound = n + 1 := ⟨bound - 1, by omega⟩
  match items with
  | [] =>
    rw [itemsText, nil_append, readItems, skipBlanks_lineBreak, skipBlanks_cons rfl]
    rfl
  | item :: items =>
    have hlength : (item.text depth).length ≤ bound ∧ (itemsText depth items).length < bound := by
      simp only [itemsText, length_append, length_cons] at hbound
      omega
    have hitem := readValue_text depth item hlength.1
      (ends_itemsText depth outer items (']' :: rest))
    have hitems := readItems_itemsText depth outer items rest hlength.2
    simp only [itemsText, cons_append, append_assoc, readItems_comma, readValue_lineBreak, hitem,
      Option.bind_eq_bind, Option.bind_some, hitems]

theorem readMembers_membersText {bound : Nat} (depth outer : Nat) (members : List (String × Json))
    (rest : List Char) (hbound : (membersText depth members).length < bound) :
    readMembers bound (membersText depth members ++ (lineBreak outer ++ '}' :: rest)) =
      some (members, rest) := by
  obtain ⟨bound, rfl⟩ : ∃ n, bound = n + 1 := ⟨bound - 1, by omega⟩
  match members with
  | [] =>
    rw [membersText, nil_append, readMembers, skipBlanks_lineBreak, skipBlanks_cons rfl]
    rfl
  | (name, value) :: members =>
    have hlength : (value.text depth).length ≤ bound ∧
        (membersText depth members).length < bound := by
      simp only [membersText, length_append, length_cons] at hbound
      omega
    have hmember := readMember_text name (readValue_text depth value hlength.1
      (ends_membersText depth outer members ('}' :: rest)))
    have hmembers := readMembers_membersText depth outer members rest hlength.2
    simp only [membersText, cons_append, append_assoc, readMembers_comma, readMember_lineBreak,
      hmember, Option.bind_eq_bind, Option.bind_some, hmembers]

end

/-- The document of a value is read as that value. -/
theorem ofText?_document (value : Json) : ofText? value.document = some value := by
  have hread : readValue (value.text 0).length (value.text 0 ++ []) = some (value, []) :=
    readValue_text 0 value (Nat.le_refl _) (by rintro c ⟨⟩)
  rw [append_nil] at hread
  rw [ofText?, document, String.toList_ofList, hread]
  rfl

/-- A document may have other blanks and escapes. -/
example : ofText? " [null , \"\\uD83D\\ude00\\/\", 10]" =
    some (.array [.null, .string "😀/", .number 10]) := rfl

/-! ## Characters -/

/-- All characters are in the first half of the eight-bit range. -/
def IsAscii (cs : List Char) : Prop :=
  ∀ c ∈ cs, c.toNat < 128

theorem isAscii_nil : IsAscii [] := by
  simp [IsAscii]

theorem isAscii_cons {c : Char} {cs : List Char} :
    IsAscii (c :: cs) ↔ c.toNat < 128 ∧ IsAscii cs := by
  simp [IsAscii]

theorem isAscii_append {cs ds : List Char} : IsAscii (cs ++ ds) ↔ IsAscii cs ∧ IsAscii ds := by
  simp [IsAscii, or_imp, forall_and]

theorem isAscii_toDigits {base : Nat} (hlow : 1 < base) (hhigh : base ≤ 16) (n : Nat) :
    IsAscii (Nat.toDigits base n) := by
  have hdigit : ∀ n < 16, n.digitChar.toNat < 128 := by decide
  induction n using Nat.strongRecOn with
  | ind n ih =>
    by_cases hn : n < base
    · rw [Nat.toDigits_of_lt_base hn, isAscii_cons]
      exact ⟨hdigit n (by omega), isAscii_nil⟩
    · have hmod : n % base < 16 := by
        have := Nat.mod_lt n (by omega : base > 0)
        omega
      rw [Nat.toDigits_of_base_le hlow (by omega), isAscii_append, isAscii_cons]
      exact ⟨ih (n / base) (Nat.div_lt_self (by omega) hlow), hdigit _ hmod, isAscii_nil⟩

theorem isAscii_unitEscape (unit : Nat) : IsAscii (unitEscape unit) := by
  have hnoughts (count : Nat) : IsAscii (replicate count '0') := by
    intro c hc
    rw [eq_of_mem_replicate hc]
    decide
  simp only [unitEscape, Text.hexDigits, isAscii_cons, isAscii_append]
  exact ⟨by decide, by decide, hnoughts _, isAscii_toDigits (by omega) (by omega) unit⟩

theorem isAscii_escaped (c : Char) : IsAscii (escaped c) := by
  have hshort {d : Char} (h : d.toNat < 128) : IsAscii ['\\', d] :=
    isAscii_cons.mpr ⟨by decide, isAscii_cons.mpr ⟨h, isAscii_nil⟩⟩
  unfold escaped
  split_ifs with _ _ _ _ _ _ _ hprintable
  iterate 7 exact hshort (by decide)
  · exact isAscii_cons.mpr ⟨by omega, isAscii_nil⟩
  · exact isAscii_unitEscape _
  · exact isAscii_append.mpr ⟨isAscii_unitEscape _, isAscii_unitEscape _⟩

theorem isAscii_stringText (s : String) : IsAscii (stringText s) := by
  have hescaped : IsAscii (s.toList.flatMap escaped) := by
    intro c hc
    obtain ⟨d, _, hc⟩ := mem_flatMap.mp hc
    exact isAscii_escaped d c hc
  simp only [stringText, isAscii_cons, isAscii_append]
  exact ⟨⟨by decide, hescaped⟩, by decide, isAscii_nil⟩

theorem isAscii_lineBreak (depth : Nat) : IsAscii (lineBreak depth) := by
  refine isAscii_cons.mpr ⟨by decide, fun c hc => ?_⟩
  rw [eq_of_mem_replicate hc]
  decide

mutual

theorem isAscii_text (depth : Nat) (value : Json) : IsAscii (value.text depth) := by
  match value with
  | .null | .bool true | .bool false | .array [] | .object [] => simp [text, IsAscii]
  | .number n => exact isAscii_toDigits (by omega) (by omega) n
  | .string s => exact isAscii_stringText s
  | .array (item :: items) =>
    have hitem := isAscii_text (depth + 1) item
    have hitems := isAscii_itemsText (depth + 1) items
    simp [text, isAscii_cons, isAscii_append, isAscii_lineBreak, isAscii_nil, hitem, hitems]
  | .object ((name, value) :: members) =>
    have hvalue := isAscii_text (depth + 1) value
    have hmembers := isAscii_membersText (depth + 1) members
    simp [text, isAscii_cons, isAscii_append, isAscii_lineBreak, isAscii_nil, isAscii_stringText,
      hvalue, hmembers]

theorem isAscii_itemsText (depth : Nat) (items : List Json) : IsAscii (itemsText depth items) := by
  match items with
  | [] => exact isAscii_nil
  | item :: items =>
    have hitem := isAscii_text depth item
    have hitems := isAscii_itemsText depth items
    simp [itemsText, isAscii_cons, isAscii_append, isAscii_lineBreak, hitem, hitems]

theorem isAscii_membersText (depth : Nat) (members : List (String × Json)) :
    IsAscii (membersText depth members) := by
  match members with
  | [] => exact isAscii_nil
  | (name, value) :: members =>
    have hvalue := isAscii_text depth value
    have hmembers := isAscii_membersText depth members
    simp [membersText, isAscii_cons, isAscii_append, isAscii_lineBreak, isAscii_stringText, hvalue,
      hmembers]

end

theorem isAscii_document (value : Json) : IsAscii value.document.toList := by
  rw [document, String.toList_ofList]
  exact isAscii_text 0 value

end OverrideElision.Json
