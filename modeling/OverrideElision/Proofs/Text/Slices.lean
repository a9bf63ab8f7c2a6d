import OverrideElision.Text.Utf8

/-! # Reading back what was written

A text written as UTF-8 reads as itself, and so does every piece of it that starts and stops between
two characters. -/

namespace OverrideElision.Text

/-! ## Characters -/

@[simp]
theorem continueChar_done (low high bits : Nat) (rest : List UInt8) :
    continueChar 0 low high bits rest = (Char.ofNat bits, rest) := by
  cases rest <;> simp [continueChar]

theorem continueChar_cons {following low high bits b : Nat} (rest : List UInt8)
    (hlow : low ≤ b) (hhigh : b ≤ high) (hbyte : b < 256) :
    continueChar (following + 1) low high bits (UInt8.ofNat b :: rest) =
      continueChar following 0x80 0xBF (bits * 0x40 + b % 0x40) rest := by
  have hb : (UInt8.ofNat b).toNat = b := by simp [hbyte]
  simp [continueChar, hb, hlow, hhigh]

theorem decodeUtf8_lead {b following low high bits : Nat} (rest : List UInt8)
    (hlead : leadByte? b = some ⟨following, low, high, bits⟩) (hhigh : 0x80 ≤ b)
    (hbyte : b < 256) :
    decodeUtf8 (UInt8.ofNat b :: rest) =
      (continueChar following low high bits rest).1 ::
        decodeUtf8 (continueChar following low high bits rest).2 := by
  have hb : (UInt8.ofNat b).toNat = b := by simp [hbyte]
  rw [decodeUtf8, hb, if_neg (by omega), hlead]

/-- The first of two bytes. -/
theorem leadByte?_two {v : Nat} (hlow : 0x80 ≤ v) (hhigh : v < 0x800) :
    leadByte? (v / 64 % 32 + 192) = some ⟨1, 0x80, 0xBF, v / 64⟩ := by
  have hbits : (v / 64 % 32 + 192) % 0x20 = v / 64 := by omega
  unfold leadByte?
  rw [if_pos (by omega), hbits]

/-- The first of three bytes, and the range that it leaves to the second: surrogates are no code
points, and smaller ones have two bytes. -/
theorem leadByte?_three {v : Nat} (hlow : 0x800 ≤ v) (hhigh : v < 0x10000)
    (hchar : v < 0xD800 ∨ 0xE000 ≤ v) :
    ∃ low high, leadByte? (v / 4096 % 16 + 224) = some ⟨2, low, high, v / 4096⟩ ∧
      low ≤ v / 64 % 64 + 128 ∧ v / 64 % 64 + 128 ≤ high := by
  unfold leadByte?
  rw [if_neg (by omega)]
  by_cases hE0 : v / 4096 = 0
  · refine ⟨0xA0, 0xBF, ?_, by omega, by omega⟩
    rw [if_pos (by omega), hE0]
  rw [if_neg (by omega)]
  by_cases hED : v / 4096 = 13
  · refine ⟨0x80, 0x9F, ?_, by omega, by omega⟩
    rw [if_pos (by omega), hED]
  have hbits : (v / 4096 % 16 + 224) % 0x10 = v / 4096 := by omega
  refine ⟨0x80, 0xBF, ?_, by omega, by omega⟩
  rw [if_neg (by omega), if_pos (by omega), hbits]

/-- The first of four bytes, and the range that it leaves to the second. -/
theorem leadByte?_four {v : Nat} (hlow : 0x10000 ≤ v) (hhigh : v < 0x110000) :
    ∃ low high, leadByte? (v / 262144 % 8 + 240) = some ⟨3, low, high, v / 262144⟩ ∧
      low ≤ v / 4096 % 64 + 128 ∧ v / 4096 % 64 + 128 ≤ high := by
  unfold leadByte?
  rw [if_neg (by omega), if_neg (by omega), if_neg (by omega), if_neg (by omega)]
  by_cases hF0 : v / 262144 = 0
  · refine ⟨0x90, 0xBF, ?_, by omega, by omega⟩
    rw [if_pos (by omega), hF0]
  rw [if_neg (by omega)]
  by_cases hF4 : v / 262144 = 4
  · refine ⟨0x80, 0x8F, ?_, by omega, by omega⟩
    rw [if_neg (by omega), if_pos (by omega), hF4]
  have hbits : (v / 262144 % 8 + 240) % 8 = v / 262144 := by omega
  refine ⟨0x80, 0xBF, ?_, by omega, by omega⟩
  rw [if_pos (by omega), hbits]

/-- A code point is neither a surrogate nor beyond the last one. -/
theorem toNat_char_cases (c : Char) :
    c.val.toNat < 0x110000 ∧ (c.val.toNat < 0xD800 ∨ 0xE000 ≤ c.val.toNat) := by
  have hvalid : c.val.toNat.isValidChar := c.valid
  unfold Nat.isValidChar at hvalid
  omega

/-- The bytes of a character are read as this character. -/
theorem decodeUtf8_encodeChar (c : Char) (rest : List UInt8) :
    decodeUtf8 (String.utf8EncodeChar c ++ rest) = c :: decodeUtf8 rest := by
  obtain ⟨hlast, hchar⟩ := toNat_char_cases c
  have hread : ∀ n, n = c.val.toNat → Char.ofNat n = c := by
    intro n hn
    rw [hn]
    exact Char.ofNat_toNat c
  unfold String.utf8EncodeChar
  dsimp only
  generalize c.val.toNat = v at hlast hchar hread ⊢
  -- One case for each number of bytes.
  split
  · have hb : (UInt8.ofNat v).toNat = v := by simp; omega
    rw [List.singleton_append, decodeUtf8, hb, if_pos (by omega), hread v rfl]
  split
  · have hlead := leadByte?_two (v := v) (by omega) (by omega)
    simp only [List.cons_append, List.nil_append]
    rw [decodeUtf8_lead _ hlead (by omega) (by omega),
      continueChar_cons _ (by omega) (by omega) (by omega), continueChar_done,
      hread _ (by omega)]
  split
  · obtain ⟨low, high, hlead, hlow, hhigh⟩ := leadByte?_three (v := v) (by omega) (by omega) hchar
    simp only [List.cons_append, List.nil_append]
    rw [decodeUtf8_lead _ hlead (by omega) (by omega), continueChar_cons _ hlow hhigh (by omega),
      continueChar_cons _ (by omega) (by omega) (by omega), continueChar_done,
      hread _ (by omega)]
  · obtain ⟨low, high, hlead, hlow, hhigh⟩ := leadByte?_four (v := v) (by omega) hlast
    simp only [List.cons_append, List.nil_append]
    rw [decodeUtf8_lead _ hlead (by omega) (by omega), continueChar_cons _ hlow hhigh (by omega),
      continueChar_cons _ (by omega) (by omega) (by omega),
      continueChar_cons _ (by omega) (by omega) (by omega), continueChar_done,
      hread _ (by omega)]

theorem decodeUtf8_flatMap_encodeChar (cs : List Char) :
    decodeUtf8 (cs.flatMap String.utf8EncodeChar) = cs := by
  induction cs with
  | nil => rw [List.flatMap_nil, decodeUtf8]
  | cons c cs ih => rw [List.flatMap_cons, decodeUtf8_encodeChar, ih]

/-! ## Bytes -/

theorem toList_loop_eq (bytes : ByteArray) (i : Nat) (read : List UInt8) :
    ByteArray.toList.loop bytes i read = read.reverse ++ bytes.data.toList.drop i := by
  fun_induction ByteArray.toList.loop bytes i read with
  | case1 i read h ih =>
    have hi : i < bytes.data.toList.length := by simpa using h
    rw [ih, List.drop_eq_getElem_cons hi]
    simp [ByteArray.get!, h]
  | case2 i read h =>
    rw [List.drop_eq_nil_of_le (by simpa using Nat.le_of_not_lt h), List.append_nil]

theorem toList_eq_data (bytes : ByteArray) : bytes.toList = bytes.data.toList := by
  simp [ByteArray.toList, toList_loop_eq]

/-- The bytes of a text are those of its characters. -/
theorem toList_toUTF8 (text : String) :
    text.toUTF8.toList = text.toList.flatMap String.utf8EncodeChar := by
  have hbytes : text.toUTF8 = text.toList.utf8Encode := by
    rw [String.toUTF8_eq_toByteArray, ← String.toByteArray_ofList, String.ofList_toList]
  rw [hbytes, List.utf8Encode, toList_eq_data, List.toList_data_toByteArray]

/-! ## Pieces -/

/-- Between two characters of a text. -/
def IsBoundary (text : String) (i : Nat) : Prop := String.Pos.Raw.IsValid text ⟨i⟩

instance (text : String) (i : Nat) : Decidable (IsBoundary text i) :=
  inferInstanceAs (Decidable (String.Pos.Raw.IsValid text ⟨i⟩))

theorem isBoundary_iff {text : String} {i : Nat} :
    IsBoundary text i ↔ ∃ front back, text = front ++ back ∧ i = front.utf8ByteSize := by
  unfold IsBoundary
  rw [String.Pos.Raw.isValid_iff_exists_append]
  simp [String.Pos.Raw.ext_iff]

theorem IsBoundary.le {text : String} {i : Nat} (h : IsBoundary text i) :
    i ≤ text.utf8ByteSize := by
  obtain ⟨front, back, rfl, rfl⟩ := isBoundary_iff.mp h
  rw [String.utf8ByteSize_append]
  exact Nat.le_add_right _ _

/-- Of two beginnings of a text the shorter one begins the other. -/
theorem exists_append_of_size_le {front back front' back' : String}
    (h : front ++ back = front' ++ back') (hsize : front.utf8ByteSize ≤ front'.utf8ByteSize) :
    ∃ piece, front' = front ++ piece := by
  have hchars : front.toList ++ back.toList = front'.toList ++ back'.toList := by
    rw [← String.toList_append, h, String.toList_append]
  rcases List.append_eq_append_iff.mp hchars with ⟨cs, hcs, _⟩ | ⟨cs, hcs, _⟩
  · refine ⟨String.ofList cs, String.toList_inj.mp ?_⟩
    rw [hcs, String.toList_append, String.toList_ofList]
  · have hfront : front = front' ++ String.ofList cs := by
      rw [← String.toList_inj, hcs, String.toList_append, String.toList_ofList]
    have hempty : String.ofList cs = "" := by
      rw [← String.utf8ByteSize_eq_zero_iff]
      rw [hfront, String.utf8ByteSize_append] at hsize
      omega
    exact ⟨"", by rw [hfront, hempty, String.append_empty, String.append_empty]⟩

theorem eq_of_append_eq {front back front' back' : String} (h : front ++ back = front' ++ back')
    (hsize : front.utf8ByteSize = front'.utf8ByteSize) : front' = front := by
  obtain ⟨piece, hpiece⟩ := exists_append_of_size_le h (Nat.le_of_eq hsize)
  have hempty : piece = "" := by
    rw [← String.utf8ByteSize_eq_zero_iff]
    rw [hpiece, String.utf8ByteSize_append] at hsize
    omega
  rw [hpiece, hempty, String.append_empty]

/-- What lies between two boundaries. -/
theorem exists_piece {text : String} {i j : Nat} (hi : IsBoundary text i) (hj : IsBoundary text j)
    (hij : i ≤ j) :
    ∃ front piece back, text = front ++ piece ++ back ∧ i = front.utf8ByteSize ∧
      j = front.utf8ByteSize + piece.utf8ByteSize := by
  obtain ⟨front, back, rfl, rfl⟩ := isBoundary_iff.mp hi
  obtain ⟨front', back', h, rfl⟩ := isBoundary_iff.mp hj
  obtain ⟨piece, rfl⟩ := exists_append_of_size_le h hij
  exact ⟨front, piece, back', h, rfl, String.utf8ByteSize_append⟩

/-- A piece of a text is cut out of its bytes as it stands. -/
theorem sliceUtf8_append (front piece back : String) :
    sliceUtf8 (front ++ piece ++ back).toUTF8 front.utf8ByteSize
      (front.utf8ByteSize + piece.utf8ByteSize) = piece := by
  have hbytes : (front ++ piece ++ back).toUTF8.extract front.utf8ByteSize
      (front.utf8ByteSize + piece.utf8ByteSize) = piece.toUTF8 := by
    simp only [String.toUTF8_eq_toByteArray, String.toByteArray_append,
      ← String.size_toByteArray]
    rw [ByteArray.extract_append, ByteArray.extract_append_eq_right rfl rfl, ByteArray.size_append]
    simp
  rw [sliceUtf8, hbytes, toList_toUTF8, decodeUtf8_flatMap_encodeChar, String.ofList_toList]

theorem sliceUtf8_ne_empty {text : String} {i j : Nat} (hi : IsBoundary text i)
    (hj : IsBoundary text j) (hij : i < j) : sliceUtf8 text.toUTF8 i j ≠ "" := by
  obtain ⟨front, piece, back, rfl, rfl, rfl⟩ := exists_piece hi hj (Nat.le_of_lt hij)
  rw [sliceUtf8_append]
  rintro rfl
  simp at hij

theorem sliceUtf8_whole (text : String) :
    sliceUtf8 text.toUTF8 0 text.utf8ByteSize = text := by
  simpa using sliceUtf8_append "" text ""

/-- Two pieces that meet make one. -/
theorem sliceUtf8_join {text : String} {i j k : Nat} (hi : IsBoundary text i)
    (hj : IsBoundary text j) (hk : IsBoundary text k) (hij : i ≤ j) (hjk : j ≤ k) :
    sliceUtf8 text.toUTF8 i j ++ sliceUtf8 text.toUTF8 j k = sliceUtf8 text.toUTF8 i k := by
  obtain ⟨front, first, back, rfl, rfl, rfl⟩ := exists_piece hi hj hij
  obtain ⟨front', second, back', h, hfront, rfl⟩ := exists_piece hj hk hjk
  have hsize : (front ++ first).utf8ByteSize = front'.utf8ByteSize := by
    rw [String.utf8ByteSize_append, hfront]
  obtain rfl : front' = front ++ first := eq_of_append_eq (h.trans String.append_assoc) hsize
  have hboth := sliceUtf8_append front (first ++ second) back'
  rw [← String.append_assoc, ← h, String.utf8ByteSize_append, ← Nat.add_assoc, hfront] at hboth
  rw [hboth, sliceUtf8_append front first back, h, hfront, sliceUtf8_append (front ++ first)]

/-- The text consists of the pieces, in their order, and of what stands between them. -/
inductive Interspersed : List String → String → Prop where
  | rest (text : String) : Interspersed [] text
  | piece (gap piece : String) {pieces : List String} {text : String} :
      Interspersed pieces text → Interspersed (piece :: pieces) (gap ++ piece ++ text)

/-- What lies between two places, each of them a boundary and the second not before the first. -/
structure IsSpan (text : String) (span : Nat × Nat) : Prop where
  start : IsBoundary text span.1
  stop : IsBoundary text span.2
  le : span.1 ≤ span.2

theorem isSpan_whole (text : String) : IsSpan text (0, text.utf8ByteSize) where
  start := isBoundary_iff.mpr ⟨"", text, by simp, by simp⟩
  stop := isBoundary_iff.mpr ⟨text, "", by simp, rfl⟩
  le := Nat.zero_le _

/-- Spans one after the other cut their pieces out of the text around them. -/
theorem Interspersed.of_spans {text : String} {spans : List (Nat × Nat)} {i k : Nat}
    (hwhole : IsSpan text (i, k)) (hspans : ∀ span ∈ spans, IsSpan text span)
    (hinside : ∀ span ∈ spans, i ≤ span.1 ∧ span.2 ≤ k)
    (hafter : spans.Pairwise fun first second => first.2 ≤ second.1) :
    Interspersed (spans.map fun span => sliceUtf8 text.toUTF8 span.1 span.2)
      (sliceUtf8 text.toUTF8 i k) := by
  induction spans generalizing i with
  | nil => exact .rest _
  | cons span spans ih =>
    obtain ⟨hspan, hspans⟩ := List.forall_mem_cons.mp hspans
    obtain ⟨⟨hstart, hstop⟩, hinside⟩ := List.forall_mem_cons.mp hinside
    obtain ⟨hnext, hafter⟩ := List.pairwise_cons.mp hafter
    have hrest : IsSpan text (span.2, k) := ⟨hspan.stop, hwhole.stop, hstop⟩
    have hpieces := ih hrest hspans (fun next h => ⟨hnext next h, (hinside next h).2⟩) hafter
    rw [← sliceUtf8_join hwhole.start hspan.start hwhole.stop hstart (Nat.le_trans hspan.le hstop),
      ← sliceUtf8_join hspan.start hspan.stop hwhole.stop hspan.le hstop, ← String.append_assoc]
    exact .piece _ _ hpieces

end OverrideElision.Text
