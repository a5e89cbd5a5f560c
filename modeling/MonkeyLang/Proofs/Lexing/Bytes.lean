import MonkeyLang.Proofs.Lexing.Tokens

namespace MonkeyLang

/-- The bytes of a text. -/
def bytesOf (source : String) : List UInt8 := source.toByteArray.data.toList

/-- The bytes of characters. -/
def utf8 (cs : List Char) : List UInt8 := cs.flatMap String.utf8EncodeChar

theorem utf8_cons (c : Char) (cs : List Char) :
    utf8 (c :: cs) = String.utf8EncodeChar c ++ utf8 cs := rfl

theorem utf8_append (xs ys : List Char) : utf8 (xs ++ ys) = utf8 xs ++ utf8 ys :=
  List.flatMap_append

theorem length_utf8 (cs : List Char) : (utf8 cs).length = byteLength cs := by
  induction cs with
  | nil => rfl
  | cons c cs ih => rw [utf8_cons, List.length_append, String.length_utf8EncodeChar, ih, byteLength]

theorem toList_utf8Encode (cs : List Char) : cs.utf8Encode.data.toList = utf8 cs :=
  List.toList_data_toByteArray

theorem bytesOf_eq (source : String) : bytesOf source = utf8 source.toList := by
  rw [bytesOf, ← String.utf8Encode_toList, toList_utf8Encode]

theorem length_bytesOf (source : String) : (bytesOf source).length = source.utf8ByteSize :=
  String.size_toByteArray

theorem utf8ByteSize_ofList (cs : List Char) : (String.ofList cs).utf8ByteSize = byteLength cs := by
  rw [← length_bytesOf, bytesOf_eq, String.toList_ofList, length_utf8]

theorem utf8ByteSize_eq (source : String) : source.utf8ByteSize = byteLength source.toList := by
  rw [← utf8ByteSize_ofList, String.ofList_toList]

theorem toNat_lt_of_size {c : Char} (h : c.utf8Size = 1) : c.toNat < 128 := by
  have hle := UInt32.le_iff_toNat_le.mp (Char.utf8Size_eq_one_iff.mp h)
  exact Nat.lt_of_le_of_lt hle (by decide)

theorem size_of_toNat_lt {c : Char} (h : c.toNat < 128) : c.utf8Size = 1 :=
  Char.utf8Size_eq_one_iff.mpr (UInt32.le_iff_toNat_le.mpr (Nat.le_of_lt_succ h))

theorem utf8EncodeChar_ascii {c : Char} (h : c.toNat < 128) :
    String.utf8EncodeChar c = [c.val.toUInt8] ∧ Char.ofUInt8 c.val.toUInt8 = c := by
  refine ⟨String.utf8EncodeChar_eq_singleton (size_of_toNat_lt h), ?_⟩
  have hval : c.val.toUInt8.toNat = c.val.toNat := by
    rw [UInt32.toNat_toUInt8]
    exact Nat.mod_eq_of_lt (Nat.lt_trans h (by decide))
  apply Char.ext
  apply UInt32.toNat_inj.mp
  exact (UInt8.toNat_toUInt32 _).trans hval

theorem le_of_mem_utf8EncodeChar {c : Char} (h : 128 ≤ c.toNat) :
    ∀ b ∈ String.utf8EncodeChar c, 128 ≤ b.toNat := by
  have hor : ∀ x y : UInt8, 128 ≤ y.toNat → 128 ≤ (x ||| y).toNat := by
    intro x y hy
    rw [UInt8.toNat_or]
    exact Nat.le_trans hy Nat.right_le_or
  intro b hb
  rcases Char.utf8Size_eq c with hs | hs | hs | hs
  · exact absurd (toNat_lt_of_size hs) (Nat.not_lt.mpr h)
  · rw [String.utf8EncodeChar_eq_cons_cons hs] at hb
    simp only [List.mem_cons, List.not_mem_nil, or_false] at hb
    rcases hb with rfl | rfl <;> exact hor _ _ (by decide)
  · rw [String.utf8EncodeChar_eq_cons_cons_cons hs] at hb
    simp only [List.mem_cons, List.not_mem_nil, or_false] at hb
    rcases hb with rfl | rfl | rfl <;> exact hor _ _ (by decide)
  · rw [String.utf8EncodeChar_eq_cons_cons_cons_cons hs] at hb
    simp only [List.mem_cons, List.not_mem_nil, or_false] at hb
    rcases hb with rfl | rfl | rfl | rfl <;> exact hor _ _ (by decide)

theorem toNat_ofUInt8 (b : UInt8) : (Char.ofUInt8 b).toNat = b.toNat := UInt8.toNat_toUInt32 b

theorem ofUInt8_injective {b b' : UInt8} (h : Char.ofUInt8 b = Char.ofUInt8 b') : b = b' := by
  have hnat := congrArg Char.toNat h
  rw [toNat_ofUInt8, toNat_ofUInt8] at hnat
  exact UInt8.toNat_inj.mp hnat

def IsBlankByte (b : UInt8) : Prop :=
  b = ' '.toUInt8 ∨ b = '\t'.toUInt8 ∨ b = '\n'.toUInt8 ∨ b = '\r'.toUInt8

def IsLetterByte (b : UInt8) : Prop :=
  'A'.toUInt8 ≤ b ∧ b ≤ 'Z'.toUInt8 ∨ 'a'.toUInt8 ≤ b ∧ b ≤ 'z'.toUInt8 ∨ b = '_'.toUInt8

def IsDigitByte (b : UInt8) : Prop := '0'.toUInt8 ≤ b ∧ b ≤ '9'.toUInt8

instance (b : UInt8) : Decidable (IsLetterByte b) := inferInstanceAs (Decidable (_ ∨ _))

instance (b : UInt8) : Decidable (IsDigitByte b) := inferInstanceAs (Decidable (_ ∧ _))

section
variable {b : UInt8} {c : Char}

theorem ofUInt8_eq (hc : c.toNat < 128) : Char.ofUInt8 b = c ↔ b = c.toUInt8 := by
  have hchar : Char.ofUInt8 c.toUInt8 = c := (utf8EncodeChar_ascii hc).2
  constructor
  · exact fun h => ofUInt8_injective (h.trans hchar.symm)
  · rintro rfl
    exact hchar

theorem le_ofUInt8 (hc : c.toNat < 128) :
    (c ≤ Char.ofUInt8 b ↔ c.toUInt8 ≤ b) ∧ (Char.ofUInt8 b ≤ c ↔ b ≤ c.toUInt8) := by
  have hchar : Char.ofUInt8 c.toUInt8 = c := (utf8EncodeChar_ascii hc).2
  have hle : ∀ x y : UInt8, Char.ofUInt8 x ≤ Char.ofUInt8 y ↔ x ≤ y := by
    intro x y
    rw [UInt8.le_iff_toNat_le, ← toNat_ofUInt8, ← toNat_ofUInt8]
    exact UInt32.le_iff_toNat_le
  rw [← hle, ← hle, hchar]
  exact ⟨Iff.rfl, Iff.rfl⟩

theorem isBlank_ofUInt8 : isBlank (Char.ofUInt8 b) ↔ IsBlankByte b := by
  simp only [isBlank, IsBlankByte, Bool.or_eq_true, beq_iff_eq, or_assoc]
  rw [ofUInt8_eq (by decide), ofUInt8_eq (by decide), ofUInt8_eq (by decide),
    ofUInt8_eq (by decide)]

theorem isDigit_ofUInt8 : (Char.ofUInt8 b).isDigit ↔ IsDigitByte b := by
  rw [IsDigitByte, ← (le_ofUInt8 (by decide)).1, ← (le_ofUInt8 (by decide)).2]
  simp [Char.isDigit, Char.le_def]

theorem isLetter_ofUInt8 : isLetter (Char.ofUInt8 b) ↔ IsLetterByte b := by
  rw [isLetter_iff, IsLetterByte, ← (le_ofUInt8 (by decide)).1, ← (le_ofUInt8 (by decide)).2,
    ← (le_ofUInt8 (by decide)).1, ← (le_ofUInt8 (by decide)).2, ← ofUInt8_eq (by decide)]

end

/-- A class of characters that all those outside ASCII are in, or none of them. -/
def Uniform (p : Char → Bool) : Prop := ∀ c : Char, 128 ≤ c.toNat → p c = p '\u0080'

section
variable {p : Char → Bool}

/-- What is in a class that leaves out a character outside ASCII is of ASCII. -/
theorem Uniform.ascii (h : Uniform p) (hp : p '\u0080' = false) {c : Char} (hc : p c) :
    c.toNat < 128 := by
  refine Nat.lt_of_not_le fun hle => ?_
  rw [h c hle, hp] at hc
  cases hc

/-- Every byte of a character shows its class. -/
theorem Uniform.byte (h : Uniform p) (c : Char) :
    ∀ b ∈ String.utf8EncodeChar c, p (Char.ofUInt8 b) = p c := by
  intro b hb
  by_cases hc : c.toNat < 128
  · obtain ⟨hbytes, hchar⟩ := utf8EncodeChar_ascii hc
    rw [hbytes, List.mem_singleton] at hb
    rw [hb, hchar]
  · have hle := Nat.le_of_not_lt hc
    have hb' := le_of_mem_utf8EncodeChar hle b hb
    rw [h c hle, h (Char.ofUInt8 b) (by rwa [toNat_ofUInt8])]

/-- The bytes of a class are those of the characters of the class. -/
theorem Uniform.takeWhile (h : Uniform p) (cs : List Char) :
    ((utf8 cs).takeWhile fun b => p (Char.ofUInt8 b)) = utf8 (cs.takeWhile p) := by
  induction cs with
  | nil => rfl
  | cons c cs ih =>
    have hbyte := h.byte c
    rw [utf8_cons]
    by_cases hc : p c = true
    · rw [List.takeWhile_append_of_pos fun b hb => (hbyte b hb).trans hc, ih,
        List.takeWhile_cons_of_pos hc, utf8_cons]
    · obtain ⟨b, bs, hbs⟩ := List.exists_cons_of_ne_nil (String.utf8EncodeChar_ne_nil (c := c))
      have hb : ¬p (Char.ofUInt8 b) = true := by
        rw [hbyte b (by simp [hbs])]
        exact hc
      have hnone : (b :: (bs ++ utf8 cs)).takeWhile (fun b => p (Char.ofUInt8 b)) = [] :=
        List.takeWhile_cons_of_neg hb
      rw [hbs, List.cons_append, hnone, List.takeWhile_cons_of_neg hc]
      rfl

end

theorem isBlank_uniform : Uniform isBlank := by
  intro c hc
  cases hb : isBlank c with
  | false => rfl
  | true =>
    simp only [isBlank, Bool.or_eq_true, beq_iff_eq] at hb
    rcases hb with ((rfl | rfl) | rfl) | rfl <;> exact absurd hc (by decide)

theorem isDigit_uniform : Uniform Char.isDigit := by
  intro c hc
  cases hd : c.isDigit with
  | false => rfl
  | true =>
    have hnat := Char.isDigit_iff_toNat.mp hd
    have hnine : '9'.toNat = 57 := rfl
    omega

theorem isLetter_uniform : Uniform isLetter := by
  intro c hc
  have hne : c ≠ '_' := by
    rintro rfl
    exact absurd hc (by decide)
  have hZ : 'Z'.toNat = 90 := rfl
  have hz : 'z'.toNat = 122 := rfl
  have hpad : isLetter '\u0080' = false := by decide
  rw [hpad]
  simp only [← Bool.not_eq_true, isLetter_iff, char_le_iff, hne, or_false]
  omega

theorem notQuote_uniform : Uniform (· != '"') := by
  intro c hc
  have hne : c ≠ '"' := by
    rintro rfl
    exact absurd hc (by decide)
  simpa using hne

/-- The text between two places, counted in bytes. There is none if one of them is not between two
characters. -/
def slice? (source : String) (start stop : Nat) : Option String :=
  if h : (⟨start⟩ : String.Pos.Raw).IsValid source ∧ (⟨stop⟩ : String.Pos.Raw).IsValid source ∧
      start ≤ stop then
    some (String.extract (source.pos ⟨start⟩ h.1) (source.pos ⟨stop⟩ h.2.1))
  else none

theorem isValid_byteLength {source : String} {front behind : List Char}
    (h : source.toList = front ++ behind) :
    (⟨byteLength front⟩ : String.Pos.Raw).IsValid source := by
  apply String.Pos.Raw.isValid_iff_exists_append.mpr
  refine ⟨String.ofList front, String.ofList behind, ?_, ?_⟩
  · rw [← String.ofList_append, ← h, String.ofList_toList]
  · rw [String.Pos.Raw.ext_iff]
    exact (utf8ByteSize_ofList front).symm

/-- A text can be cut between characters. -/
theorem slice_eq {source : String} {front text behind : List Char}
    (h : source.toList = front ++ text ++ behind) :
    slice? source (byteLength front) (byteLength front + byteLength text) =
      some (String.ofList text) := by
  have hstart : (⟨byteLength front⟩ : String.Pos.Raw).IsValid source :=
    isValid_byteLength (h.trans (List.append_assoc _ _ _))
  have hstop : (⟨byteLength front + byteLength text⟩ : String.Pos.Raw).IsValid source := by
    rw [← byteLength_append]
    exact isValid_byteLength h
  unfold slice?
  rw [dif_pos ⟨hstart, hstop, Nat.le_add_right _ _⟩, Option.some.injEq, ← String.toByteArray_inj]
  apply ByteArray.ext
  apply Array.toList_inj.mp
  change (source.toByteArray.extract (byteLength front)
    (byteLength front + byteLength text)).data.toList = _
  have hbytes : source.toByteArray.data.toList = utf8 front ++ (utf8 text ++ utf8 behind) := by
    rw [← utf8_append, ← utf8_append, ← List.append_assoc, ← h]
    exact bytesOf_eq source
  rw [ByteArray.data_extract, Array.toList_extract, List.extract_eq_take_drop, hbytes,
    ← length_utf8, List.drop_left, Nat.add_sub_cancel_left, ← length_utf8, List.take_left,
    String.toByteArray_ofList, toList_utf8Encode]

end MonkeyLang
