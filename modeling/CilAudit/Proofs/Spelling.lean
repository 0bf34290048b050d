import CilAudit.Proofs.Reading
import CilAudit.Resource.Name
import CilAudit.Resource.Value

/-!
# Texts are read back as they were spelled

Both spellings of a text are taken apart one character at a time, so both
inverses rest on one lemma about the front of the input: `decodeFrom` undoes
the bytes of a character and `chars?` undoes its units, whatever follows. That
a character is never a surrogate is what keeps the narrowed second byte after
`ED` and the lone halves of UTF-16 out of the way.

The length in front of a text is exact only while it fits its field. Hence the
bound in `takes_readText` and `takes_readName`, which a writer has to earn.
-/

namespace CilAudit

/-- A character is a code point outside the surrogates. -/
theorem toNat_char_range (c : Char) :
    c.toNat < 0xD800 ∨ 0xDFFF < c.toNat ∧ c.toNat < 0x110000 := c.valid

/-! ## UTF-8 -/

namespace Utf8

theorem width?_eq_one {b : UInt8} (h : b.toNat < 0x80) : width? b = some 1 := by
  simp [width?, UInt8.lt_iff_toNat_lt, h]

theorem width?_eq_two {b : UInt8} (hlo : 0xC2 ≤ b.toNat)
    (hhi : b.toNat ≤ 0xDF) :
    width? b = some 2 := by
  have h1 : ¬ b.toNat < 128 := by omega
  simp [width?, UInt8.lt_iff_toNat_lt, UInt8.le_iff_toNat_le, h1, hlo, hhi]

theorem width?_eq_three {b : UInt8} (hlo : 0xE0 ≤ b.toNat)
    (hhi : b.toNat ≤ 0xEF) :
    width? b = some 3 := by
  have h1 : ¬ b.toNat < 128 := by omega
  have h2 : ¬ b.toNat ≤ 223 := by omega
  simp [width?, UInt8.lt_iff_toNat_lt, UInt8.le_iff_toNat_le, h1, h2, hlo, hhi]

theorem width?_eq_four {b : UInt8} (hlo : 0xF0 ≤ b.toNat)
    (hhi : b.toNat ≤ 0xF4) :
    width? b = some 4 := by
  have h1 : ¬ b.toNat < 128 := by omega
  have h2 : ¬ b.toNat ≤ 223 := by omega
  have h3 : ¬ b.toNat ≤ 239 := by omega
  simp [width?, UInt8.lt_iff_toNat_lt, UInt8.le_iff_toNat_le, h1, h2,
    h3, hlo, hhi]

theorem isTail_of_range {b : UInt8} (hlo : 0x80 ≤ b.toNat)
    (hhi : b.toNat ≤ 0xBF) :
    isTail b = true := by
  simp [isTail, UInt8.le_iff_toNat_le, hlo, hhi]

/-- A continuation byte stands second unless it falls outside one of the four
narrowed ranges. -/
theorem isSecond_of_range {b₀ b₁ : UInt8} (hlo : 0x80 ≤ b₁.toNat)
    (hhi : b₁.toNat ≤ 0xBF)
    (hE0 : b₀.toNat = 0xE0 → 0xA0 ≤ b₁.toNat)
    (hED : b₀.toNat = 0xED → b₁.toNat ≤ 0x9F)
    (hF0 : b₀.toNat = 0xF0 → 0x90 ≤ b₁.toNat)
    (hF4 : b₀.toNat = 0xF4 → b₁.toNat ≤ 0x8F) :
    isSecond b₀ b₁ = true := by
  have key : ∀ n : UInt8, b₀ = n → b₀.toNat = n.toNat := fun n h =>
    congrArg UInt8.toNat h
  unfold isSecond
  split
  · next h => simp [UInt8.le_iff_toNat_le, hE0 (key _ h), hhi]
  · split
    · next h => simp [UInt8.le_iff_toNat_le, hED (key _ h), hlo]
    · split
      · next h => simp [UInt8.le_iff_toNat_le, hF0 (key _ h), hhi]
      · split
        · next h => simp [UInt8.le_iff_toNat_le, hF4 (key _ h), hlo]
        · exact isTail_of_range hlo hhi

/-! What `decodeFrom` does with a sound character at the front, by the width of
the character. -/

theorem decodeFrom_one {b₀ : UInt8} (rest : List UInt8) (index : Nat)
    (h₀ : width? b₀ = some 1) :
    decodeFrom index (b₀ :: rest) =
      (decodeFrom (index + 1) rest).map (Char.ofNat b₀.toNat :: ·) := by
  rw [decodeFrom.eq_def]
  simp only [h₀]

theorem decodeFrom_two {b₀ b₁ : UInt8} (rest : List UInt8) (index : Nat)
    (h₀ : width? b₀ = some 2) (h₁ : isTail b₁ = true) :
    decodeFrom index (b₀ :: b₁ :: rest) =
      (decodeFrom (index + 2) rest).map
        (Char.ofNat (b₀.toNat % 32 * 64 + low6 b₁) :: ·) := by
  rw [decodeFrom.eq_def]
  simp only [h₀, h₁, if_true]

theorem decodeFrom_three {b₀ b₁ b₂ : UInt8} (rest : List UInt8) (index : Nat)
    (h₀ : width? b₀ = some 3) (h₁ : isSecond b₀ b₁ = true)
    (h₂ : isTail b₂ = true) :
    decodeFrom index (b₀ :: b₁ :: b₂ :: rest) =
      (decodeFrom (index + 3) rest).map
        (Char.ofNat ((b₀.toNat % 16 * 64 + low6 b₁) * 64 + low6 b₂) :: ·) := by
  rw [decodeFrom.eq_def]
  simp only [h₀, h₁, h₂, if_true]

theorem decodeFrom_four {b₀ b₁ b₂ b₃ : UInt8} (rest : List UInt8) (index : Nat)
    (h₀ : width? b₀ = some 4) (h₁ : isSecond b₀ b₁ = true)
    (h₂ : isTail b₂ = true) (h₃ : isTail b₃ = true) :
    decodeFrom index (b₀ :: b₁ :: b₂ :: b₃ :: rest) =
      (decodeFrom (index + 4) rest).map
        (Char.ofNat (((b₀.toNat % 8 * 64 + low6 b₁) * 64 + low6 b₂) * 64 +
          low6 b₃) :: ·) := by
  rw [decodeFrom.eq_def]
  simp only [h₀, h₁, h₂, h₃, if_true]

/-- Decoding undoes the bytes of a character, whatever follows them. One case
for each width; the ranges of the bytes in each come from the range of the code
point. -/
theorem decodeFrom_utf8EncodeChar (c : Char) (rest : List UInt8) (index : Nat) :
    ∃ next, decodeFrom index (String.utf8EncodeChar c ++ rest) =
      (decodeFrom next rest).map (c :: ·) := by
  have hrange := toNat_char_range c
  have hback : ∀ n, n = c.toNat → Char.ofNat n = c := by
    rintro n rfl
    exact Char.ofNat_toNat c
  unfold String.utf8EncodeChar
  rw [show c.val.toNat = c.toNat from rfl]
  dsimp only
  split
  · next h1 =>
      have hb₀ : (UInt8.ofNat c.toNat).toNat = c.toNat := toNat_byte (by omega)
      refine ⟨index + 1, ?_⟩
      refine (decodeFrom_one rest index (width?_eq_one (by omega))).trans ?_
      rw [hback _ hb₀]
  · split
    · next h1 h2 =>
        have hb₀ := @toNat_byte (c.toNat / 64 % 32 + 192) (by omega)
        have hb₁ := @toNat_byte (c.toNat % 64 + 128) (by omega)
        refine ⟨index + 2, ?_⟩
        refine (decodeFrom_two rest index (width?_eq_two (by omega) (by omega))
          (isTail_of_range (by omega) (by omega))).trans ?_
        rw [hback _ (by rw [low6]; omega)]
    · split
      · next h1 h2 h3 =>
          have hb₀ := @toNat_byte (c.toNat / 4096 % 16 + 224) (by omega)
          have hb₁ := @toNat_byte (c.toNat / 64 % 64 + 128) (by omega)
          have hb₂ := @toNat_byte (c.toNat % 64 + 128) (by omega)
          refine ⟨index + 3, ?_⟩
          refine (decodeFrom_three rest index
            (width?_eq_three (by omega) (by omega))
              (isSecond_of_range (by omega) (by omega) (by omega) (by omega)
                (by omega) (by omega))
            (isTail_of_range (by omega) (by omega))).trans ?_
          rw [hback _ (by rw [low6, low6]; omega)]
      · next h1 h2 h3 =>
          have hb₀ := @toNat_byte (c.toNat / 262144 % 8 + 240) (by omega)
          have hb₁ := @toNat_byte (c.toNat / 4096 % 64 + 128) (by omega)
          have hb₂ := @toNat_byte (c.toNat / 64 % 64 + 128) (by omega)
          have hb₃ := @toNat_byte (c.toNat % 64 + 128) (by omega)
          refine ⟨index + 4, ?_⟩
          refine (decodeFrom_four rest index
            (width?_eq_four (by omega) (by omega))
              (isSecond_of_range (by omega) (by omega) (by omega) (by omega)
                (by omega) (by omega))
            (isTail_of_range (by omega) (by omega))
            (isTail_of_range (by omega) (by omega))).trans ?_
          rw [hback _ (by rw [low6, low6, low6]; omega)]

theorem decodeFrom_flatMap (cs : List Char) (index : Nat) :
    decodeFrom index (cs.flatMap String.utf8EncodeChar) = .ok cs := by
  induction cs generalizing index with
  | nil => simp [decodeFrom]
  | cons c cs ih =>
      obtain ⟨next, h⟩ :=
        decodeFrom_utf8EncodeChar c (cs.flatMap String.utf8EncodeChar) index
      rw [List.flatMap_cons, h, ih]
      rfl

theorem decode_encode (text : String) : decode (encode text) = .ok text := by
  rw [decode, encode, decodeFrom_flatMap]
  exact congrArg Except.ok String.ofList_toList

end Utf8

/-! ## UTF-16 -/

namespace Utf16

theorem toNat_unit {n : Nat} (h : n < 0x10000) :
    (UInt16.ofNat n).toNat = n := by
  rw [UInt16.toNat_ofNat']
  omega

theorem chars?_single {u : UInt16} (rest : List UInt16)
    (h : u.toNat < 0xD800 ∨ 0xDFFF < u.toNat) :
    chars? (u :: rest) = (chars? rest).map (Char.ofNat u.toNat :: ·) := by
  have hhigh : isHigh u = false := by
    simp [isHigh, UInt16.le_iff_toNat_le]
    omega
  have hlow : isLow u = false := by
    simp [isLow, UInt16.le_iff_toNat_le]
    omega
  rw [chars?.eq_def]
  simp [hhigh, hlow]

theorem chars?_pair {u v : UInt16} (rest : List UInt16) (hu : 0xD800 ≤ u.toNat)
    (hu' : u.toNat ≤ 0xDBFF) (hv : 0xDC00 ≤ v.toNat) (hv' : v.toNat ≤ 0xDFFF) :
    chars? (u :: v :: rest) = (chars? rest).map (pairChar u v :: ·) := by
  have hhigh : isHigh u = true := by
    simp [isHigh, UInt16.le_iff_toNat_le, hu, hu']
  have hlow : isLow v = true := by simp [isLow, UInt16.le_iff_toNat_le, hv, hv']
  rw [chars?.eq_def]
  simp [hhigh, hlow]

theorem chars?_unitsOfChar (c : Char) (rest : List UInt16) :
    chars? (unitsOfChar c ++ rest) = (chars? rest).map (c :: ·) := by
  have hrange := toNat_char_range c
  unfold unitsOfChar
  split
  · next hlt =>
      have hu : (UInt16.ofNat c.toNat).toNat = c.toNat := toNat_unit hlt
      refine (chars?_single rest (by omega)).trans ?_
      rw [hu, Char.ofNat_toNat]
  · next hge =>
      have hu := @toNat_unit (0xD800 + (c.toNat - 0x10000) / 0x400) (by omega)
      have hv := @toNat_unit (0xDC00 + (c.toNat - 0x10000) % 0x400) (by omega)
      refine (chars?_pair rest (by omega) (by omega) (by omega)
        (by omega)).trans ?_
      have hback :
          0x10000 + (0xD800 + (c.toNat - 0x10000) / 0x400 - 0xD800) * 0x400 +
          (0xDC00 + (c.toNat - 0x10000) % 0x400 - 0xDC00) = c.toNat := by omega
      rw [pairChar, hu, hv, hback, Char.ofNat_toNat]

theorem decode?_units (text : String) : decode? (units text) = some text := by
  have h : ∀ cs : List Char, chars? (cs.flatMap unitsOfChar) = some cs := by
    intro cs
    induction cs with
    | nil => rfl
    | cons c cs ih => rw [List.flatMap_cons, chars?_unitsOfChar, ih]; rfl
  rw [decode?, units, h]
  exact congrArg some String.ofList_toList

theorem units_ne_nil {text : String} (h : text ≠ "") : units text ≠ [] := by
  intro hnil
  have hcs : text.toList = [] := by
    cases hcs : text.toList with
    | nil => rfl
    | cons c cs =>
        rw [units, hcs, List.flatMap_cons, List.append_eq_nil_iff,
          unitsOfChar] at hnil
        split at hnil <;> simp at hnil
  exact h (String.toList_eq_nil_iff.1 hcs)

end Utf16

/-! ## Texts and names with their lengths -/

namespace Resource

theorem toNat_word {n : Nat} (h : n ≤ maxLength) :
    (UInt32.ofNat n).toNat = n := by
  rw [UInt32.toNat_ofNat']
  simp only [maxLength] at h
  omega

theorem toNat_lengthField {n : Nat} (h : n ≤ maxLength) :
    (lengthField n).toNat = n := by
  rw [lengthField, Nat.min_eq_left h, toNat_word h]

theorem takes_readText {text : String}
    (h : (Utf8.encode text).length ≤ maxLength) :
    Reader.Takes readText (encodeText text) text := by
  refine (SevenBit.takes_read _).bind
    (Reader.Takes.of_position fun offset => ?_)
  rw [toNat_lengthField h]
  refine (Reader.takes_bytes _).bind_nil ?_
  rw [Utf8.decode_encode]
  exact Reader.takes_pure text

theorem takes_readBlock {bytes : List UInt8} (h : bytes.length ≤ maxLength) :
    Reader.Takes readBlock (encodeBlock bytes) bytes := by
  refine (Reader.takes_uint32 _).bind ?_
  rw [toNat_lengthField h]
  exact Reader.takes_bytes bytes

theorem length_nameBytes (name : String) :
    (nameBytes name).length = 2 * (Utf16.units name).length := by
  rw [nameBytes]
  induction Utf16.units name with
  | nil => rfl
  | cons u us ih =>
      rw [List.flatMap_cons, List.length_append, ih, LittleEndian.length_bytes,
        List.length_cons]
      omega

theorem unitsOfBytes_nameBytes (name : String) :
    unitsOfBytes (nameBytes name) = Utf16.units name := by
  rw [nameBytes]
  induction Utf16.units name with
  | nil => rfl
  | cons u us ih =>
      have hu : LittleEndian.value (LittleEndian.bytes 2 u.toNat) = u.toNat :=
        LittleEndian.value_bytes_of_lt (LittleEndian.toNat_lt_span_two u)
      rw [List.flatMap_cons]
      show UInt16.ofNat (LittleEndian.value (LittleEndian.bytes 2 u.toNat)) ::
        unitsOfBytes (us.flatMap fun unit => LittleEndian.bytes 2 unit.toNat) =
          _
      rw [hu, UInt16.ofNat_toNat, ih]

/-- A name with its length, as a blob files it. -/
def spelledName (name : String) : List UInt8 :=
  SevenBit.encodeNat (nameBytes name).length ++ nameBytes name

theorem takes_readName {name : String} (hne : name ≠ "")
    (h : (nameBytes name).length ≤ maxLength) :
    Reader.Takes readName (spelledName name) name := by
  have hlen := toNat_word h
  have hlength := SevenBit.takes_read (UInt32.ofNat (nameBytes name).length)
  rw [SevenBit.encode, hlen] at hlength
  refine hlength.bind (Reader.Takes.of_position fun offset =>
    Reader.Takes.of_require ?_ ?_)
  · have hpos := List.length_pos_iff.2 (Utf16.units_ne_nil hne)
    have hunits := length_nameBytes name
    rw [hlen, Bool.and_eq_true, decide_eq_true_iff, decide_eq_true_iff]
    omega
  · rw [hlen]
    refine (Reader.takes_bytes _).bind_nil ?_
    rw [unitsOfBytes_nameBytes, Utf16.decode?_units]
    exact Reader.takes_pure name

end Resource

end CilAudit
