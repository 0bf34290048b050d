import CilAudit.Proofs.Spelling
import CilAudit.Resource.Entry
import Mathlib.Algebra.Ring.Nat

/-!
# Values are read back as they were stored

A value survives the way into a blob and out again up to one loss: a character
outside the first plane has no single unit and comes back as the replacement
character. `Value.stored` is the value that comes back, and `takes_readCoded`
says that the reader which the tag selects takes exactly the payload and yields
it.

Lengths again need room in their fields, but only lengths do: what a value
holds must be no longer than a 32-bit length can say, and the bytes in front of
it do not count. Within that bound a value is read back wherever it stands
(`encoded_value_read_back`).
-/

namespace CilAudit.Resource

def storedChar (c : Char) : Char := if c.toNat < 0x10000 then c else '\uFFFD'

theorem takes_readChar (c : Char) :
    Reader.Takes readChar (LittleEndian.bytes 2 (charUnit c))
      (storedChar c) := by
  -- the unit is that of the stored character, and no half of a pair
  have hunit : charUnit c = (storedChar c).toNat := by
    unfold charUnit storedChar
    split <;> rfl
  have hlt : (storedChar c).toNat < 0x10000 := by
    unfold storedChar
    split
    · assumption
    · decide
  have hword : (UInt16.ofNat (storedChar c).toNat).toNat =
      (storedChar c).toNat :=
    Utf16.toNat_unit hlt
  have hread := Reader.takes_uint16 (UInt16.ofNat (storedChar c).toNat)
  rw [hword] at hread
  rw [hunit]
  refine hread.bind_nil ?_
  have hvalid : (storedChar c).toNat.isValidChar := (storedChar c).valid
  rw [hword, if_pos hvalid, Char.ofNat_toNat]
  exact Reader.takes_pure _

namespace Value

/-- What a blob keeps of a value. All kinds but characters come back as they
are, floating point numbers included, since they are bits here. -/
def stored : Value → Value
  | .char c => .char (storedChar c)
  | v => v

/-- How many bytes a text or a byte string has behind its length. -/
def contentLength : Value → Nat
  | .string text => (Utf8.encode text).length
  | .byteArray bytes => bytes.length
  | .stream bytes => bytes.length
  | _ => 0

theorem contentLength_le (v : Value) : v.contentLength ≤ v.payload.length := by
  cases v <;> simp [contentLength, payload, encodeText, encodeBlock]

theorem contentLength_le_of_tag (v : Value) (tag : UInt32)
    (h : (SevenBit.encode tag ++ v.payload).length ≤ maxLength) :
    v.contentLength ≤ maxLength := by
  have hle := v.contentLength_le
  rw [List.length_append] at h
  omega

theorem takes_readPayload (v : Value) (h : v.contentLength ≤ maxLength) :
    Reader.Takes (readPayload v.kind) v.payload v.stored := by
  cases v with
  | null => exact Reader.takes_pure _
  | string text => exact (takes_readText h).yield Value.string
  | boolean flag =>
      have hflag := (Reader.takes_uint8 (if flag then 1 else 0)).yield
        fun n => Value.boolean (decide (0 < n))
      cases flag <;> exact hflag
  | char c => exact (takes_readChar c).yield Value.char
  | byte n => exact (Reader.takes_uint8 n).yield Value.byte
  | sbyte n => exact (Reader.takes_int8 n).yield Value.sbyte
  | int16 n => exact (Reader.takes_int16 n).yield Value.int16
  | uint16 n => exact (Reader.takes_uint16 n).yield Value.uint16
  | int32 n => exact (Reader.takes_int32 n).yield Value.int32
  | uint32 n => exact (Reader.takes_uint32 n).yield Value.uint32
  | int64 n => exact (Reader.takes_int64 n).yield Value.int64
  | uint64 n => exact (Reader.takes_uint64 n).yield Value.uint64
  | single bits => exact (Reader.takes_uint32 bits).yield Value.single
  | double bits => exact (Reader.takes_uint64 bits).yield Value.double
  | decimal lo mid hi flags =>
      have hflags := (Reader.takes_int32 flags).yield fun w =>
        Value.decimal lo mid hi w
      refine (Reader.takes_int32 lo).bind ((Reader.takes_int32 mid).bind
        ((Reader.takes_int32 hi).bind ?_))
      exact hflags
  | dateTime ticks => exact (Reader.takes_int64 ticks).yield Value.dateTime
  | timeSpan ticks => exact (Reader.takes_int64 ticks).yield Value.timeSpan
  | byteArray bytes => exact (takes_readBlock h).yield Value.byteArray
  | stream bytes => exact (takes_readBlock h).yield Value.stream

theorem takes_readCoded (v : Value) (h : v.contentLength ≤ maxLength) :
    Reader.Takes (readCoded v.kind.code) v.payload v.stored := by
  rw [readCoded, Kind.ofCode?_code]
  exact takes_readPayload v h

/-- A string is stored as it is, and nothing else is stored as one. Look-ups of
texts can therefore be stated without `stored`. -/
theorem text?_stored (v : Value) : v.stored.text? = v.text? := by
  cases v <;> rfl

theorem encode_ne_nil (v : Value) : v.encode ≠ [] :=
  List.append_ne_nil_of_left_ne_nil (SevenBit.encodeNat_ne_nil _) _

end Value

/-- A header of version 2 reads values by their codes, and the table of types
does not matter to it. -/
theorem Header.takes_readValue {h : Header} (hversion : h.version = 2)
    (v : Value)
    (hlen : v.encode.length ≤ maxLength) :
    Reader.Takes h.readValue v.encode v.stored := by
  refine (SevenBit.takes_read v.kind.code).bind ?_
  rw [if_neg (by rw [hversion]; decide)]
  exact Value.takes_readCoded v (v.contentLength_le_of_tag _ hlen)

/-- Whatever stands in front of a value and behind it, its code is read first
and then the value, up to what a blob keeps of it. The cursor ends right behind
its last byte. -/
theorem encoded_value_read_back (v : Value) (before after : List UInt8)
    (hlength : v.contentLength < 2 ^ 32) :
    ∃ mid, SevenBit.read ⟨(before ++ v.encode ++ after).toArray,
      before.length⟩ =
        (.ok v.kind.code, mid) ∧
      Value.readCoded v.kind.code mid = (.ok v.stored,
        ⟨(before ++ v.encode ++ after).toArray,
          before.length + v.encode.length⟩) := by
  have hread := SevenBit.takes_read v.kind.code before (v.payload ++ after)
  have hvalue := Value.takes_readCoded v (Nat.le_of_lt_succ hlength)
    (before ++ SevenBit.encode v.kind.code) after
  refine ⟨.between (before ++ SevenBit.encode v.kind.code) (v.payload ++ after),
    ?_, ?_⟩
  · simpa [Cursor.between, Value.encode] using hread
  · simpa [Cursor.between, Value.encode, Nat.add_assoc] using hvalue

/-- A text of five bytes, one of its letters in two of them, between a byte and
two others. -/
theorem encoded_value_read_back_width :
    (Value.string "3 µm").contentLength < 2 ^ 32 ∧
      ∃ mid, SevenBit.read ⟨#[0xFF, 1, 5, 0x33, 0x20, 0xC2, 0xB5, 0x6D, 7, 7],
        1⟩ = (.ok 1, mid) ∧
        Value.readCoded 1 mid = (.ok (.string "3 µm"),
          ⟨#[0xFF, 1, 5, 0x33, 0x20, 0xC2, 0xB5, 0x6D, 7, 7], 8⟩) := by
  have hlength : (Value.string "3 µm").contentLength < 2 ^ 32 := by
    decide +kernel
  have hencode : (Value.string "3 µm").encode =
      [1, 5, 0x33, 0x20, 0xC2, 0xB5, 0x6D] := by
    decide +kernel
  have hread := encoded_value_read_back (.string "3 µm") [0xFF] [7, 7] hlength
  rw [hencode] at hread
  exact ⟨hlength, hread⟩

end CilAudit.Resource
