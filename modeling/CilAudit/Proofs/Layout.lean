import CilAudit.Proofs.Spelling
import CilAudit.Resource.Writer

/-!
# What is written, and when

Two versions of the format share one layout. They differ in the number that
names them, in the type table in front of the padding, and in how a value is
spelled in the data section. A `Format` is these three things, and
`Format.blob` lays entries out in it, every field taken to fit. The entries may
hold whatever the format can spell.

Only the newer version is ever written. Every field of a blob is a 32-bit word,
and `write` checks each one as it goes, but only one of these checks can
decide: all places and lengths lie inside the stream, so they fit as soon as
the size of the stream does. `streamSize` counts that size from the entries
alone, and `write_eq_ok_iff` says that writing is checking the names and this
one size, and laying out.
-/

namespace CilAudit.Resource

theorem field32_eq_ok_iff {n : Nat} {w : UInt32} :
    field32 n = .ok w ↔ n ≤ maxLength ∧ w = UInt32.ofNat n := by
  unfold field32
  split
  · next h => simp [h, eq_comm]
  · next h => simp [h]

@[simp] theorem length_word32 (w : UInt32) : (word32 w).length = 4 := by
  rw [word32, LittleEndian.length_bytes]

theorem word32_ofNat {n : Nat} (h : n ≤ maxLength) :
    word32 (UInt32.ofNat n) = LittleEndian.bytes 4 n := by
  rw [word32, toNat_word h]

theorem length_flatMap_word32 {α : Type} (xs : List α) (f : α → UInt32) :
    (xs.flatMap fun x => word32 (f x)).length = 4 * xs.length := by
  induction xs with
  | nil => rfl
  | cons x xs ih =>
      rw [List.flatMap_cons, List.length_append, ih, length_word32,
        List.length_cons]
      omega

theorem length_filler (n : Nat) : (filler n).length = (8 - n % 8) % 8 := by
  simp [filler]

theorem sortByHash_perm {γ : Type} (entries : List (String × γ)) :
    (sortByHash entries).Perm entries := List.mergeSort_perm _ _

theorem length_sortByHash {γ : Type} (entries : List (String × γ)) :
    (sortByHash entries).length = entries.length :=
  (sortByHash_perm entries).length_eq

/-- What entries take together does not depend on their order. Sizes can
therefore be stated over the entries as they were given, although blobs hold
them by hash. -/
theorem sum_sortByHash {γ : Type} (entries : List (String × γ))
    (size : String × γ → Nat) :
    ((sortByHash entries).map size).sum = (entries.map size).sum :=
  ((sortByHash_perm entries).map size).sum_nat

/-! ## Names -/

theorem checkNames_eq_ok_iff (seen names : List String) :
    checkNames seen names = .ok () ↔
      (∀ name ∈ names, name ≠ "") ∧ names.Nodup ∧
        ∀ name ∈ names, name ∉ seen := by
  induction names generalizing seen with
  | nil => simp [checkNames]
  | cons name rest ih =>
      rw [checkNames]
      split
      · next h => simp [h]
      · next hne =>
          split
          · next h => simp [h]
          · next hnew =>
              rw [ih, List.nodup_cons]
              simp only [List.mem_cons, not_or, forall_eq_or_imp]
              constructor
              · rintro ⟨hrest, hnodup, hseen⟩
                exact ⟨⟨hne, hrest⟩,
                  ⟨fun hmem => (hseen name hmem).1 rfl, hnodup⟩,
                  hnew, fun n hn => (hseen n hn).2⟩
              · rintro ⟨⟨-, hrest⟩, ⟨hname, hnodup⟩, -, hseen⟩
                exact ⟨hrest, hnodup,
                  fun n hn => ⟨fun h => hname (h ▸ hn), hseen n hn⟩⟩

/-! ## The layout of a format -/

/-- A way to file values: the version, the types that come along, and the bytes
of a value. The layout of a blob is the same for all of them, so its theory is
written once, over the format; the writer uses `newer`, and older writers used
`older`. -/
structure Format (γ : Type) where
  version : UInt32
  typeNames : List String
  spell : γ → List UInt8

def recordSize (name : String) : Nat := (spelledName name).length + 4

theorem length_record (name : String) (dataSize : Nat) :
    (spelledName name ++ LittleEndian.bytes 4 dataSize).length =
      recordSize name := by
  rw [List.length_append, LittleEndian.length_bytes, recordSize]

namespace Format

variable {γ : Type}

/-- Everything in front of the padding: the outer header, the version, and the
two counts with the types that the second one counts. -/
def opening (F : Format γ) (count : Nat) : List UInt8 :=
  word32 magic ++ word32 1 ++ word32 (lengthField classNames.length) ++
    classNames ++ word32 F.version ++ word32 (UInt32.ofNat count) ++
    word32 (UInt32.ofNat F.typeNames.length) ++ F.typeNames.flatMap encodeText

/-- The slots of entries behind `nameSize` bytes of names and `dataSize` bytes
of values. No field is checked here; `eq_slots_of_layOut` says that the checks
of the writer only ever refuse. -/
def slots (F : Format γ) (nameSize dataSize : Nat) :
    List (String × γ) → List Slot
  | [] => []
  | (name, value) :: rest =>
      { position := UInt32.ofNat nameSize
        name := spelledName name ++ LittleEndian.bytes 4 dataSize
        data := F.spell value } ::
      F.slots (nameSize + recordSize name)
        (dataSize + (F.spell value).length) rest

section

variable (F : Format γ) (entries : List (String × γ))

/-- Everything in front of the place of the data section: the opening, the
padding, the hashes in ascending order, and beside them the places of their
names. -/
def tables : List UInt8 :=
  F.opening entries.length ++ filler (F.opening entries.length).length ++
    (sortByHash entries).flatMap (fun e => word32 (nameHash e.1)) ++
    (F.slots 0 0 (sortByHash entries)).flatMap (fun s => word32 s.position)

def names : List UInt8 :=
  (F.slots 0 0 (sortByHash entries)).flatMap Slot.name

def values : List UInt8 :=
  (F.slots 0 0 (sortByHash entries)).flatMap Slot.data

/-- What a blob holds behind its size field: the tables, the place of the data
section, and the two sections. -/
def stream : List UInt8 :=
  F.tables entries ++
    word32 (UInt32.ofNat
      ((F.tables entries).length + 4 + (F.names entries).length)) ++
    F.names entries ++ F.values entries

def blob : List UInt8 :=
  word32 (UInt32.ofNat (F.stream entries).length) ++ F.stream entries

end

variable {F : Format γ} {entries : List (String × γ)}

theorem length_slots (nameSize dataSize : Nat) :
    (F.slots nameSize dataSize entries).length = entries.length := by
  induction entries generalizing nameSize dataSize with
  | nil => rfl
  | cons entry rest ih => simp [slots, ih]

theorem length_names_slots (nameSize dataSize : Nat) :
    ((F.slots nameSize dataSize entries).flatMap Slot.name).length =
      (entries.map fun e => recordSize e.1).sum := by
  induction entries generalizing nameSize dataSize with
  | nil => rfl
  | cons entry rest ih =>
      rw [slots, List.flatMap_cons, List.length_append, ih, List.map_cons,
        List.sum_cons, length_record]

theorem length_data_slots (nameSize dataSize : Nat) :
    ((F.slots nameSize dataSize entries).flatMap Slot.data).length =
      (entries.map fun e => (F.spell e.2).length).sum := by
  induction entries generalizing nameSize dataSize with
  | nil => rfl
  | cons entry rest ih =>
      rw [slots, List.flatMap_cons, List.length_append, ih, List.map_cons,
        List.sum_cons]

theorem length_names : (F.names entries).length =
    (entries.map fun e => recordSize e.1).sum := by
  rw [names, length_names_slots, sum_sortByHash]

theorem length_values : (F.values entries).length =
    (entries.map fun e => (F.spell e.2).length).sum := by
  rw [values, length_data_slots, sum_sortByHash]

theorem length_opening (count : Nat) : (F.opening count).length =
    24 + classNames.length + (F.typeNames.flatMap encodeText).length := by
  simp only [opening, List.length_append, length_word32]
  omega

theorem length_tables :
    (F.tables entries).length = (F.opening entries.length).length +
      (filler (F.opening entries.length).length).length +
      8 * entries.length := by
  simp only [tables, List.length_append, length_flatMap_word32, length_slots,
    length_sortByHash]
  omega

theorem length_stream : (F.stream entries).length =
    (F.tables entries).length + 4 + (F.names entries).length +
      (F.values entries).length := by
  simp only [stream, List.length_append, length_word32]

/-- What the parts of a blob that depend on its entries and types take of its
size. Each of them has therefore a 32-bit size when the blob has, which is the
form in which readers need it. -/
theorem le_length_stream :
    24 + (F.typeNames.flatMap encodeText).length + 8 * entries.length +
      (F.names entries).length + (F.values entries).length ≤
        (F.stream entries).length := by
  rw [length_stream, length_tables, length_opening]
  omega

theorem length_blob :
    (F.blob entries).length = 4 + (F.stream entries).length := by
  rw [blob, List.length_append, length_word32]

end Format

/-! ## The format that is written -/

/-- The format that is written: values behind the codes of their kinds, and no
types. -/
def newer : Format Value := ⟨2, [], Value.encode⟩

/-- The size of everything in front of the hashes. -/
def preambleSize : Nat := 176

/-- The size of the stream that a blob of these entries holds behind its size
field: each entry has a hash and a position in the tables, a record in the name
section and a value in the data section, and the place of the data section
takes a word of its own. -/
def streamSize (entries : List (String × Value)) : Nat :=
  preambleSize + 8 * entries.length + 4 +
    (entries.map fun e => recordSize e.1).sum +
    (entries.map fun e => e.2.encode.length).sum

theorem length_preamble (count : UInt32) :
    (preamble count).length = preambleSize := by
  have h : (preamble count).length = (preamble 0).length := by
    simp [preamble]
  rw [h]
  decide +kernel

/-- A preamble is the opening of the newer format and its padding: a table of
no types takes a word and nothing behind it. -/
theorem preamble_eq (count : Nat) : preamble (UInt32.ofNat count) =
    newer.opening count ++ filler (newer.opening count).length := by
  have hopening : newer.opening count = word32 magic ++ word32 1 ++
      word32 (lengthField classNames.length) ++ classNames ++ word32 2 ++
      word32 (UInt32.ofNat count) ++ word32 0 := by
    simp [Format.opening, newer]
  rw [hopening, preamble]

theorem tables_newer (entries : List (String × Value)) :
    newer.tables entries = preamble (UInt32.ofNat entries.length) ++
      (sortByHash entries).flatMap (fun e => word32 (nameHash e.1)) ++
      (newer.slots 0 0 (sortByHash entries)).flatMap
        (fun s => word32 s.position) := by
  rw [preamble_eq, Format.tables]

theorem length_tables_newer (entries : List (String × Value)) :
    (newer.tables entries).length = preambleSize + 8 * entries.length := by
  rw [Format.length_tables, ← List.length_append, ← preamble_eq,
    length_preamble]

theorem length_stream_newer (entries : List (String × Value)) :
    (newer.stream entries).length = streamSize entries := by
  rw [Format.length_stream, length_tables_newer, Format.length_names,
    Format.length_values, streamSize]
  rfl

/-! ## Slots -/

/-- The record that `layOut` writes for a name, its length and place known to
fit. -/
theorem record_eq {name : String} {dataSize : Nat}
    (hlength : (nameBytes name).length ≤ maxLength)
    (hplace : dataSize ≤ maxLength) :
    SevenBit.encode (UInt32.ofNat (nameBytes name).length) ++ nameBytes name ++
      word32 (UInt32.ofNat dataSize) =
        spelledName name ++ LittleEndian.bytes 4 dataSize := by
  rw [SevenBit.encode, toNat_word hlength, word32_ofNat hplace, spelledName]

/-- One entry is laid out when its three fields fit: the place of its name, the
length of its name and the place of its value. -/
theorem layOut_cons_eq_ok_iff {nameSize dataSize : Nat} {name : String}
    {value : Value} {rest : List (String × Value)} {slots : List Slot} :
    layOut nameSize dataSize ((name, value) :: rest) = .ok slots ↔
      nameSize ≤ maxLength ∧ (nameBytes name).length ≤ maxLength ∧
        dataSize ≤ maxLength ∧
        ∃ more,
          layOut (nameSize + recordSize name) (dataSize + value.encode.length)
            rest = .ok more ∧
          slots =
            { position := UInt32.ofNat nameSize
              name := spelledName name ++ LittleEndian.bytes 4 dataSize
              data := value.encode } :: more := by
  rw [layOut]
  simp only [bind_eq_ok_iff, field32_eq_ok_iff]
  constructor
  · rintro ⟨_, ⟨hposition, rfl⟩, _, ⟨hlength, rfl⟩, _, ⟨hplace, rfl⟩, more,
      hmore, hslots⟩
    rw [record_eq hlength hplace, length_record] at hmore
    rw [record_eq hlength hplace] at hslots
    exact ⟨hposition, hlength, hplace, more, hmore,
      (Except.ok.inj hslots).symm⟩
  · rintro ⟨hposition, hlength, hplace, more, hmore, rfl⟩
    refine ⟨_, ⟨hposition, rfl⟩, _, ⟨hlength, rfl⟩, _, ⟨hplace, rfl⟩, more,
      ?_, ?_⟩
    · rwa [record_eq hlength hplace, length_record]
    · rw [record_eq hlength hplace]
      rfl

/-- Slots are the unchecked ones whenever the checks let them through. A field
that fits is not changed by being cut to 32 bits. -/
theorem eq_slots_of_layOut {nameSize dataSize : Nat}
    {entries : List (String × Value)} {slots : List Slot}
    (h : layOut nameSize dataSize entries = .ok slots) :
    slots = newer.slots nameSize dataSize entries := by
  induction entries generalizing nameSize dataSize slots with
  | nil =>
      rw [layOut, Except.ok.injEq] at h
      exact h.symm
  | cons entry rest ih =>
      obtain ⟨-, -, -, more, hmore, rfl⟩ := layOut_cons_eq_ok_iff.1 h
      rw [ih hmore]
      rfl

/-- The checks let slots through when both sections fit. Every place that a
slot says lies in its section, so no check needs more than this. -/
theorem layOut_of_fits {nameSize dataSize : Nat}
    {entries : List (String × Value)}
    (hnames : nameSize + (entries.map fun e => recordSize e.1).sum ≤ maxLength)
    (hvalues :
      dataSize + (entries.map fun e => e.2.encode.length).sum ≤ maxLength) :
    layOut nameSize dataSize entries =
      .ok (newer.slots nameSize dataSize entries) := by
  induction entries generalizing nameSize dataSize with
  | nil => rfl
  | cons entry rest ih =>
      obtain ⟨name, value⟩ := entry
      simp only [List.map_cons, List.sum_cons] at hnames hvalues
      have hname : (nameBytes name).length ≤ recordSize name := by
        simp only [recordSize, spelledName, List.length_append]
        omega
      rw [layOut_cons_eq_ok_iff]
      exact ⟨by omega, by omega, by omega, _, ih (by omega) (by omega), rfl⟩

/-! ## Writing -/

/-- Entries that can be written: names that are not empty and differ, and a
stream whose size a 32-bit field can say. Nothing else is asked of the values,
and nothing at all of the hashes. -/
structure Writable (entries : List (String × Value)) : Prop where
  names : ∀ name ∈ entries.map Prod.fst, name ≠ ""
  distinct : (entries.map Prod.fst).Nodup
  size : streamSize entries ≤ maxLength

/-- Writing is checking the names and the size of the stream, and laying the
entries out in the newer format. Everything about written blobs starts from
this, and none of it looks into the writer again. -/
theorem write_eq_ok_iff (entries : List (String × Value))
    (blob : List UInt8) :
    write entries = .ok blob ↔
    Writable entries ∧ blob = newer.blob entries := by
  rw [write]
  simp only [bind_eq_ok_iff, field32_eq_ok_iff]
  constructor
  · rintro ⟨⟨⟩, hnames, _, ⟨-, rfl⟩, slots, hslots, _, ⟨-, rfl⟩, _,
      ⟨hsize, rfl⟩, hblob⟩
    obtain rfl := eq_slots_of_layOut hslots
    rw [length_sortByHash, ← tables_newer] at hsize hblob
    change (newer.stream entries).length ≤ maxLength at hsize
    rw [length_stream_newer] at hsize
    obtain ⟨hne, hnodup, -⟩ := (checkNames_eq_ok_iff _ _).1 hnames
    exact ⟨⟨hne, hnodup, hsize⟩, (Except.ok.inj hblob).symm⟩
  · rintro ⟨⟨hne, hnodup, hsize⟩, rfl⟩
    have hparts := hsize
    rw [streamSize] at hparts
    refine ⟨(), (checkNames_eq_ok_iff _ _).2 ⟨hne, hnodup, by simp⟩, _,
      ⟨by rw [length_sortByHash]; omega, rfl⟩, _,
      layOut_of_fits (by rw [sum_sortByHash]; omega)
        (by rw [sum_sortByHash]; omega),
      _, ⟨?_, rfl⟩, _, ⟨?_, rfl⟩, ?_⟩
    · rw [length_sortByHash, ← tables_newer]
      show (newer.tables entries).length + 4 + (newer.names entries).length ≤ _
      rw [length_tables_newer, Format.length_names]
      omega
    · rw [length_sortByHash, ← tables_newer]
      show (newer.stream entries).length ≤ maxLength
      rwa [length_stream_newer]
    · rw [length_sortByHash, ← tables_newer]
      rfl

end CilAudit.Resource
