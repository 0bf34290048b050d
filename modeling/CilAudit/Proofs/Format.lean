import CilAudit.Proofs.Layout
import CilAudit.Proofs.Stored
import Mathlib.Algebra.Order.BigOperators.Group.List
import Mathlib.Algebra.Order.Group.Nat
import Mathlib.Data.List.Induction

/-!
# Blobs of either version are read back

How a blob is read back is proved here once for all formats. The header comes
back as it was laid out, as long as the entry count does not pass for a debug
marker, which only a blob of version 2 has to fear. Behind the header a reader
follows two kinds of places: from the tables into the name section, and from
each name record into the data section. `Placed` says that both lead where an
entry stands, and `placed_of_mem` finds every entry placed, by walking along
the slots with the bytes already passed in hand. An entry that is placed is
read whatever was read before it, because its reader seeks first.

Last comes the map. A later entry replaces an earlier one of the same name, so
with distinct names a look-up finds exactly what was laid out under its key
(`getElem?_filed`).
-/

namespace CilAudit.Resource

open Reader (Finds Takes)

variable {γ : Type}

theorem takes_word32 (w : UInt32) : Takes Reader.uint32 (word32 w) w :=
  Reader.takes_uint32 w

theorem length_types_le (types : List String) :
    types.length ≤ (types.flatMap encodeText).length := by
  induction types with
  | nil => simp
  | cons type rest ih =>
      have hlead : encodeText type ≠ [] :=
        List.append_ne_nil_of_left_ne_nil (SevenBit.encodeNat_ne_nil _) _
      have hpos := List.length_pos_iff.2 hlead
      simp only [List.flatMap_cons, List.length_append, List.length_cons]
      omega

theorem length_encode_le_of_mem {types : List String} {type : String}
    (h : type ∈ types) :
    (Utf8.encode type).length ≤ (types.flatMap encodeText).length := by
  obtain ⟨front, rest, rfl⟩ := List.append_of_mem h
  simp only [List.flatMap_append, List.flatMap_cons, List.length_append,
    encodeText]
  omega

theorem classNames_eq : classNames =
    [readerTypeName, resourceSetTypeName].flatMap encodeText := by
  rw [classNames, List.flatMap_cons, List.flatMap_cons, List.flatMap_nil,
    List.append_nil]

theorem length_classNames_le : classNames.length ≤ preambleSize := by
  rw [← length_preamble 0, preamble]
  simp only [List.length_append]
  omega

theorem takes_readClasses (size : UInt32) :
    Takes (Header.readClasses 1 size) classNames
      (readerTypeName, resourceSetTypeName) := by
  have hfits : ∀ type ∈ [readerTypeName, resourceSetTypeName],
      (Utf8.encode type).length ≤ maxLength := by
    intro type htype
    have hle := length_encode_le_of_mem htype
    rw [← classNames_eq] at hle
    exact Nat.le_trans hle (Nat.le_trans length_classNames_le (by decide))
  rw [Header.readClasses, if_neg (by decide)]
  refine (takes_readText (hfits _ (.head _))).bind ?_
  exact (takes_readText (hfits _ (.tail _ (.head _)))).yield
    fun name => (readerTypeName, name)

/-! ## Headers -/

theorem readMarker_of_ne {b : UInt8} (hb : b.toNat ≠ '*'.toNat)
    (front rest : List UInt8) :
    Header.readMarker 2 (.between front (b :: rest)) =
      (.ok false, .between front (b :: rest)) := by
  rw [Header.readMarker, if_pos rfl, Reader.peek_bind_apply, if_neg hb]
  rfl

/-- The front of a header is read up to the place of a marker. What stands
there is not looked at, so this holds for blobs with a marker and for those
without one. -/
theorem readFront_apply {classes : List UInt8}
    {readerType resourceSetType : String} {managerSize version : UInt32}
    {size total : Nat}
    (hclasses : Takes (Header.readClasses 1 managerSize) classes
      (readerType, resourceSetType))
    (hversion : version = 1 ∨ version = 2) (hsize : size ≤ maxLength)
    (hlo : 8 ≤ size) (htotal : 4 + size = total) (rest : List UInt8) :
    Header.readFront total (.between [] (word32 (UInt32.ofNat size) ++
      (word32 magic ++ (word32 1 ++ (word32 managerSize ++ (classes ++
      (word32 version ++ rest))))))) =
      (.ok ⟨1, managerSize, readerType, resourceSetType, 16 + classes.length,
          version⟩,
        .between (word32 (UInt32.ofNat size) ++ word32 magic ++ word32 1 ++
          word32 managerSize ++ classes ++ word32 version) rest) := by
  have hoffset : ([] ++ word32 (UInt32.ofNat size) ++ word32 magic ++
      word32 1 ++ word32 managerSize ++ classes).length =
        16 + classes.length := by
    simp only [List.length_append, List.length_nil, length_word32]
  rw [Header.readFront, Reader.require_bind_apply (by simp; omega)]
  rw [(takes_word32 _).bind_apply,
    Reader.require_bind_apply (by simp [toNat_word hsize]; omega)]
  rw [(takes_word32 _).bind_apply, Reader.require_bind_apply (by decide)]
  rw [(takes_word32 _).bind_apply, (takes_word32 _).bind_apply,
    hclasses.bind_apply]
  dsimp only
  rw [Reader.position_bind_apply, hoffset]
  rw [(takes_word32 _).bind_apply,
    Reader.require_bind_apply (by simpa using hversion)]
  simp only [List.nil_append]
  rfl

/-- The counts and tables of a header are read back, whatever stands in front
of them. The hypotheses on sizes are those that make every count, length and
place come back from its 32-bit field. -/
theorem readTables_apply {front : Header.Front} {isDebug : Bool}
    {place total : Nat} {before padding rest : List UInt8} {types : List String}
    {hashes positions : List UInt32}
    (hcount : hashes.length ≤ maxLength)
    (hpositions : positions.length = hashes.length)
    (htypes : (types.flatMap encodeText).length ≤ maxLength)
    (hpadding : Header.paddingAt
      (before.length + 8 + (types.flatMap encodeText).length) = padding.length)
    (hplace : place ≤ maxLength) (htotal : place + 4 ≤ total)
    (hnames : before.length + 8 + (types.flatMap encodeText).length +
      padding.length + 8 * hashes.length ≤ place) :
    (Header.readTables total front isDebug (.between before
      (word32 (UInt32.ofNat hashes.length) ++
      (word32 (UInt32.ofNat types.length) ++ (types.flatMap encodeText ++
      (padding ++ (hashes.flatMap word32 ++ (positions.flatMap word32 ++
      (word32 (UInt32.ofNat place) ++ rest))))))))).1 =
      .ok { front with
        isDebug, count := UInt32.ofNat hashes.length, typeNames := types
        padding := padding.length, hashes, positions
        dataSection := place + 4
        nameSection := before.length + 8 + (types.flatMap encodeText).length +
          padding.length + 8 * hashes.length + 4 } := by
  have htypeCount := length_types_le types
  have htexts := Reader.takes_times types fun type htype =>
    takes_readText (Nat.le_trans (length_encode_le_of_mem htype) htypes)
  have hhashTable :=
    Reader.takes_times hashes fun hash _ => takes_word32 hash
  have hpositionTable :=
    Reader.takes_times positions fun position _ => takes_word32 position
  rw [List.map_id'] at htexts hhashTable hpositionTable
  rw [hpositions] at hpositionTable
  have hhashBytes : (hashes.flatMap word32).length = 4 * hashes.length :=
    length_flatMap_word32 hashes id
  have hpositionBytes :
      (positions.flatMap word32).length = 4 * hashes.length :=
    hpositions ▸ length_flatMap_word32 positions id
  have hafterTypes : (before ++ word32 (UInt32.ofNat hashes.length) ++
      word32 (UInt32.ofNat types.length) ++ types.flatMap encodeText).length =
        before.length + 8 + (types.flatMap encodeText).length := by
    simp only [List.length_append, length_word32]
  have hafterTables : (before ++ word32 (UInt32.ofNat hashes.length) ++
      word32 (UInt32.ofNat types.length) ++ types.flatMap encodeText ++
      padding ++ hashes.flatMap word32 ++ positions.flatMap word32 ++
      word32 (UInt32.ofNat place)).length =
        before.length + 8 + (types.flatMap encodeText).length +
          padding.length + 8 * hashes.length + 4 := by
    simp only [List.length_append, length_word32, hhashBytes, hpositionBytes]
    omega
  -- the padding ends in front of a place that a 32-bit word can say
  have hspan : (before ++ word32 (UInt32.ofNat hashes.length) ++
      word32 (UInt32.ofNat types.length) ++ types.flatMap encodeText).length +
        padding.length < Reader.addressSpan := by
    rw [hafterTypes]
    unfold Reader.addressSpan maxLength at *
    omega
  rw [Header.readTables, (takes_word32 _).bind_apply,
    Reader.remaining_bind_apply, toNat_word hcount]
  rw [Reader.require_bind_apply (by
    simp only [List.length_append, decide_eq_true_iff]
    omega)]
  rw [(takes_word32 _).bind_apply, Reader.remaining_bind_apply,
    toNat_word (Nat.le_trans htypeCount htypes)]
  rw [Reader.require_bind_apply (by
    simp only [List.length_append, decide_eq_true_iff]
    omega)]
  rw [htexts.bind_apply, Reader.position_bind_apply, hafterTypes]
  dsimp only
  rw [hpadding, Reader.advance_bind_apply hspan, hhashTable.bind_apply,
    hpositionTable.bind_apply, (takes_word32 _).bind_apply,
    Reader.position_bind_apply, hafterTables, toNat_word hplace]
  rw [Reader.require_bind_apply (by
    rw [Bool.and_eq_true, decide_eq_true_iff, decide_eq_true_iff]
    omega)]
  rfl

namespace Format

section

variable (F : Format γ) (entries : List (String × γ))

/-- What a header of this format says in front of its counts. -/
def front : Header.Front where
  managerVersion := 1
  managerSize := lengthField classNames.length
  readerType := readerTypeName
  resourceSetType := resourceSetTypeName
  readerOffset := 16 + classNames.length
  version := F.version

/-- What a reader finds at the front of the blob, if it takes nothing there for
a marker. -/
def header : Header where
  toFront := F.front
  isDebug := false
  count := UInt32.ofNat entries.length
  typeNames := F.typeNames
  padding := (filler (F.opening entries.length).length).length
  hashes := (sortByHash entries).map fun e => nameHash e.1
  positions := (F.slots 0 0 (sortByHash entries)).map Slot.position
  nameSection := 8 + (F.tables entries).length
  dataSection := 8 + (F.tables entries).length + (F.names entries).length

/-- What stands in front of the counts, which is where a marker would stand. -/
def beforeCounts (size : Nat) : List UInt8 :=
  word32 (UInt32.ofNat size) ++ word32 magic ++ word32 1 ++
    word32 (lengthField classNames.length) ++ classNames ++ word32 F.version

/-- What stands behind the place of a marker. Its first byte decides whether
there is one. -/
def counts : List UInt8 :=
  word32 (UInt32.ofNat entries.length) ++
    (word32 (UInt32.ofNat F.typeNames.length) ++
    (F.typeNames.flatMap encodeText ++
    (filler (F.opening entries.length).length ++
    ((sortByHash entries).flatMap (fun e => word32 (nameHash e.1)) ++
    ((F.slots 0 0 (sortByHash entries)).flatMap (fun s => word32 s.position) ++
    (word32 (UInt32.ofNat
      ((F.tables entries).length + 4 + (F.names entries).length)) ++
    (F.names entries ++ F.values entries)))))))

end

variable {F : Format γ} {entries : List (String × γ)}

theorem blob_eq : F.blob entries =
    F.beforeCounts (F.stream entries).length ++ F.counts entries := by
  rw [blob, beforeCounts, counts]
  generalize (F.stream entries).length = size
  rw [stream]
  generalize (F.tables entries).length + 4 + (F.names entries).length = place
  simp only [tables, opening, List.append_assoc]

theorem length_beforeCounts (size : Nat) :
    (F.beforeCounts size).length = 20 + classNames.length := by
  simp only [beforeCounts, List.length_append, length_word32]
  omega

theorem beforeCounts_append (size : Nat) (rest : List UInt8) :
    F.beforeCounts size ++ rest = word32 (UInt32.ofNat size) ++
      (word32 magic ++ (word32 1 ++ (word32 (lengthField classNames.length) ++
      (classNames ++ (word32 F.version ++ rest))))) := by
  rw [beforeCounts]
  simp only [List.append_assoc]

/-- Reading a blob is reading its marker and then its tables. The front of the
header is read back in any case, so what is left to be said about a format is
what its entry count looks like. -/
theorem parse_eq (hversion : F.version = 1 ∨ F.version = 2)
    (hsize : (F.stream entries).length ≤ maxLength) :
    Header.parse (F.blob entries) =
      ((Header.readMarker F.version >>=
          Header.readTables (4 + (F.stream entries).length) F.front)
        (.between (F.beforeCounts (F.stream entries).length)
          (F.counts entries))).1 := by
  have hle := @le_length_stream _ F entries
  have hlen := @length_blob _ F entries
  rw [blob_eq, beforeCounts_append] at hlen
  have hfront := readFront_apply
    (takes_readClasses (lengthField classNames.length)) hversion hsize
    (by omega) rfl (F.counts entries)
  rw [Header.parse, Reader.on, Cursor.ofBytes_eq_between, blob_eq,
    beforeCounts_append, Header.read, Reader.total_bind_apply,
    List.length_nil, Nat.zero_add, hlen, Reader.bind_apply_of_ok hfront]
  rfl

theorem paddingAt_opening (count : Nat) :
    Header.paddingAt (4 + (F.opening count).length) =
      (filler (F.opening count).length).length := by
  rw [Header.paddingAt, length_filler, Nat.add_sub_cancel_left]

theorem readTables_counts (hsize : (F.stream entries).length ≤ maxLength) :
    (Header.readTables (4 + (F.stream entries).length) F.front false
      (.between (F.beforeCounts (F.stream entries).length)
        (F.counts entries))).1 = .ok (F.header entries) := by
  have hwhole := Nat.le_trans le_length_stream hsize
  have hlength := @length_stream _ F entries
  have hbefore := F.length_beforeCounts (F.stream entries).length
  have hcount : ((sortByHash entries).map fun e => nameHash e.1).length =
      entries.length := by
    rw [List.length_map, length_sortByHash]
  have hpositions :
      ((F.slots 0 0 (sortByHash entries)).map Slot.position).length =
        entries.length := by
    rw [List.length_map, length_slots, length_sortByHash]
  -- where the type table ends, counted from the start of the blob
  have htypes : (F.beforeCounts (F.stream entries).length).length + 8 +
      (F.typeNames.flatMap encodeText).length =
        4 + (F.opening entries.length).length := by
    rw [hbefore, length_opening]
    omega
  have htables := @length_tables _ F entries
  have hread := @readTables_apply F.front false
    ((F.tables entries).length + 4 + (F.names entries).length)
    (4 + (F.stream entries).length)
    (F.beforeCounts (F.stream entries).length)
    (filler (F.opening entries.length).length)
    (F.names entries ++ F.values entries) F.typeNames
    ((sortByHash entries).map fun e => nameHash e.1)
    ((F.slots 0 0 (sortByHash entries)).map Slot.position)
    (by omega) (by omega) (by omega) (by rw [htypes, paddingAt_opening])
    (by omega) (by omega) (by omega)
  have hname : 4 + (F.opening entries.length).length +
      (filler (F.opening entries.length).length).length + 8 * entries.length +
        4 = 8 + (F.tables entries).length := by omega
  have hdata :
      (F.tables entries).length + 4 + (F.names entries).length + 4 =
        8 + (F.tables entries).length + (F.names entries).length := by omega
  rw [htypes, hcount, hname, hdata, List.flatMap_map, List.flatMap_map]
    at hread
  rw [counts, hread, header]

/-- The entry count of a blob does not pass for a marker. Blobs of the first
version have no markers, so nothing in them can pass for one. -/
def Unmarked (F : Format γ) (entries : List (String × γ)) : Prop :=
  F.version = 1 ∨ F.version = 2 ∧ entries.length % 256 ≠ '*'.toNat

/-- The first byte behind the place of a marker is the lowest byte of the entry
count. -/
theorem counts_eq_cons (hsize : (F.stream entries).length ≤ maxLength) :
    ∃ b rest, F.counts entries = b :: rest ∧
      b.toNat = entries.length % 256 := by
  have hle := @le_length_stream _ F entries
  have hcount : (UInt32.ofNat entries.length).toNat = entries.length :=
    toNat_word (by omega)
  refine ⟨UInt8.ofNat (UInt32.ofNat entries.length).toNat, _, rfl, ?_⟩
  rw [hcount, UInt8.toNat_ofNat']

theorem parse_blob (hsize : (F.stream entries).length ≤ maxLength)
    (hunmarked : F.Unmarked entries) :
    Header.parse (F.blob entries) = .ok (F.header entries) := by
  have hmarker : Header.readMarker F.version
      (.between (F.beforeCounts (F.stream entries).length) (F.counts entries)) =
      (.ok false, .between (F.beforeCounts (F.stream entries).length)
        (F.counts entries)) := by
    rcases hunmarked with hversion | ⟨hversion, hn⟩
    · rw [hversion]
      rfl
    · obtain ⟨b, rest, hcounts, hb⟩ := counts_eq_cons hsize
      rw [hversion, hcounts]
      exact readMarker_of_ne (hb ▸ hn) _ rest
  rw [parse_eq (hunmarked.imp id And.left) hsize,
    Reader.bind_apply_of_ok hmarker, readTables_counts hsize]

/-! ## Entries -/

end Format

/-- The name stands in `blob` as a record at a place of the name section, which
gives the place of the bytes of its value in the data section. This is all that
reading an entry needs to know about the rest of the blob. -/
inductive Placed (blob : List UInt8) (h : Header) (name : String)
    (value : List UInt8) (position : UInt32) : Prop
  | intro {front rest front' rest' : List UInt8} {place : UInt32} :
      blob = front ++ (spelledName name ++ (word32 place ++ rest)) →
      h.nameSection + position.toNat = front.length →
      blob = front' ++ (value ++ rest') →
      h.dataSection + place.toNat = front'.length →
      Placed blob h name value position

/-- Reads the name at a place of the name section. -/
def Header.readNameAt (h : Header) (position : UInt32) : Reader String := do
  Reader.seek (h.nameSection + position.toNat)
  readName

theorem spelledName_ne_nil (name : String) : spelledName name ≠ [] :=
  List.append_ne_nil_of_left_ne_nil (SevenBit.encodeNat_ne_nil _) _

section Found

variable {blob value : List UInt8} {h : Header} {name : String}
  {position : UInt32}

theorem Placed.finds_name (hp : Placed blob h name value position)
    (hne : name ≠ "")
    (hlen : (nameBytes name).length ≤ maxLength) :
    Finds (h.readNameAt position) blob name := by
  cases hp with
  | @intro front rest _ _ place hrecord hposition _ _ =>
      intro c hc
      rw [hrecord] at hc
      refine ⟨.between (front ++ spelledName name) (word32 place ++ rest), ?_,
        ?_⟩
      · rw [hrecord, Cursor.between, List.append_assoc]
      · rw [Header.readNameAt, hposition,
          Reader.seek_bind_apply hc (by simp [spelledName_ne_nil])]
        exact takes_readName hne hlen front (word32 place ++ rest)

theorem Placed.finds_entry {v : Value} (hp : Placed blob h name value position)
    (hne : name ≠ "")
    (hlen : (nameBytes name).length ≤ maxLength) (hvalue : value ≠ [])
    (htakes : Takes h.readValue value v) (hash : UInt32) :
    Finds (h.readEntry hash position) blob ⟨name, hash, v⟩ := by
  cases hp with
  | @intro front rest front' rest' place hrecord hposition hdata hplace =>
      intro c hc
      -- the record leaves the cursor among the names, still over the same
      -- bytes
      have hbetween :
          (Cursor.between (front ++ spelledName name ++ word32 place)
            rest).data =
          (front' ++ (value ++ rest')).toArray := by
        rw [← hdata, hrecord, Cursor.between]
        simp only [List.append_assoc]
      rw [hrecord] at hc
      refine ⟨.between (front' ++ value) rest', ?_, ?_⟩
      · rw [hdata, Cursor.between, List.append_assoc]
      · rw [Header.readEntry, hposition,
          Reader.seek_bind_apply hc (by simp [spelledName_ne_nil]),
          (takes_readName hne hlen).bind_apply,
          (takes_word32 place).bind_apply, hplace,
          Reader.seek_bind_apply hbetween (by simp [hvalue]), htakes.bind_apply]
        rfl

end Found

namespace Format

variable {F : Format γ} {entries : List (String × γ)}

/-- Every entry is placed, given the bytes that the slots in front of it fill.
By induction on the entries: what was passed grows by a record and a value, as
the places in the slots do. -/
theorem placed_of_mem {h : Header} {front names values : List UInt8}
    (hname : h.nameSection = front.length)
    (hdata : h.dataSection = front.length + names.length)
    (hnames : names.length ≤ maxLength) (hvalues : values.length ≤ maxLength)
    {passed passed' : List UInt8}
    (hn : names = passed ++ (F.slots passed.length passed'.length
      entries).flatMap Slot.name)
    (hv : values = passed' ++ (F.slots passed.length passed'.length
      entries).flatMap Slot.data) :
    ∀ p ∈ entries.zip (F.slots passed.length passed'.length entries),
      Placed (front ++ (names ++ values)) h p.1.1
        (F.spell p.1.2) p.2.position := by
  induction entries generalizing passed passed' with
  | nil => simp
  | cons e more ih =>
      obtain ⟨name, value⟩ := e
      have hpassed : passed.length ≤ maxLength := by
        rw [hn, List.length_append] at hnames
        omega
      have hpassed' : passed'.length ≤ maxLength := by
        rw [hv, List.length_append] at hvalues
        omega
      rw [slots, List.flatMap_cons] at hn hv
      dsimp only at hn hv
      rw [slots]
      intro p hp
      rw [List.zip_cons_cons, List.mem_cons] at hp
      rcases hp with rfl | hp
      · generalize (F.slots _ _ more).flatMap Slot.name = moreNames at hn
        generalize (F.slots _ _ more).flatMap Slot.data = moreValues at hv
        have hrecord : front ++ (names ++ values) =
            (front ++ passed) ++ (spelledName name ++
            (word32 (UInt32.ofNat passed'.length) ++
              (moreNames ++ values))) := by
          rw [hn, word32_ofNat hpassed']
          simp only [List.append_assoc]
        have hvalue : front ++ (names ++ values) =
            (front ++ (names ++ passed')) ++ (F.spell value ++ moreValues) := by
          rw [hv]
          simp only [List.append_assoc]
        refine .intro hrecord ?_ hvalue ?_
        · rw [hname, toNat_word hpassed, List.length_append]
        · rw [hdata, toNat_word hpassed', List.length_append,
            List.length_append, Nat.add_assoc]
      · -- the slots behind this one start where its record and its value end
        have hstep : passed.length + recordSize name =
            (passed ++ (spelledName name ++
              LittleEndian.bytes 4 passed'.length)).length := by
          rw [List.length_append, length_record]
        have hstep' : passed'.length + (F.spell value).length =
            (passed' ++ F.spell value).length := by
          rw [List.length_append]
        rw [hstep, hstep'] at hn hv hp
        rw [← List.append_assoc] at hn hv
        exact ih hn hv p hp

/-- Every entry of a blob is placed where the tables of its header lead. -/
theorem placed_blob (hsize : (F.stream entries).length ≤ maxLength) :
    ∀ p ∈ (sortByHash entries).zip (F.slots 0 0 (sortByHash entries)),
      Placed (F.blob entries) (F.header entries) p.1.1
        (F.spell p.1.2) p.2.position := by
  have hblob : F.blob entries =
      (word32 (UInt32.ofNat (F.stream entries).length) ++
      (F.tables entries ++
        word32 (UInt32.ofNat ((F.tables entries).length + 4 +
          (F.names entries).length)))) ++
      (F.names entries ++ F.values entries) := by
    rw [blob]
    generalize UInt32.ofNat (F.stream entries).length = size
    simp only [stream, List.append_assoc]
  rw [hblob]
  rw [length_stream] at hsize
  refine @placed_of_mem _ F (sortByHash entries) _ _ _ _ ?_ ?_ (by omega)
    (by omega) [] [] rfl rfl
  · simp only [header, List.length_append, length_word32]
    omega
  · simp only [header, List.length_append, length_word32]
    omega

theorem fits_of_mem (hsize : (F.stream entries).length ≤ maxLength)
    {e : String × γ} (he : e ∈ entries) :
    (nameBytes e.1).length ≤ maxLength ∧ (F.spell e.2).length ≤ maxLength := by
  have hname : (nameBytes e.1).length ≤ recordSize e.1 := by
    rw [recordSize, spelledName, List.length_append]
    omega
  have hrecord := List.le_sum_of_mem
    (List.mem_map_of_mem (f := fun e => recordSize e.1) he)
  have hspell := List.le_sum_of_mem
    (List.mem_map_of_mem (f := fun e => (F.spell e.2).length) he)
  rw [← @length_names _ F] at hrecord
  rw [← length_values] at hspell
  rw [length_stream] at hsize
  omega

/-- The entries of a blob, in the order of the header, as far as their values
are read back. What the format has to show for itself is `hread`: the bytes of
a value are not empty, and reading takes them for the value. -/
theorem readEntries_blob (hsize : (F.stream entries).length ≤ maxLength)
    (hnames : ∀ e ∈ entries, e.1 ≠ "") {view : γ → Value}
    (hread : ∀ e ∈ entries, F.spell e.2 ≠ [] ∧
      Takes (F.header entries).readValue (F.spell e.2) (view e.2)) :
    (F.header entries).readEntries.on (F.blob entries) =
      .ok ((sortByHash entries).map fun e =>
        ⟨e.1, nameHash e.1, view e.2⟩) := by
  have hzip : (F.header entries).hashes.zip (F.header entries).positions =
      ((sortByHash entries).zip (F.slots 0 0 (sortByHash entries))).map
        fun p => (nameHash p.1.1, p.2.position) := by
    rw [header, List.zip_map]
    rfl
  have hfound :
      ∀ p ∈ (sortByHash entries).zip (F.slots 0 0 (sortByHash entries)),
      Finds ((F.header entries).readEntry (nameHash p.1.1) p.2.position)
        (F.blob entries) ⟨p.1.1, nameHash p.1.1, view p.1.2⟩ := by
    intro p hp
    have hmem : p.1 ∈ entries :=
      (sortByHash_perm entries).mem_iff.1 (List.of_mem_zip hp).1
    obtain ⟨hspelled, htakes⟩ := hread _ hmem
    exact (placed_blob hsize p hp).finds_entry (hnames _ hmem)
      (fits_of_mem hsize hmem).1 hspelled htakes _
  have hentries :
      ((sortByHash entries).zip (F.slots 0 0 (sortByHash entries))).map
      (fun p => (⟨p.1.1, nameHash p.1.1, view p.1.2⟩ : Entry)) =
      (sortByHash entries).map fun e => ⟨e.1, nameHash e.1, view e.2⟩ := by
    show List.map ((fun e : String × γ =>
      (⟨e.1, nameHash e.1, view e.2⟩ : Entry)) ∘ Prod.fst) _ = _
    rw [← List.map_map, List.map_fst_zip]
    exact Nat.le_of_eq (length_slots 0 0).symm
  rw [Header.readEntries, hzip, ← hentries]
  exact (Reader.finds_each _ hfound).on_eq

end Format

/-! ## Filing -/

theorem fileEntries_concat (entries : List Entry) (last : Entry) :
    fileEntries (entries ++ [last]) =
      (fileEntries entries).insert last.name last := by
  rw [fileEntries, List.foldl_append, List.foldl_cons, List.foldl_nil,
    fileEntries]

/-- What is filed under a name is one of the entries, and has that name. It is
the last one of that name, which does not matter where names differ. -/
theorem mem_of_getElem?_fileEntries {entries : List Entry} {name : String}
    {entry : Entry}
    (h : (fileEntries entries)[name]? = some entry) :
    entry ∈ entries ∧ entry.name = name := by
  induction entries using List.reverseRecOn with
  | nil => simp [fileEntries] at h
  | append_singleton front last ih =>
      rw [fileEntries_concat, Std.TreeMap.getElem?_insert] at h
      split at h
      · next heq =>
          cases h
          rw [Std.LawfulEqCmp.compare_eq_iff_eq] at heq
          exact ⟨by simp, heq⟩
      · obtain ⟨hmem, hname⟩ := ih h
        exact ⟨List.mem_append_left _ hmem, hname⟩

/-- No entry is replaced by one of another name. -/
theorem getElem?_fileEntries_of_mem {entries : List Entry}
    (hdistinct : (entries.map Entry.name).Nodup) {e : Entry}
    (he : e ∈ entries) :
    (fileEntries entries)[e.name]? = some e := by
  induction entries using List.reverseRecOn with
  | nil => cases he
  | append_singleton front last ih =>
      rw [List.map_append, List.nodup_append] at hdistinct
      obtain ⟨hfront, -, hnew⟩ := hdistinct
      rw [fileEntries_concat, Std.TreeMap.getElem?_insert]
      rcases List.mem_append.1 he with hmem | hmem
      · rw [if_neg, ih hfront hmem]
        rw [Std.LawfulEqCmp.compare_eq_iff_eq]
        exact (hnew _ (List.mem_map_of_mem hmem) _ (by simp)).symm
      · obtain rfl := List.mem_singleton.1 hmem
        rw [if_pos Std.ReflCmp.compare_self]

section Filed

variable {entries : List (String × γ)}

/-- The entries of a blob are filed as they were laid out, and nothing else is.
The order by hash is lost again in the map. -/
theorem getElem?_filed (hdistinct : (entries.map Prod.fst).Nodup)
    (view : γ → Value) (name : String) (entry : Entry) :
    (fileEntries ((sortByHash entries).map fun e =>
      ⟨e.1, nameHash e.1, view e.2⟩))[name]? =
        some entry ↔
      ∃ v, (name, v) ∈ entries ∧ entry = ⟨name, nameHash name, view v⟩ := by
  have hperm := sortByHash_perm entries
  constructor
  · intro h
    obtain ⟨hmem, hname⟩ := mem_of_getElem?_fileEntries h
    obtain ⟨⟨written, v⟩, he, rfl⟩ := List.mem_map.1 hmem
    obtain rfl : written = name := hname
    exact ⟨v, hperm.mem_iff.1 he, rfl⟩
  · intro h
    obtain ⟨v, hmem, rfl⟩ := h
    have hnames : (((sortByHash entries).map
        fun e => (⟨e.1, nameHash e.1, view e.2⟩ : Entry)).map
        Entry.name).Nodup := by
      rw [List.map_map]
      exact (hperm.map Prod.fst).nodup_iff.2 hdistinct
    exact getElem?_fileEntries_of_mem hnames
      (List.mem_map.2 ⟨_, hperm.mem_iff.2 hmem, rfl⟩)

/-- The map of a blob, as far as its values are read back. -/
theorem Format.entriesOf_blob {F : Format γ}
    (hsize : (F.stream entries).length ≤ maxLength)
    (hunmarked : F.Unmarked entries) (hnames : ∀ e ∈ entries, e.1 ≠ "")
    {view : γ → Value} (hread : ∀ e ∈ entries, F.spell e.2 ≠ [] ∧
      Takes (F.header entries).readValue (F.spell e.2) (view e.2)) :
    entriesOf (F.blob entries) =
      .ok (fileEntries ((sortByHash entries).map fun e =>
        ⟨e.1, nameHash e.1, view e.2⟩)) := by
  rw [entriesOf, F.parse_blob hsize hunmarked]
  show (do
    let read ← (F.header entries).readEntries.on (F.blob entries)
    return fileEntries read) = _
  rw [F.readEntries_blob hsize hnames hread]
  rfl

end Filed

end CilAudit.Resource
