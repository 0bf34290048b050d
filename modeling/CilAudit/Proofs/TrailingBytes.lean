import CilAudit.Proofs.HeaderRecovery
import CilAudit.Trace.Cache
import Mathlib.Data.List.Basic

/-!
# Bytes behind a blob say nothing

A blob is often found at the front of something longer. What was read from it
stays as it is when bytes are added behind: every read that found its bytes
finds the same ones at the same places, and the sizes that a reader compares
with only grow. The second is why the statement is about success only. A blob
refused for want of bytes may well be accepted with more of them.

`Persists m m'` says this of two readers, because a reader that asked for a
size goes on with a larger one over the longer data. One reader breaks the
rule: the text of a debug marker ends at a zero byte or where the data ends,
and in the second case more data is more text. But then the cursor stands at
the end, and what comes behind a marker, the entry count, finds no bytes there
(`PersistsUnlessEnded.bind_of_hungry`).
-/

namespace CilAudit

/-- The same place in data that goes on with `more`. -/
def Cursor.grow (c : Cursor) (more : List UInt8) : Cursor :=
  ⟨c.data ++ more.toArray, c.pos⟩

namespace Cursor

variable (c : Cursor) (more : List UInt8)

theorem ofBytes_append (bytes : List UInt8) :
    ofBytes (bytes ++ more) = (ofBytes bytes).grow more := by
  simp [ofBytes, grow]

@[simp] theorem pos_grow : (c.grow more).pos = c.pos := rfl

@[simp] theorem size_grow :
    (c.grow more).data.size = c.data.size + more.length := by
  simp [grow]

theorem moveTo_grow (pos : Nat) :
    (c.grow more).moveTo pos = (c.moveTo pos).grow more := rfl

theorem getElem?_grow {b : UInt8} (h : c.data[c.pos]? = some b) :
    (c.grow more).data[(c.grow more).pos]? = some b := by
  have hlt : c.pos < c.data.size := (Array.getElem?_eq_some_iff.1 h).1
  show (c.data ++ more.toArray)[c.pos]? = some b
  rw [Array.getElem?_append_left hlt, h]

theorem window?_grow {n : Nat} {bs : List UInt8} (h : c.window? n = some bs) :
    (c.grow more).window? n = some bs := by
  unfold window? at h ⊢
  split at h
  · next hfits =>
      rw [if_pos (by simp; omega), ← h]
      show some ((c.data ++ more.toArray).extract c.pos (c.pos + n)).toList = _
      rw [Array.extract_append, Nat.sub_eq_zero_of_le hfits]
      simp
  · cases h

theorem rest_grow (h : c.pos ≤ c.data.size) :
    (c.grow more).rest = c.rest ++ more := by
  show (c.data ++ more.toArray).toList.drop c.pos =
    c.data.toList.drop c.pos ++ more
  rw [Array.toList_append, List.drop_append_of_le_length (by simpa using h)]

end Cursor

namespace Reader

variable {α β : Type}

/-- What `m` yields, `m'` yields over data that goes on, and ends at the same
place. Mostly `m'` is `m`; where a reader is told the size of the data, it is
the same reader told a larger one. -/
def Persists (m m' : Reader α) : Prop :=
  ∀ c c' a more, m c = (.ok a, c') → m' (c.grow more) = (.ok a, c'.grow more)

theorem Persists.on_eq {m m' : Reader α} (h : Persists m m')
    {bytes : List UInt8} {a : α}
    (more : List UInt8) (hm : m.on bytes = .ok a) :
    m'.on (bytes ++ more) = .ok a := by
  have hwhole : m (.ofBytes bytes) = (.ok a, (m (.ofBytes bytes)).2) :=
    Prod.ext hm rfl
  rw [on, Cursor.ofBytes_append, h _ _ _ more hwhole]

/-! ## Sequences -/

theorem persists_pure (a : α) : Persists (pure a) (pure a) := by
  intro c c' b more h
  cases h
  rfl

theorem persists_fail (fault : Fault) (m : Reader α) :
    Persists (fail fault) m := by
  intro c c' a more h
  cases h

theorem Persists.bind {m m' : Reader α} {f f' : α → Reader β}
    (hm : Persists m m')
    (hf : ∀ a, Persists (f a) (f' a)) : Persists (m >>= f) (m' >>= f') := by
  intro c c'' b more h
  obtain ⟨a, c', hma, hfa⟩ := exists_of_bind_eq_ok h
  rw [bind_apply_of_ok (hm _ _ _ more hma)]
  exact hf a _ _ _ more hfa

theorem Persists.yield {m m' : Reader α} (hm : Persists m m') (f : α → β) :
    Persists (m >>= fun a => pure (f a)) (m' >>= fun a => pure (f a)) :=
  hm.bind fun a => persists_pure (f a)

theorem persists_require {holds holds' : Bool} {reason reason' : Flaw}
    (himp : holds = true → holds' = true) :
    Persists (require holds reason) (require holds' reason') := by
  cases hh : holds with
  | false => exact persists_fail _ _
  | true =>
      rw [himp hh]
      exact persists_pure ()

theorem persists_position : Persists position position := by
  intro c c' a more h
  cases h
  rfl

/-- A size that is asked for is a larger one over the longer data. Readers
compare sizes with it from below only, so a larger one refuses nothing new. -/
theorem Persists.of_total {f : Nat → Reader β}
    (hf : ∀ n n', n ≤ n' → Persists (f n) (f n')) :
    Persists (total >>= f) (total >>= f) := by
  intro c c' b more h
  have hle : c.size ≤ (c.grow more).size := by simp [Cursor.size]
  exact hf _ _ hle _ _ _ more h

theorem Persists.of_remaining {f f' : Nat → Reader β}
    (hf : ∀ n n', n ≤ n' → Persists (f n) (f' n')) :
    Persists (remaining >>= f) (remaining >>= f') := by
  intro c c' b more h
  have hle : c.remaining ≤ (c.grow more).remaining := by
    simp only [Cursor.remaining, Cursor.size_grow, Cursor.pos_grow]
    omega
  exact hf _ _ hle _ _ _ more h

theorem persists_times {m : Reader α} (hm : Persists m m) (n : Nat) :
    Persists (times m n) (times m n) := by
  induction n with
  | zero => exact persists_pure []
  | succ n ih => exact hm.bind fun a => ih.yield fun as => a :: as

theorem persists_each {m : α → Reader β} (hm : ∀ a, Persists (m a) (m a))
    (as : List α) :
    Persists (each m as) (each m as) := by
  induction as with
  | nil => exact persists_pure []
  | cons a as ih => exact (hm a).bind fun b => ih.yield fun bs => b :: bs

/-! ## Reads -/

theorem persists_seek (target : Nat) :
    Persists (seek target) (seek target) := by
  intro c c' a more h
  unfold seek at h ⊢
  split at h
  · next hlt =>
      cases h
      rw [if_pos (by simp; omega), Cursor.moveTo_grow]
  · cases h

/-- A step out of the address space is one whatever comes behind the data. -/
theorem persists_advance (n : Nat) : Persists (advance n) (advance n) := by
  intro c c' a more h
  unfold advance at h ⊢
  dsimp only at h ⊢
  split at h
  · cases h
  · next hspan =>
      split at h
      · next hfits =>
          cases h
          rw [Cursor.pos_grow, if_neg hspan, if_pos (by simp; omega),
            Cursor.moveTo_grow]
      · cases h

theorem persists_peek : Persists peek peek := by
  intro c c' a more h
  unfold peek at h ⊢
  split at h
  · next b hb =>
      cases h
      rw [Cursor.getElem?_grow c more hb]
  · cases h

theorem persists_byte : Persists byte byte := by
  intro c c' a more h
  unfold byte at h ⊢
  split at h
  · next b hb =>
      cases h
      rw [Cursor.getElem?_grow c more hb]
      rfl
  · cases h

theorem persists_bytes (n : Nat) : Persists (bytes n) (bytes n) := by
  intro c c' a more h
  unfold bytes at h ⊢
  split at h
  · next bs hbs =>
      cases h
      rw [Cursor.window?_grow c more hbs]
      rfl
  · cases h

theorem persists_word (width : Nat) : Persists (word width) (word width) :=
  (persists_bytes width).yield LittleEndian.value

theorem persists_uint8 : Persists uint8 uint8 :=
  (persists_word 1).yield UInt8.ofNat

theorem persists_uint16 : Persists uint16 uint16 :=
  (persists_word 2).yield UInt16.ofNat

theorem persists_uint32 : Persists uint32 uint32 :=
  (persists_word 4).yield UInt32.ofNat

theorem persists_uint64 : Persists uint64 uint64 :=
  (persists_word 8).yield UInt64.ofNat

theorem persists_int32 : Persists int32 int32 :=
  persists_uint32.yield UInt32.toInt32

theorem persists_int64 : Persists int64 int64 :=
  persists_uint64.yield UInt64.toInt64

/-! ## Text that may run to the end -/

/-- `m` yields nothing where no bytes are left, so whatever stood in front of
it did not take everything. -/
def Hungry (m : Reader α) : Prop := ∀ c a, c.data.size ≤ c.pos → (m c).1 ≠ .ok a

theorem Hungry.bind {m : Reader α} (hm : Hungry m) (f : α → Reader β) :
    Hungry (m >>= f) := by
  intro c b hend h
  obtain ⟨a, c', hma, -⟩ := ok_of_bind_ok h
  exact hm _ _ hend (congrArg Prod.fst hma)

theorem hungry_bytes {n : Nat} (hn : 0 < n) : Hungry (bytes n) := by
  intro c a hend h
  have hnone : c.window? n = none := by
    rw [Cursor.window?, if_neg]
    omega
  rw [bytes, hnone] at h
  cases h

theorem hungry_uint32 : Hungry uint32 :=
  ((hungry_bytes (by decide)).bind _).bind _

/-- Like `Persists`, unless the reading took all there was. A text without its
zero byte is the one reading that longer data can change, and a header goes on
behind it. -/
def PersistsUnlessEnded (m m' : Reader α) : Prop :=
  ∀ c c' a more, m c = (.ok a, c') →
    m' (c.grow more) = (.ok a, c'.grow more) ∨ c'.data.size ≤ c'.pos

theorem PersistsUnlessEnded.bind_of_hungry {m m' : Reader α}
    {f f' : α → Reader β}
    (hm : PersistsUnlessEnded m m') (hf : ∀ a, Persists (f a) (f' a))
    (hhungry : ∀ a, Hungry (f a)) : Persists (m >>= f) (m' >>= f') := by
  intro c c'' b more h
  obtain ⟨a, c', hma, hfa⟩ := exists_of_bind_eq_ok h
  rcases hm _ _ _ more hma with hgrown | hend
  · rw [bind_apply_of_ok hgrown]
    exact hf a _ _ _ more hfa
  · exact absurd (congrArg Prod.fst hfa) (hhungry a _ _ hend)

theorem Persists.unlessEnded {m m' : Reader α} (hm : Persists m m') :
    PersistsUnlessEnded m m' :=
  fun c c' a more h => .inl (hm c c' a more h)

/-- A text that ends at a zero byte is the same text; one that does not took
all there was. -/
theorem persistsUnlessEnded_textToZero :
    PersistsUnlessEnded textToZero textToZero := by
  intro c c' text more h
  by_cases hzero : c.pos + (c.rest.takeWhile (· != 0)).length < c.data.size
  · left
    have hpos : c.pos ≤ c.data.size := by omega
    have hshort : (c.rest.takeWhile (· != 0)).length < c.rest.length := by
      rw [Cursor.length_rest, Cursor.remaining]
      omega
    have hsame : (c.grow more).rest.takeWhile (· != 0) =
        c.rest.takeWhile (· != 0) := by
      rw [Cursor.rest_grow c more hpos, List.takeWhile_append,
        if_neg (by omega)]
    have hzero' : c.pos + (c.rest.takeWhile (· != 0)).length <
        (c.grow more).data.size := by
      rw [Cursor.size_grow]
      omega
    simp only [textToZero, hsame, Cursor.pos_grow, if_pos hzero,
      if_pos hzero'] at h ⊢
    split at h
    · cases h
      rfl
    · cases h
  · right
    simp only [textToZero, if_neg hzero] at h
    split at h
    · cases h
      exact Nat.le_of_not_lt hzero
    · cases h

end Reader

/-! ## What blobs are made of -/

theorem SevenBit.persists_groups (left : Nat) :
    Reader.Persists (groups left) (groups left) := by
  induction left with
  | zero => exact Reader.persists_fail _ _
  | succ left ih =>
      refine Reader.persists_byte.bind fun b => ?_
      split
      · exact Reader.persists_pure [b]
      · exact ih.yield fun more => b :: more

theorem SevenBit.persists_read : Reader.Persists read read :=
  (persists_groups maxBytes).yield fun bs => UInt32.ofNat (denoted bs)

namespace Resource

open Reader (Persists)

theorem persists_readText : Persists readText readText := by
  refine SevenBit.persists_read.bind fun length => ?_
  refine Reader.persists_position.bind fun offset => ?_
  refine (Reader.persists_bytes _).bind fun bytes => ?_
  split
  · exact Reader.persists_pure _
  · exact Reader.persists_fail _ _

theorem persists_readBlock : Persists readBlock readBlock :=
  Reader.persists_uint32.bind fun length => Reader.persists_bytes length.toNat

theorem persists_readName : Persists readName readName := by
  refine SevenBit.persists_read.bind fun length => ?_
  refine Reader.persists_position.bind fun offset => ?_
  refine (Reader.persists_require id).bind fun _ => ?_
  refine (Reader.persists_bytes _).bind fun bytes => ?_
  split
  · exact Reader.persists_pure _
  · exact Reader.persists_fail _ _

theorem persists_readChar : Persists readChar readChar := by
  refine Reader.persists_uint16.bind fun unit => ?_
  split
  · exact Reader.persists_pure _
  · exact Reader.persists_fail _ _

namespace Value

theorem persists_readPayload (kind : Kind) :
    Persists (readPayload kind) (readPayload kind) := by
  cases kind with
  | null => exact Reader.persists_pure _
  | string => exact persists_readText.yield _
  | boolean => exact Reader.persists_uint8.yield _
  | char => exact persists_readChar.yield _
  | byte => exact Reader.persists_uint8.yield _
  | sbyte => exact (Reader.persists_uint8.yield UInt8.toInt8).yield _
  | int16 => exact (Reader.persists_uint16.yield UInt16.toInt16).yield _
  | uint16 => exact Reader.persists_uint16.yield _
  | int32 => exact Reader.persists_int32.yield _
  | uint32 => exact Reader.persists_uint32.yield _
  | int64 => exact Reader.persists_int64.yield _
  | uint64 => exact Reader.persists_uint64.yield _
  | single => exact Reader.persists_uint32.yield _
  | double => exact Reader.persists_uint64.yield _
  | decimal =>
      refine Reader.persists_int32.bind fun lo =>
        Reader.persists_int32.bind fun mid => ?_
      exact Reader.persists_int32.bind fun hi => Reader.persists_int32.yield _
  | dateTime => exact Reader.persists_int64.yield _
  | timeSpan => exact Reader.persists_int64.yield _
  | byteArray => exact persists_readBlock.yield _
  | stream => exact persists_readBlock.yield _

theorem persists_readCoded (code : UInt32) :
    Persists (readCoded code) (readCoded code) := by
  rw [readCoded]
  split
  · exact persists_readPayload _
  · split <;> exact Reader.persists_fail _ _

theorem persists_readNamed (name : String) :
    Persists (readNamed name) (readNamed name) := by
  rw [readNamed]
  split
  · exact persists_readPayload _
  · exact Reader.persists_fail _ _

end Value

namespace Header

theorem persists_readClasses (version size : UInt32) :
    Persists (readClasses version size) (readClasses version size) := by
  rw [readClasses]
  split
  · exact (Reader.persists_advance _).yield _
  · exact persists_readText.bind fun readerType => persists_readText.yield _

theorem persistsUnlessEnded_readMarker (version : UInt32) :
    Reader.PersistsUnlessEnded (readMarker version) (readMarker version) := by
  rw [readMarker]
  split
  · intro c c'' isDebug more h
    obtain ⟨first, c', hpeek, hmarker⟩ := Reader.exists_of_bind_eq_ok h
    rw [Reader.bind_apply_of_ok (Reader.persists_peek _ _ _ more hpeek)]
    split at hmarker
    · next hasterisk =>
        rw [if_pos hasterisk]
        obtain ⟨text, c₁, htext, hdone⟩ := Reader.exists_of_bind_eq_ok hmarker
        cases hdone
        rcases Reader.persistsUnlessEnded_textToZero _ _ _ more htext
          with hgrown | hend
        · exact .inl (Reader.bind_apply_of_ok hgrown)
        · exact .inr hend
    · next hplain =>
        rw [if_neg hplain]
        exact .inl (Reader.persists_pure _ _ _ _ more hmarker)
  · exact (Reader.persists_pure false).unlessEnded

theorem persists_readFront {total total' : Nat} (hle : total ≤ total') :
    Persists (readFront total) (readFront total') := by
  refine (Reader.persists_require ?_).bind fun _ => ?_
  · simp only [decide_eq_true_iff]
    omega
  refine Reader.persists_uint32.bind fun size => ?_
  refine (Reader.persists_require ?_).bind fun _ => ?_
  · simp only [Bool.and_eq_true, decide_eq_true_iff]
    omega
  refine Reader.persists_uint32.bind fun word => ?_
  refine (Reader.persists_require id).bind fun _ => ?_
  refine Reader.persists_uint32.bind fun managerVersion => ?_
  refine Reader.persists_uint32.bind fun managerSize => ?_
  refine (persists_readClasses managerVersion managerSize).bind
    fun classes => ?_
  refine Reader.persists_position.bind fun readerOffset => ?_
  refine Reader.persists_uint32.bind fun version => ?_
  exact (Reader.persists_require id).yield _

theorem persists_readTables {total total' : Nat} (hle : total ≤ total')
    (front : Front) (isDebug : Bool) :
    Persists (readTables total front isDebug)
      (readTables total' front isDebug) := by
  refine Reader.persists_uint32.bind fun count => ?_
  refine Persists.of_remaining fun left left' hleft => ?_
  refine (Reader.persists_require ?_).bind fun _ => ?_
  · simp only [decide_eq_true_iff]
    omega
  refine Reader.persists_uint32.bind fun typeCount => ?_
  refine Persists.of_remaining fun left left' hleft => ?_
  refine (Reader.persists_require ?_).bind fun _ => ?_
  · simp only [decide_eq_true_iff]
    omega
  refine (Reader.persists_times persists_readText _).bind fun typeNames => ?_
  refine Reader.persists_position.bind fun position => ?_
  refine (Reader.persists_advance _).bind fun _ => ?_
  refine (Reader.persists_times Reader.persists_uint32 _).bind
    fun hashes => ?_
  refine (Reader.persists_times Reader.persists_uint32 _).bind
    fun positions => ?_
  refine Reader.persists_uint32.bind fun dataField => ?_
  refine Reader.persists_position.bind fun nameSection => ?_
  refine (Reader.persists_require ?_).yield _
  simp only [Bool.and_eq_true, decide_eq_true_iff]
  omega

theorem persists_read : Persists read read := by
  refine Persists.of_total fun total total' htotal => ?_
  refine (persists_readFront htotal).bind fun front => ?_
  refine (persistsUnlessEnded_readMarker front.version).bind_of_hungry
    (fun isDebug => ?_) fun isDebug => ?_
  · exact persists_readTables htotal front isDebug
  · exact Reader.hungry_uint32.bind _

theorem persists_readValue (h : Header) : Persists h.readValue h.readValue := by
  refine SevenBit.persists_read.bind fun tag => ?_
  split
  · split
    · exact Reader.persists_pure _
    · split
      · exact Value.persists_readNamed _
      · exact Reader.persists_fail _ _
  · exact Value.persists_readCoded tag

theorem persists_readEntry (h : Header) (hash position : UInt32) :
    Persists (h.readEntry hash position) (h.readEntry hash position) := by
  refine (Reader.persists_seek _).bind fun _ => ?_
  refine persists_readName.bind fun name => ?_
  refine Reader.persists_uint32.bind fun place => ?_
  refine (Reader.persists_seek _).bind fun _ => ?_
  exact h.persists_readValue.yield _

theorem persists_readEntries (h : Header) :
    Persists h.readEntries h.readEntries :=
  Reader.persists_each
    (fun (hash, position) => h.persists_readEntry hash position) _

end Header

/-! ## Blobs, their texts, and look-ups -/

variable {blob : List UInt8}

theorem parse_append {header : Header} (more : List UInt8)
    (h : Header.parse blob = .ok header) :
    Header.parse (blob ++ more) = .ok header :=
  Header.persists_read.on_eq more h

theorem entriesOf_append {map : EntryMap} (more : List UInt8)
    (h : entriesOf blob = .ok map) :
    entriesOf (blob ++ more) = .ok map := by
  obtain ⟨header, hparse, hread⟩ := bind_eq_ok_iff.1 h
  obtain ⟨entries, hentries, hmap⟩ := bind_eq_ok_iff.1 hread
  refine bind_eq_ok_iff.2 ⟨header, parse_append more hparse, ?_⟩
  exact bind_eq_ok_iff.2
    ⟨entries, header.persists_readEntries.on_eq more hentries, hmap⟩

theorem stringTable_append {map : EntryMap} (more : List UInt8)
    (h : entriesOf blob = .ok map) :
    stringTable (blob ++ more) = stringTable blob := by
  rw [stringTable, stringTable, entriesOf_append more h, h]

end Resource

open Resource (Header entriesOf fileEntries magic nameHash stringTable word32)

/-- A look-up sees of an embedded blob its texts and nothing else. -/
theorem Assembly.text?_addResource_congr {blob blob' : List UInt8}
    (h : stringTable blob = stringTable blob') (a : Assembly)
    (name declaringType key : String) :
    (a.addResource name blob).text? declaringType key =
      (a.addResource name blob').text? declaringType key := by
  simp only [Assembly.text?, Assembly.table?, Assembly.resource?_addResource]
  split
  · simp [h]
  · rfl

/-- Bytes behind a blob change neither its header nor its entries, and so
neither its texts nor what is looked up among them in an assembly that embeds
it. This holds of every blob that can be read, and not only of those that the
writer makes. -/
theorem trailing_bytes_ignored (blob more : List UInt8) :
    (∀ header, Header.parse blob = .ok header →
      Header.parse (blob ++ more) = .ok header) ∧
    ∀ map, entriesOf blob = .ok map →
      entriesOf (blob ++ more) = .ok map ∧
      stringTable (blob ++ more) = stringTable blob ∧
      ∀ (a : Assembly) (name declaringType key : String),
        (a.addResource name (blob ++ more)).text? declaringType key =
          (a.addResource name blob).text? declaringType key := by
  refine ⟨fun header h => Resource.parse_append more h, fun map h => ?_⟩
  have htable := Resource.stringTable_append more h
  exact ⟨Resource.entriesOf_append more h, htable,
    Assembly.text?_addResource_congr htable⟩

/-- One text, `v` under `k`, behind a debug marker. -/
def marked : List UInt8 :=
  word32 54 ++ word32 magic ++ word32 2 ++ word32 0 ++ word32 2 ++ [0x2A, 0] ++
    word32 1 ++
    word32 0 ++ [0x50, 0x41, 0x44, 0x50, 0x41, 0x44] ++ word32 (nameHash "k") ++
      word32 0 ++
    word32 51 ++ ([2, 0x6B, 0] ++ word32 0) ++ [1, 1, 0x76]

def markedHeader : Header where
  managerVersion := 2
  managerSize := 0
  readerType := ""
  resourceSetType := ""
  readerOffset := 16
  version := 2
  isDebug := true
  count := 1
  typeNames := []
  padding := 6
  hashes := [nameHash "k"]
  positions := [0]
  nameSection := 48
  dataSection := 55

theorem parse_marked : Header.parse marked = .ok markedHeader := by
  decide +kernel

theorem entriesOf_marked :
    entriesOf marked =
      .ok (fileEntries [⟨"k", nameHash "k", .string "v"⟩]) := by
  refine bind_eq_ok_iff.2 ⟨markedHeader, parse_marked, ?_⟩
  exact bind_eq_ok_iff.2 ⟨[⟨"k", nameHash "k", .string "v"⟩],
    by decide +kernel, rfl⟩

theorem trailing_bytes_ignored_marked :
    Header.parse marked = .ok markedHeader ∧
    entriesOf marked = .ok (fileEntries [⟨"k", nameHash "k", .string "v"⟩]) ∧
    Header.parse (marked ++ [0, 0x2A]) = .ok markedHeader ∧
    entriesOf (marked ++ [0, 0x2A]) =
      .ok (fileEntries [⟨"k", nameHash "k", .string "v"⟩]) ∧
    (Assembly.addResource ⟨"Sample", [], ∅⟩ "Texts.resources"
      (marked ++ [0, 0x2A])).text?
      "Texts" "k" = some "v" := by
  obtain ⟨hheader, hentries⟩ := trailing_bytes_ignored marked [0, 0x2A]
  obtain ⟨hmap, -, hlookup⟩ := hentries _ entriesOf_marked
  refine ⟨parse_marked, entriesOf_marked, hheader _ parse_marked, hmap, ?_⟩
  rw [hlookup]
  decide +kernel

end CilAudit
