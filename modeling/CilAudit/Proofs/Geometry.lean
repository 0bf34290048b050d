import CilAudit.Proofs.HeaderRecovery
import CilAudit.Resource.Entry
import Mathlib.Data.List.Induction

/-!
# Whatever is accepted is laid out soundly

The bytes of a blob need not come from a writer. Every size, count and place in
a header is then whatever someone put there, and few of them are checked: that
the counts are not larger than what is left, and that the data section lies
between the names and the end. Nothing compares the places of the tables with
each other. They are consistent because of how a header is read: the cursor
only goes forward, a word moves it by four, and the padding takes it to a
multiple of eight.

So the geometry of a header is read off the moves. `Reader.Spans` is for
readers that move by a fixed number of bytes, `Reader.Advances` for those of
which only the direction is known. The type table is of the second sort, and
that is all that has to be known of it.
-/

namespace CilAudit

/-- `c'` is no earlier place in the same data, and inside it if `c` is. The
condition keeps the relation transitive without asking where a reader starts.
-/
structure Cursor.Reaches (c c' : Cursor) : Prop where
  data : c'.data = c.data
  forward : c.pos ≤ c'.pos
  inside : c.pos ≤ c.data.size → c'.pos ≤ c'.data.size

namespace Cursor.Reaches

theorem refl (c : Cursor) : c.Reaches c := ⟨rfl, Nat.le_refl _, id⟩

theorem trans {c c' c'' : Cursor} (h : c.Reaches c') (h' : c'.Reaches c'') :
    c.Reaches c'' where
  data := h'.data.trans h.data
  forward := Nat.le_trans h.forward h'.forward
  inside hpos := h'.inside (h.inside hpos)

theorem moveTo {c : Cursor} {pos : Nat} (hpos : c.pos ≤ pos)
    (hsize : c.pos ≤ c.data.size → pos ≤ c.data.size) :
    c.Reaches (c.moveTo pos) :=
  ⟨rfl, hpos, hsize⟩

end Cursor.Reaches

namespace Reader

variable {α β : Type}

/-! ## Readers that only go forward -/

/-- Whether it yields something or not, `m` leaves the cursor no earlier in the
same data, and on its way it never leaves the address space. Readers that only
read do this; a seek does not, and a step only where there is room for it. -/
def Advances (m : Reader α) : Prop :=
  ∀ c : Cursor, c.Reaches (m c).2 ∧ (m c).1 ≠ .error .overflow

theorem advances_pure (a : α) : Advances (pure a) := fun c => ⟨.refl c, nofun⟩

theorem advances_fail {fault : Fault} (h : fault ≠ .overflow) :
    Advances (fail fault : Reader α) :=
  fun c => ⟨.refl c, fun heq => h (Except.error.inj heq)⟩

theorem Advances.bind {m : Reader α} {f : α → Reader β} (hm : Advances m)
    (hf : ∀ a, Advances (f a)) : Advances (m >>= f) := by
  intro c
  have hfirst := hm c
  cases hmc : m c with
  | mk result c' =>
      rw [hmc] at hfirst
      cases result with
      | error fault =>
          rw [bind_apply_of_error hmc]
          exact ⟨hfirst.1, fun heq =>
            hfirst.2 (congrArg Except.error (Except.error.inj heq))⟩
      | ok a =>
          rw [bind_apply_of_ok hmc]
          exact ⟨hfirst.1.trans (hf a c').1, (hf a c').2⟩

theorem Advances.yield {m : Reader α} (hm : Advances m) (f : α → β) :
    Advances (m >>= fun a => pure (f a)) :=
  hm.bind fun a => advances_pure (f a)

theorem Advances.reaches {m : Reader α} (hm : Advances m) {c c' : Cursor}
    {a : α} (h : m c = (.ok a, c')) : c.Reaches c' := by
  have hc := (hm c).1
  rwa [h] at hc

theorem advances_position : Advances position := fun c => ⟨.refl c, nofun⟩

theorem advances_peek : Advances peek := by
  intro c
  unfold peek
  split <;> exact ⟨.refl c, nofun⟩

theorem advances_byte : Advances byte := by
  intro c
  unfold byte
  split
  · next b hb =>
      have hlt : c.pos < c.data.size := (Array.getElem?_eq_some_iff.1 hb).1
      exact ⟨.moveTo (by omega) fun _ => hlt, nofun⟩
  · exact ⟨.refl c, nofun⟩

theorem advances_bytes (n : Nat) : Advances (bytes n) := by
  intro c
  unfold bytes
  split
  · next bs hbs =>
      have hfits : c.pos + n ≤ c.data.size := by
        by_contra hn
        rw [Cursor.window?, if_neg hn] at hbs
        cases hbs
      exact ⟨.moveTo (by omega) fun _ => hfits, nofun⟩
  · exact ⟨.refl c, nofun⟩

theorem advances_textToZero : Advances textToZero := by
  intro c
  have hlen :
      (c.rest.takeWhile (· != 0)).length ≤ c.data.size - c.pos := by
    have hle :=
      (List.takeWhile_sublist (· != 0) (l := c.rest)).length_le
    rwa [Cursor.length_rest] at hle
  have hnext : c.Reaches (c.moveTo
      (if c.pos + (c.rest.takeWhile (· != 0)).length < c.data.size
        then c.pos + (c.rest.takeWhile (· != 0)).length + 1
        else c.pos + (c.rest.takeWhile (· != 0)).length)) := by
    split
    · exact .moveTo (by omega) (by omega)
    · exact .moveTo (by omega) (by omega)
  unfold textToZero
  dsimp only
  split <;> exact ⟨hnext, nofun⟩

theorem advances_times {m : Reader α} (hm : Advances m) (n : Nat) :
    Advances (times m n) := by
  induction n with
  | zero => exact advances_pure []
  | succ n ih => exact hm.bind fun a => ih.yield fun as => a :: as

/-! ## Readers of a fixed size -/

/-- Where it yields something, `m` moved the cursor by `n` bytes. Places in a
header are sums of such moves. -/
def Spans (m : Reader α) (n : Nat) : Prop :=
  ∀ c a c', m c = (.ok a, c') → c'.pos = c.pos + n

theorem Spans.bind {m : Reader α} {f : α → Reader β} {n k : Nat}
    (hm : Spans m n) (hf : ∀ a, Spans (f a) k) : Spans (m >>= f) (n + k) := by
  intro c b c'' h
  obtain ⟨a, c', hma, hfa⟩ := exists_of_bind_eq_ok h
  have hfirst := hm _ _ _ hma
  have hthen := hf a _ _ _ hfa
  omega

theorem spans_pure (a : α) : Spans (pure a) 0 := by
  intro c b c' h
  cases h
  rfl

theorem Spans.yield {m : Reader α} {n : Nat} (hm : Spans m n) (f : α → β) :
    Spans (m >>= fun a => pure (f a)) n :=
  hm.bind fun a => spans_pure (f a)

theorem spans_bytes (n : Nat) : Spans (bytes n) n := by
  intro c bs c' h
  unfold bytes at h
  split at h
  · cases h
    rfl
  · cases h

theorem spans_advance (n : Nat) : Spans (advance n) n := by
  intro c a c' h
  unfold advance at h
  dsimp only at h
  split at h
  · cases h
  · split at h
    · cases h
      rfl
    · cases h

theorem spans_uint32 : Spans uint32 4 := ((spans_bytes 4).yield _).yield _

theorem spans_times {m : Reader α} {k : Nat} (hm : Spans m k) (n : Nat) :
    Spans (times m n) (k * n) := by
  induction n with
  | zero => exact spans_pure []
  | succ n ih =>
      have hstep := hm.bind fun a => ih.yield fun as => a :: as
      rwa [Nat.add_comm, ← Nat.mul_succ] at hstep

theorem length_of_times {m : Reader α} {n : Nat} {c c' : Cursor} {as : List α}
    (h : times m n c = (.ok as, c')) : as.length = n := by
  induction n generalizing c as with
  | zero =>
      cases h
      rfl
  | succ n ih =>
      obtain ⟨a, c₁, -, hrest⟩ := exists_of_bind_eq_ok h
      obtain ⟨more, c₂, hmore, hdone⟩ := exists_of_bind_eq_ok hrest
      cases hdone
      simp [ih hmore]

/-! Going back through a sequence: questions keep the cursor, and a requirement
was met. -/

theorem ok_of_total_bind {f : Nat → Reader β} {c : Cursor} {b : β}
    (h : ((total >>= f) c).1 = .ok b) : (f c.size c).1 = .ok b := h

theorem ok_of_position_bind {f : Nat → Reader β} {c : Cursor} {b : β}
    (h : ((position >>= f) c).1 = .ok b) : (f c.pos c).1 = .ok b := h

theorem ok_of_remaining_bind {f : Nat → Reader β} {c : Cursor} {b : β}
    (h : ((remaining >>= f) c).1 = .ok b) : (f c.remaining c).1 = .ok b := h

theorem of_require_eq_ok {holds : Bool} {reason : Flaw} {u : Unit}
    {c c' : Cursor} (h : require holds reason c = (.ok u, c')) :
    holds = true ∧ c' = c := by
  cases holds with
  | false => cases h
  | true =>
      cases h
      exact ⟨rfl, rfl⟩

theorem ok_of_require_bind {holds : Bool} {reason : Flaw}
    {f : Unit → Reader β} {c : Cursor} {b : β}
    (h : ((require holds reason >>= f) c).1 = .ok b) :
    holds = true ∧ (f () c).1 = .ok b := by
  obtain ⟨_, c', hmet, hrest⟩ := ok_of_bind_ok h
  obtain ⟨hholds, rfl⟩ := of_require_eq_ok hmet
  exact ⟨hholds, hrest⟩

/-- There is one result for each element, and it came from a read for one. -/
theorem exists_of_each {m : α → Reader β} {as : List α} {c c' : Cursor}
    {bs : List β} (h : each m as c = (.ok bs, c')) :
    bs.length = as.length ∧
      ∀ b ∈ bs, ∃ a ∈ as, ∃ c c', m a c = (.ok b, c') := by
  induction as generalizing c bs with
  | nil =>
      cases h
      simp
  | cons a as ih =>
      obtain ⟨b, c₁, hb, hrest⟩ := exists_of_bind_eq_ok h
      obtain ⟨more, c₂, hmore, hdone⟩ := exists_of_bind_eq_ok hrest
      cases hdone
      obtain ⟨hlength, hmem⟩ := ih hmore
      refine ⟨by simp [hlength], fun b' hb' => ?_⟩
      rcases List.mem_cons.1 hb' with rfl | hb'
      · exact ⟨a, List.mem_cons_self, c, c₁, hb⟩
      · obtain ⟨a', ha', hread⟩ := hmem b' hb'
        exact ⟨a', List.mem_cons_of_mem a ha', hread⟩

end Reader

theorem SevenBit.advances_groups (left : Nat) :
    Reader.Advances (groups left) := by
  induction left with
  | zero => exact Reader.advances_fail nofun
  | succ left ih =>
      refine Reader.advances_byte.bind fun b => ?_
      split
      · exact Reader.advances_pure [b]
      · exact ih.yield fun more => b :: more

theorem SevenBit.advances_read : Reader.Advances read :=
  (advances_groups maxBytes).yield fun bs => UInt32.ofNat (denoted bs)

namespace Resource

open Reader (Advances)

theorem advances_readText : Advances readText := by
  refine SevenBit.advances_read.bind fun length => ?_
  refine Reader.advances_position.bind fun offset => ?_
  refine (Reader.advances_bytes _).bind fun bytes => ?_
  split
  · exact Reader.advances_pure _
  · exact Reader.advances_fail nofun

theorem Header.advances_readMarker (version : UInt32) :
    Advances (readMarker version) := by
  rw [readMarker]
  split
  · refine Reader.advances_peek.bind fun first => ?_
    split
    · exact Reader.advances_textToZero.yield _
    · exact Reader.advances_pure false
  · exact Reader.advances_pure false

theorem Header.version_of_readMarker {version : UInt32} {c c' : Cursor}
    (h : readMarker version c = (.ok true, c')) : version = 2 := by
  by_contra hversion
  rw [readMarker, if_neg hversion] at h
  cases h

/-! ## Headers -/

/-- The padding takes a place behind the size field to a multiple of eight
behind it. -/
theorem paddingAt_aligns {position : Nat} (h : 4 ≤ position) :
    Header.paddingAt position ≤ 7 ∧
    (position + Header.paddingAt position + 4) % 8 = 0 := by
  unfold Header.paddingAt
  omega

/-- The parts of a header agree with each other and with the size of the data.
These are relations between what a header says, so they can be checked without
the data at hand. -/
structure Header.Consistent (header : Header) (size : Nat) : Prop where
  version : header.version = 1 ∨ header.version = 2
  hashes : header.hashes.length = header.count.toNat
  positions : header.positions.length = header.count.toNat
  padding : header.padding ≤ 7
  aligned : header.nameSection % 8 = 0
  tables : header.readerOffset + 16 + 8 * header.count.toNat + header.padding ≤
    header.nameSection
  names : header.nameSection ≤ header.dataSection
  data : header.dataSection ≤ size
  isDebug : header.isDebug = true → header.version = 2

/-- Behind the marker the moves of the cursor fix all places. Each place that
the header says is where the cursor stood when it was read, and the two
sections follow from those. -/
theorem consistent_of_readTables {total : Nat} {front : Header.Front}
    {isDebug : Bool} {c : Cursor} {header : Header}
    (hversion : front.version = 1 ∨ front.version = 2)
    (hdebug : isDebug = true → front.version = 2)
    (hpos : front.readerOffset + 4 ≤ c.pos)
    (h : (Header.readTables total front isDebug c).1 = .ok header) :
    header.Consistent total := by
  rw [Header.readTables] at h
  obtain ⟨count, c₁, hcount, h⟩ := Reader.ok_of_bind_ok h
  obtain ⟨-, h⟩ := Reader.ok_of_require_bind (Reader.ok_of_remaining_bind h)
  obtain ⟨typeCount, c₂, htypeCount, h⟩ := Reader.ok_of_bind_ok h
  obtain ⟨-, h⟩ := Reader.ok_of_require_bind (Reader.ok_of_remaining_bind h)
  obtain ⟨typeNames, c₃, htypes, h⟩ := Reader.ok_of_bind_ok h
  obtain ⟨_, c₄, hpadded, h⟩ :=
    Reader.ok_of_bind_ok (Reader.ok_of_position_bind h)
  obtain ⟨hashes, c₅, hhashes, h⟩ := Reader.ok_of_bind_ok h
  obtain ⟨positions, c₆, hpositions, h⟩ := Reader.ok_of_bind_ok h
  obtain ⟨dataField, c₇, hdata, h⟩ := Reader.ok_of_bind_ok h
  obtain ⟨hinside, h⟩ :=
    Reader.ok_of_require_bind (Reader.ok_of_position_bind h)
  cases h
  have h₁ := Reader.spans_uint32 _ _ _ hcount
  have h₂ := Reader.spans_uint32 _ _ _ htypeCount
  have h₃ :=
    ((Reader.advances_times advances_readText _).reaches htypes).forward
  have h₄ := Reader.spans_advance _ _ _ _ hpadded
  have h₅ := Reader.spans_times Reader.spans_uint32 _ _ _ _ hhashes
  have h₆ := Reader.spans_times Reader.spans_uint32 _ _ _ _ hpositions
  have h₇ := Reader.spans_uint32 _ _ _ hdata
  obtain ⟨hpadding, haligned⟩ := @paddingAt_aligns c₃.pos (by omega)
  rw [Bool.and_eq_true, decide_eq_true_iff, decide_eq_true_iff] at hinside
  exact {
    version := hversion
    hashes := Reader.length_of_times hhashes
    positions := Reader.length_of_times hpositions
    padding := hpadding
    aligned := by
      dsimp only
      omega
    tables := by
      dsimp only
      omega
    names := hinside.1
    data := hinside.2
    isDebug := hdebug }

/-- In front of the marker stands the version, and in front of the version the
place that the header says it has. -/
theorem of_readFront {total : Nat} {c c' : Cursor} {front : Header.Front}
    (h : Header.readFront total c = (.ok front, c')) :
    (front.version = 1 ∨ front.version = 2) ∧
      front.readerOffset + 4 = c'.pos := by
  rw [Header.readFront] at h
  -- the first eight steps read the outer header, about which nothing is asked
  iterate 8 obtain ⟨_, _, -, h⟩ := Reader.exists_of_bind_eq_ok h
  obtain ⟨readerOffset, c₁, hoffset, h₁⟩ := Reader.exists_of_bind_eq_ok h
  obtain ⟨version, c₂, hversion, h₂⟩ := Reader.exists_of_bind_eq_ok h₁
  obtain ⟨_, c₃, hknown, h₃⟩ := Reader.exists_of_bind_eq_ok h₂
  cases hoffset
  cases h₃
  obtain ⟨hholds, rfl⟩ := Reader.of_require_eq_ok hknown
  rw [Bool.or_eq_true, decide_eq_true_iff, decide_eq_true_iff] at hholds
  exact ⟨hholds, (Reader.spans_uint32 _ _ _ hversion).symm⟩

theorem consistent_of_parse {data : List UInt8} {header : Header}
    (h : Header.parse data = .ok header) : header.Consistent data.length := by
  rw [Header.parse, Reader.on, Header.read] at h
  obtain ⟨front, c, hfront, h⟩ :=
    Reader.ok_of_bind_ok (Reader.ok_of_total_bind h)
  obtain ⟨isDebug, c', hmarker, h⟩ := Reader.ok_of_bind_ok h
  obtain ⟨hversion, hoffset⟩ := of_readFront hfront
  have hforward :=
    ((Header.advances_readMarker front.version).reaches hmarker).forward
  have hdebug : isDebug = true → front.version = 2 := by
    intro hisDebug
    rw [hisDebug] at hmarker
    exact Header.version_of_readMarker hmarker
  exact consistent_of_readTables hversion hdebug (by omega) h

/-! ## Entries -/

theorem length_of_bytes {n : Nat} {c c' : Cursor} {bs : List UInt8}
    (h : Reader.bytes n c = (.ok bs, c')) : bs.length = n := by
  unfold Reader.bytes at h
  split at h
  · next window hwindow =>
      cases h
      unfold Cursor.window? at hwindow
      split at hwindow
      · next hfits =>
          cases hwindow
          simp
          omega
      · cases hwindow
  · cases h

theorem chars?_ne_nil {u : UInt16} {us : List UInt16} :
    Utf16.chars? (u :: us) ≠ some [] := by
  rw [Utf16.chars?.eq_def]
  cases us with
  | nil => dsimp only; split_ifs <;> simp
  | cons v us => dsimp only; split_ifs <;> simp

/-- A name that was read is not empty, because an empty one is refused by its
length. -/
theorem ne_empty_of_readName {c c' : Cursor} {name : String}
    (h : readName c = (.ok name, c')) : name ≠ "" := by
  have hname := congrArg Prod.fst h
  rw [readName] at hname
  obtain ⟨length, c₁, -, hname⟩ := Reader.ok_of_bind_ok hname
  obtain ⟨hlength, hname⟩ :=
    Reader.ok_of_require_bind (Reader.ok_of_position_bind hname)
  obtain ⟨bytes, c₂, hbytes, hname⟩ := Reader.ok_of_bind_ok hname
  rw [Bool.and_eq_true, decide_eq_true_iff, decide_eq_true_iff] at hlength
  have htwo : 2 ≤ bytes.length := by
    rw [length_of_bytes hbytes]
    omega
  cases htext : Utf16.decode? (unitsOfBytes bytes) with
  | none =>
      simp only [htext] at hname
      cases hname
  | some text =>
      simp only [htext] at hname
      cases hname
      rw [Utf16.decode?, Option.map_eq_some_iff] at htext
      obtain ⟨cs, hcs, rfl⟩ := htext
      intro hempty
      rw [String.ofList_eq_empty_iff] at hempty
      obtain ⟨a, b, rest, rfl⟩ : ∃ a b rest, bytes = a :: b :: rest := by
        cases bytes with
        | nil => simp at htwo
        | cons a rest =>
            cases rest with
            | nil => simp at htwo
            | cons b rest => exact ⟨a, b, rest, rfl⟩
      exact chars?_ne_nil (hempty ▸ hcs)

theorem size_fileEntries_le (entries : List Entry) :
    (fileEntries entries).size ≤ entries.length := by
  induction entries using List.reverseRecOn with
  | nil => simp [fileEntries]
  | append_singleton front last ih =>
      rw [fileEntries_concat, List.length_append]
      have hle := Std.TreeMap.size_insert_le (t := fileEntries front)
        (k := last.name) (v := last)
      exact Nat.le_trans hle (Nat.add_le_add_right ih 1)

/-- Entries are read one for each row of the tables, under the hash of a row.
That the hash is that of the name is not checked. -/
theorem exists_of_readEntries {header : Header} {data : List UInt8}
    {entries : List Entry} (h : header.readEntries.on data = .ok entries) :
    entries.length = (header.hashes.zip header.positions).length ∧
      ∀ entry ∈ entries, entry.hash ∈ header.hashes ∧ entry.name ≠ "" := by
  have hwhole : header.readEntries (.ofBytes data) =
      (.ok entries, (header.readEntries (.ofBytes data)).2) := Prod.ext h rfl
  obtain ⟨hlength, hmem⟩ := Reader.exists_of_each hwhole
  refine ⟨hlength, fun entry hentry => ?_⟩
  obtain ⟨⟨hash, position⟩, hrow, c, c', hread⟩ := hmem entry hentry
  have hread := congrArg Prod.fst hread
  dsimp only [Header.readEntry] at hread
  obtain ⟨_, c₁, -, hread⟩ := Reader.ok_of_bind_ok hread
  obtain ⟨name, c₂, hname, hread⟩ := Reader.ok_of_bind_ok hread
  obtain ⟨place, c₃, -, hread⟩ := Reader.ok_of_bind_ok hread
  obtain ⟨_, c₄, -, hread⟩ := Reader.ok_of_bind_ok hread
  obtain ⟨value, c₅, -, hread⟩ := Reader.ok_of_bind_ok hread
  cases hread
  exact ⟨(List.of_mem_zip hrow).1, ne_empty_of_readName hname⟩

/-- Any data with an accepted header: its parts agree, and the entries read by
it, if they can be read, are no more than it says, each under its own name,
which is not empty, and with a hash of the header. -/
theorem accepted_header_consistent {data : List UInt8} {header : Header}
    (h : Header.parse data = .ok header) :
    header.Consistent data.length ∧
    ∀ map, (header.readEntries.on data).map fileEntries = .ok map →
      map.size ≤ header.count.toNat ∧
      ∀ name entry, map[name]? = some entry →
        entry.name = name ∧ name ≠ "" ∧ entry.hash ∈ header.hashes := by
  have hconsistent := consistent_of_parse h
  refine ⟨hconsistent, fun map hmap => ?_⟩
  obtain ⟨entries, hentries, rfl⟩ :
      ∃ entries, header.readEntries.on data = .ok entries ∧
        fileEntries entries = map := by
    cases hread : header.readEntries.on data with
    | error fault =>
        rw [hread] at hmap
        cases hmap
    | ok entries =>
        rw [hread] at hmap
        exact ⟨entries, rfl, Except.ok.inj hmap⟩
  obtain ⟨hlength, hmem⟩ := exists_of_readEntries hentries
  refine ⟨?_, fun name entry hentry => ?_⟩
  · have hsize := size_fileEntries_le entries
    rw [List.length_zip, hconsistent.hashes, hconsistent.positions,
      Nat.min_self] at hlength
    omega
  · obtain ⟨hfiled, rfl⟩ := mem_of_getElem?_fileEntries hentry
    obtain ⟨hhash, hname⟩ := hmem entry hfiled
    exact ⟨rfl, hname, hhash⟩

/-- Two rows of the tables that lead to one name, in a blob of version 1 with a
type of no use. -/
def doubled : List UInt8 :=
  word32 64 ++ word32 magic ++ word32 2 ++ word32 0 ++ word32 1 ++
    word32 2 ++ word32 1 ++ [1, 0x78] ++
    [0x50, 0x41, 0x44, 0x50, 0x41, 0x44] ++ word32 9 ++ word32 7 ++
    word32 0 ++ word32 0 ++ word32 59 ++ ([2, 0x6B, 0] ++ word32 0) ++
    [0xFF, 0xFF, 0xFF, 0xFF, 0x0F]

def doubledHeader : Header where
  managerVersion := 2
  managerSize := 0
  readerType := ""
  resourceSetType := ""
  readerOffset := 16
  version := 1
  isDebug := false
  count := 2
  typeNames := ["x"]
  padding := 6
  hashes := [9, 7]
  positions := [0, 0]
  nameSection := 56
  dataSection := 63

theorem parse_doubled : Header.parse doubled = .ok doubledHeader := by
  decide +kernel

theorem readEntries_doubled :
    doubledHeader.readEntries.on doubled =
      .ok [⟨"k", 9, .null⟩, ⟨"k", 7, .null⟩] := by
  decide +kernel

theorem accepted_header_consistent_doubled :
    Header.parse doubled = .ok doubledHeader ∧
    doubledHeader.Consistent doubled.length ∧
    ∃ map, (doubledHeader.readEntries.on doubled).map fileEntries = .ok map ∧
      map.size ≤ doubledHeader.count.toNat ∧
      ∀ name entry, map[name]? = some entry →
        entry.name = name ∧ name ≠ "" ∧ entry.hash ∈ doubledHeader.hashes := by
  obtain ⟨hconsistent, hentries⟩ := accepted_header_consistent parse_doubled
  have hmap : (doubledHeader.readEntries.on doubled).map fileEntries =
      .ok (fileEntries [⟨"k", 9, .null⟩, ⟨"k", 7, .null⟩]) := by
    rw [readEntries_doubled]
    rfl
  exact ⟨parse_doubled, hconsistent, _, hmap, hentries _ hmap⟩

end Resource

end CilAudit
