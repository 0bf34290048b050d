import CilAudit.Proofs.Format

/-!
# Which headers are read back

A version 2 header may carry a marker in front of its counts, and the reader
knows it by one byte: an asterisk. A written header has no marker there but its
entry count, lowest byte first, and 42 is the code of the asterisk. So the
header that was written is the header that is read exactly when the number of
entries does not end in that byte (`parse_newer`, `isDebug_of_asterisk`).

The first half is what is known of any format. The second starts at the place
of the marker and only has to know that no later step can take the marker back.
-/

namespace CilAudit.Resource

/-! ## With and without a marker -/

/-- An asterisk is taken for a marker, if it is taken for anything: the marker
may turn out not to be text, and then there is no header at all. -/
theorem eq_true_of_readMarker {b : UInt8} (hb : b.toNat = '*'.toNat)
    {front rest : List UInt8} {isDebug : Bool} {c : Cursor}
    (h : Header.readMarker 2 (.between front (b :: rest)) =
      (.ok isDebug, c)) : isDebug = true := by
  rw [Header.readMarker, if_pos rfl, Reader.peek_bind_apply, if_pos hb] at h
  obtain ⟨_, _, -, hlast⟩ := Reader.ok_of_bind_ok (congrArg Prod.fst h)
  exact (Except.ok.inj hlast).symm

theorem parse_newer {entries : List (String × Value)}
    (hsize : streamSize entries ≤ maxLength)
    (hn : entries.length % 256 ≠ '*'.toNat) :
    Header.parse (newer.blob entries) = .ok (newer.header entries) := by
  rw [← length_stream_newer] at hsize
  exact Format.parse_blob hsize (.inr ⟨rfl, hn⟩)

/-- No step behind the marker takes it back: what was seen of it stands in the
header. -/
theorem isDebug_of_readTables {total : Nat} {front : Header.Front}
    {isDebug : Bool} {c : Cursor} {header : Header}
    (h : (Header.readTables total front isDebug c).1 = .ok header) :
    header.isDebug = isDebug := by
  rw [Header.readTables] at h
  -- each of the fourteen steps yields something, and the last one builds the
  -- header
  iterate 14 obtain ⟨_, _, -, h⟩ := Reader.ok_of_bind_ok h
  exact (congrArg Header.isDebug (Except.ok.inj h)).symm

theorem isDebug_of_asterisk {entries : List (String × Value)} {header : Header}
    (hsize : streamSize entries ≤ maxLength)
    (hn : entries.length % 256 = '*'.toNat)
    (h : Header.parse (newer.blob entries) = .ok header) :
    header.isDebug = true := by
  rw [← length_stream_newer] at hsize
  obtain ⟨b, rest, hcounts, hb⟩ := Format.counts_eq_cons hsize
  rw [Format.parse_eq (.inr rfl) hsize, hcounts] at h
  obtain ⟨isDebug, c, hmarker, hlast⟩ := Reader.ok_of_bind_ok h
  rw [isDebug_of_readTables hlast]
  exact eq_true_of_readMarker (hb.trans hn) hmarker

/-! ## Recovery -/

/-- The header says what was written: version 2, no marker, as many entries, no
types, and the hashes of the names in ascending order. -/
structure Header.Recovers (header : Header) (entries : List (String × Value)) :
    Prop where
  version : header.version = 2
  isDebug : header.isDebug = false
  count : header.count.toNat = entries.length
  typeNames : header.typeNames = []
  ascending : header.hashes.Pairwise (· ≤ ·)
  hashes : header.hashes.Perm (entries.map fun e => nameHash e.1)

theorem pairwise_sortByHash (entries : List (String × Value)) :
    (sortByHash entries).Pairwise fun a b => nameHash a.1 ≤ nameHash b.1 := by
  have htrans : ∀ a b c : String × Value,
      decide (nameHash a.1 ≤ nameHash b.1) = true →
      decide (nameHash b.1 ≤ nameHash c.1) = true →
      decide (nameHash a.1 ≤ nameHash c.1) = true := by
    intro a b c hab hbc
    rw [decide_eq_true_iff] at hab hbc ⊢
    exact UInt32.le_trans hab hbc
  have htotal : ∀ a b : String × Value,
      (decide (nameHash a.1 ≤ nameHash b.1) ||
        decide (nameHash b.1 ≤ nameHash a.1)) = true := by
    intro a b
    rw [Bool.or_eq_true, decide_eq_true_iff, decide_eq_true_iff]
    exact UInt32.le_total _ _
  exact (List.pairwise_mergeSort htrans htotal entries).imp fun hab =>
    of_decide_eq_true hab

theorem recovers_header {entries : List (String × Value)}
    (hsize : streamSize entries ≤ maxLength) :
    (newer.header entries).Recovers entries where
  version := rfl
  isDebug := rfl
  count := toNat_word (by rw [streamSize] at hsize; omega)
  typeNames := rfl
  ascending := List.pairwise_map.2 (pairwise_sortByHash entries)
  hashes := (sortByHash_perm entries).map _

theorem not_recovers_of_asterisk {entries : List (String × Value)}
    {header : Header}
    (hsize : streamSize entries ≤ maxLength)
    (hn : entries.length % 256 = '*'.toNat)
    (hparse : Header.parse (newer.blob entries) = .ok header) :
    ¬ header.Recovers entries := by
  intro hrecovers
  have hdebug := isDebug_of_asterisk hsize hn hparse
  rw [hrecovers.isDebug] at hdebug
  cases hdebug

/-- A written blob gives its header back exactly when the count of its entries
does not look like the start of a marker. Where it does, either there is no
header, or the header says that a debug writer made the blob, which none did.
-/
theorem header_recovered_iff {entries : List (String × Value)}
    {blob : List UInt8} (h : write entries = .ok blob) :
    (∃ header, Header.parse blob = .ok header ∧ header.Recovers entries) ↔
      entries.length % 256 ≠ 42 := by
  obtain ⟨hwritable, rfl⟩ := (write_eq_ok_iff entries blob).1 h
  constructor
  · rintro ⟨header, hparse, hrecovers⟩ hn
    exact not_recovers_of_asterisk hwritable.size hn hparse hrecovers
  · intro hn
    exact ⟨newer.header entries, parse_newer hwritable.size hn,
      recovers_header hwritable.size⟩

/-- A text with letters outside ASCII, a character outside the first plane and
a quiet NaN with a payload. -/
def sample : List (String × Value) :=
  [("größe", .string "12 µm"), ("Icon", .char '😀'),
    ("ratio", .single 0x7FC00001)]

theorem writable_sample : Writable sample where
  names := by decide +kernel
  distinct := by decide +kernel
  size := by decide +kernel

theorem header_recovered_iff_sample : write sample = .ok (newer.blob sample) ∧
    ∃ header, Header.parse (newer.blob sample) = .ok header ∧
      header.Recovers sample := by
  have hwrite := (write_eq_ok_iff sample (newer.blob sample)).2
    ⟨writable_sample, rfl⟩
  exact ⟨hwrite, (header_recovered_iff hwrite).2 (by decide)⟩

/-- Nulls named by single characters, from the letter `A` on. -/
def lettered (n : Nat) : List (String × Value) :=
  (List.range n).map fun i => (String.ofList [Char.ofNat (65 + i)], .null)

theorem writable_lettered : Writable (lettered 42) where
  names := by decide +kernel
  distinct := by decide +kernel
  size := by decide +kernel

theorem header_not_recovered :
    write (lettered 42) = .ok (newer.blob (lettered 42)) ∧
    ¬ ∃ header, Header.parse (newer.blob (lettered 42)) = .ok header ∧
      header.Recovers (lettered 42) := by
  refine ⟨(write_eq_ok_iff _ _).2 ⟨writable_lettered, rfl⟩, ?_⟩
  rintro ⟨header, hparse, hrecovers⟩
  exact not_recovers_of_asterisk writable_lettered.size rfl hparse hrecovers

end CilAudit.Resource
