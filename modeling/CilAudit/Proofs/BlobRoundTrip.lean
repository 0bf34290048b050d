import CilAudit.Proofs.HeaderRecovery

/-!
# A blob gives its entries back

A written blob is one of version 2, and how the entries of a blob are found,
read and filed is known of any format. What is left is what this version adds:
its values are read by their codes, its string table is made of the texts among
them, and the tables of its header lead to the names.
-/

namespace CilAudit.Resource

/-- The entry that is read back for a written one: its name, the hash that the
name has, and of its value what a blob can keep. -/
def Entry.ofWritten (e : String × Value) : Entry :=
  ⟨e.1, nameHash e.1, e.2.stored⟩

theorem entriesOf_written {entries : List (String × Value)}
    (hw : Writable entries) (hn : entries.length % 256 ≠ '*'.toNat) :
    entriesOf (newer.blob entries) =
      .ok (fileEntries ((sortByHash entries).map Entry.ofWritten)) := by
  have hsize := hw.size
  rw [← length_stream_newer] at hsize
  refine Format.entriesOf_blob hsize (.inr ⟨rfl, hn⟩)
    (fun e he => hw.names _ (List.mem_map_of_mem he)) ?_
  intro e he
  exact ⟨e.2.encode_ne_nil,
    Header.takes_readValue rfl e.2 (Format.fits_of_mem hsize he).2⟩

/-- A look-up among the entries read back finds exactly what was written under
its key. -/
theorem getElem?_written {entries : List (String × Value)}
    (hw : Writable entries) (name : String) (entry : Entry) :
    (fileEntries ((sortByHash entries).map Entry.ofWritten))[name]? =
      some entry ↔
      ∃ v, (name, v) ∈ entries ∧ entry = ⟨name, nameHash name, v.stored⟩ :=
  getElem?_filed hw.distinct Value.stored name entry

theorem Value.text?_eq_some_iff (v : Value) (text : String) :
    v.text? = some text ↔ v = .string text := by
  cases v <;> simp [Value.text?]

/-- The string table of a written blob holds its texts and nothing else. -/
theorem getElem?_stringTable {entries : List (String × Value)}
    (hw : Writable entries) (hn : entries.length % 256 ≠ '*'.toNat) :
    ∃ table, stringTable (newer.blob entries) = .ok table ∧
      ∀ key text, table[key]? = some text ↔
        (key, Value.string text) ∈ entries := by
  refine ⟨_, by rw [stringTable, entriesOf_written hw hn]; rfl, ?_⟩
  intro key text
  rw [Std.TreeMap.getElem?_filterMap', Option.bind_eq_some_iff]
  constructor
  · rintro ⟨entry, hentry, htext⟩
    obtain ⟨v, hmem, rfl⟩ := (getElem?_written hw key entry).1 hentry
    rw [Value.text?_stored, Value.text?_eq_some_iff] at htext
    exact htext ▸ hmem
  · intro hmem
    exact ⟨_, (getElem?_written hw key _).2 ⟨_, hmem, rfl⟩, rfl⟩

/-- The positions in the header lead to names with the hashes beside them. A
reader that looks for a name could therefore search the hashes and read one
name. -/
theorem name_at_position {entries : List (String × Value)}
    (hw : Writable entries) {i : Nat} {hash position : UInt32}
    (hhash : (newer.header entries).hashes[i]? = some hash)
    (hposition : (newer.header entries).positions[i]? = some position) :
    ∃ name, ((newer.header entries).readNameAt position).on
        (newer.blob entries) = .ok name ∧ nameHash name = hash := by
  have hsize := hw.size
  rw [← length_stream_newer] at hsize
  rw [Format.header, List.getElem?_map, Option.map_eq_some_iff]
    at hhash hposition
  obtain ⟨e, he, rfl⟩ := hhash
  obtain ⟨slot, hslot, rfl⟩ := hposition
  have hmem : e ∈ entries :=
    (sortByHash_perm entries).mem_iff.1 (List.mem_of_getElem? he)
  have hpair : (e, slot) ∈
      (sortByHash entries).zip (newer.slots 0 0 (sortByHash entries)) :=
    List.mem_of_getElem? (List.getElem?_zip_eq_some.2 ⟨he, hslot⟩)
  have hfound := (Format.placed_blob hsize _ hpair).finds_name
    (hw.names _ (List.mem_map_of_mem hmem)) (Format.fits_of_mem hsize hmem).1
  exact ⟨e.1, hfound.on_eq, rfl⟩

/-- Entries are written exactly when their names are not empty and differ and
their stream has a 32-bit size; what was written is then read back, entry by
entry and text by text, and the tables of its header lead in ascending order of
the hashes to names with these hashes. -/
theorem write_round_trip (entries : List (String × Value))
    (hn : entries.length % 256 ≠ 42) :
    ((∃ blob, write entries = .ok blob) ↔ Writable entries) ∧
    ∀ blob, write entries = .ok blob →
      blob.length = 4 + streamSize entries ∧
      (∃ map, entriesOf blob = .ok map ∧
        ∀ name entry, map[name]? = some entry ↔
          ∃ v, (name, v) ∈ entries ∧ entry = ⟨name, nameHash name, v.stored⟩) ∧
      (∃ header, Header.parse blob = .ok header ∧
        header.hashes.length = entries.length ∧
        header.positions.length = entries.length ∧
        header.hashes.Pairwise (· ≤ ·) ∧
        ∀ (i : Nat) (hash position : UInt32), header.hashes[i]? = some hash →
          header.positions[i]? = some position →
          ∃ name, (header.readNameAt position).on blob = .ok name ∧
            nameHash name = hash) ∧
      ∃ table, stringTable blob = .ok table ∧
        ∀ key text, table[key]? = some text ↔
          (key, Value.string text) ∈ entries := by
  constructor
  · constructor
    · rintro ⟨blob, h⟩
      exact ((write_eq_ok_iff entries blob).1 h).1
    · intro hw
      exact ⟨newer.blob entries, (write_eq_ok_iff entries _).2 ⟨hw, rfl⟩⟩
  · intro blob h
    obtain ⟨hw, rfl⟩ := (write_eq_ok_iff entries blob).1 h
    have hlength : (newer.blob entries).length = 4 + streamSize entries := by
      rw [Format.length_blob, length_stream_newer]
    refine ⟨hlength, ⟨_, entriesOf_written hw hn, getElem?_written hw⟩,
      ⟨newer.header entries, parse_newer hw.size hn, ?_, ?_, ?_, ?_⟩,
      getElem?_stringTable hw hn⟩
    · rw [Format.header, List.length_map, length_sortByHash]
    · rw [Format.header, List.length_map, Format.length_slots,
        length_sortByHash]
    · exact (recovers_header hw.size).ascending
    · intro i hash position hhash hposition
      exact name_at_position hw hhash hposition

theorem write_round_trip_sample : sample.length % 256 ≠ 42 ∧ ∃ blob map table,
    write sample = .ok blob ∧ entriesOf blob = .ok map ∧
    stringTable blob = .ok table ∧
    map["Icon"]? = some ⟨"Icon", nameHash "Icon", .char '\uFFFD'⟩ ∧
    table["größe"]? = some "12 µm" ∧ table["Icon"]? = none := by
  obtain ⟨hwrite, hread⟩ := write_round_trip sample (by decide)
  obtain ⟨blob, hblob⟩ := hwrite.2 writable_sample
  obtain ⟨-, ⟨map, hmap, hentry⟩, -, table, htable, htext⟩ := hread blob hblob
  refine ⟨by decide, blob, map, table, hblob, hmap, htable, ?_, ?_, ?_⟩
  · exact (hentry _ _).2 ⟨.char '😀', by decide +kernel, by decide +kernel⟩
  · exact (htext _ _).2 (by decide +kernel)
  · rw [Option.eq_none_iff_forall_ne_some]
    intro text hicon
    rw [htext] at hicon
    simp [sample] at hicon

end CilAudit.Resource
