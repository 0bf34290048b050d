import CilAudit.Proofs.BlobRoundTrip

/-!
# Blobs of the older format are read like those of the newer

Version 1 has no codes. A value carries the place of its type in a table of
names in front of the padding, so the table moves everything behind it, and the
reader has to make out the kind from the name. Three things could go wrong, and
none does. A name may be followed by a comma and the name of an assembly, but
no type name holds a comma or a blank at its ends, so what stands before the
first comma is the name again (`bareTypeName_of_namedBy`). A null may do
without a type, under the largest number there is, and no type has that number:
a table that long would not fit into a blob. And the first byte of the entry
count is no marker here, whatever it is.

No blob of version 1 is ever written, so the format is stated by the layout
that it shares with version 2: `older table` differs from `newer` in its
version, its types and its tags alone.
-/

namespace CilAudit.Resource

open Reader (Takes)

/-! ## Type names -/

namespace Kind

theorem ofTypeName?_typeName (k : Kind) : ofTypeName? k.typeName = some k := by
  cases k <;> decide +kernel

theorem all_ne_comma_typeName (k : Kind) :
    k.typeName.toList.all (· != ',') = true := by
  cases k <;> decide +kernel

theorem trim_typeName (k : Kind) :
    Blank.trim k.typeName.toList = k.typeName.toList := by
  cases k <;> decide +kernel

theorem code_lt (k : Kind) : k.code.toNat < 128 := by
  cases k <;> decide

/-- A text names a kind by its type, alone or with an assembly behind a
comma. -/
inductive NamedBy (k : Kind) : String → Prop
  | bare : k.NamedBy k.typeName
  | qualified (assembly : String) : k.NamedBy (k.typeName ++ "," ++ assembly)

end Kind

theorem bareTypeName_of_namedBy {k : Kind} {text : String}
    (h : k.NamedBy text) :
    Value.bareTypeName text = k.typeName := by
  have hbare : ∀ c ∈ k.typeName.toList, (c != ',') = true :=
    List.all_eq_true.1 k.all_ne_comma_typeName
  have hfront : text.toList.takeWhile (· != ',') = k.typeName.toList := by
    cases h with
    | bare =>
        rw [← List.append_nil k.typeName.toList,
          List.takeWhile_append_of_pos hbare, List.takeWhile_nil]
    | qualified assembly =>
        rw [String.toList_append, String.toList_append, List.append_assoc,
          List.takeWhile_append_of_pos hbare]
        show k.typeName.toList ++ (',' :: assembly.toList).takeWhile
          (· != ',') = _
        rw [List.takeWhile_cons_of_neg (by decide), List.append_nil]
  rw [Value.bareTypeName, hfront, k.trim_typeName, String.ofList_toList]

theorem Value.takes_readNamed {v : Value} {text : String}
    (hnamed : v.kind.NamedBy text)
    (h : v.contentLength ≤ maxLength) :
    Takes (readNamed text) v.payload v.stored := by
  rw [readNamed, bareTypeName_of_namedBy hnamed, Kind.ofTypeName?_typeName]
  exact takes_readPayload v h

/-! ## Tags -/

/-- The tags of a value: the places in a table that name its kind, and for a
null one more. A table may name a kind twice, so a value can have several. -/
inductive Tags (table : List String) : Value → UInt32 → Prop
  | typed {v : Value} {tag : UInt32} {text : String} :
      table[tag.toNat]? = some text → v.kind.NamedBy text → Tags table v tag
  | untyped : Tags table .null untypedNull

/-- A value with one of its tags, which is what a blob of the older format
spells. That the tag fits the value is part of the type, so no entry list can
hold a pair that does not. -/
structure Tagged (table : List String) where
  value : Value
  tag : UInt32
  tags : Tags table value tag

def Tagged.encode {table : List String} (t : Tagged table) : List UInt8 :=
  SevenBit.encode t.tag ++ t.value.payload

theorem Tagged.encode_ne_nil {table : List String} (t : Tagged table) :
    t.encode ≠ [] :=
  List.append_ne_nil_of_left_ne_nil (SevenBit.encodeNat_ne_nil _) _

theorem Tagged.length_encode_le {table : List String} (t : Tagged table) :
    t.value.encode.length ≤ t.encode.length := by
  have hcode : (SevenBit.encode t.value.kind.code).length = 1 :=
    SevenBit.length_encodeNat_of_lt t.value.kind.code_lt
  have htag : 0 < (SevenBit.encode t.tag).length :=
    List.length_pos_iff.2 (SevenBit.encodeNat_ne_nil _)
  rw [Value.encode, encode, List.length_append, List.length_append, hcode]
  omega

/-- The older format: values behind places in a table of types, which comes
along. -/
def older (table : List String) : Format (Tagged table) :=
  ⟨1, table, Tagged.encode⟩

/-- A header of version 1 reads values by their places in its table. The text
at the place may carry an assembly, which is cut off before the kind is looked
up. -/
theorem Header.takes_readValue_tagged {h : Header} (hversion : h.version = 1)
    (hshort : h.typeNames.length ≤ maxLength) (t : Tagged h.typeNames)
    (hlen : t.encode.length ≤ maxLength) :
    Takes h.readValue t.encode t.value.stored := by
  have hcontent := t.value.contentLength_le_of_tag t.tag hlen
  obtain ⟨v, tag, htags⟩ := t
  refine (SevenBit.takes_read tag).bind ?_
  rw [if_pos hversion]
  cases htags with
  | @typed _ _ text htext hnamed =>
      have htyped : tag ≠ untypedNull := by
        intro huntyped
        have hlt := (List.getElem?_eq_some_iff.1 htext).1
        rw [huntyped] at hlt
        exact Nat.lt_irrefl _ (Nat.lt_of_lt_of_le hlt hshort)
      rw [if_neg htyped, htext]
      exact Value.takes_readNamed hnamed hcontent
  | untyped =>
      rw [if_pos rfl]
      exact Reader.takes_pure _

/-! ## Blobs -/

section

variable {table : List String} {entries : List (String × Tagged table)}

theorem length_table_le
    (hsize : ((older table).stream entries).length ≤ maxLength) :
    table.length ≤ maxLength := by
  have htypes : table.length ≤
      ((older table).typeNames.flatMap encodeText).length :=
    length_types_le table
  have hle := @Format.le_length_stream _ (older table) entries
  omega

theorem entriesOf_older (hnames : ∀ e ∈ entries, e.1 ≠ "")
    (hsize : ((older table).stream entries).length ≤ maxLength) :
    entriesOf ((older table).blob entries) =
      .ok (fileEntries ((sortByHash entries).map
        fun e => ⟨e.1, nameHash e.1, e.2.value.stored⟩)) := by
  refine @Format.entriesOf_blob _ entries (older table) hsize (.inl rfl) hnames
    (fun t => t.value.stored) ?_
  intro e he
  exact ⟨e.2.encode_ne_nil,
    @Header.takes_readValue_tagged ((older table).header entries) rfl
    (length_table_le hsize) e.2 (Format.fits_of_mem hsize he).2⟩

def untagged (entries : List (String × Tagged table)) : List (String × Value) :=
  entries.map fun e => (e.1, e.2.value)

/-- Tags do not take part in the order of the entries. -/
theorem sortByHash_untagged (entries : List (String × Tagged table)) :
    sortByHash (untagged entries) = untagged (sortByHash entries) := by
  rw [sortByHash, untagged, untagged, sortByHash]
  refine (List.map_mergeSort ?_).symm
  intro a _ b _
  rfl

/-- What fits into the older format fits into the newer: a code is no longer
than a place, and there are no types to come along. -/
theorem length_stream_untagged_le (entries : List (String × Tagged table)) :
    (newer.stream (untagged entries)).length ≤
      ((older table).stream entries).length := by
  have hnames : (newer.names (untagged entries)).length =
      ((older table).names entries).length := by
    rw [Format.length_names, Format.length_names, untagged, List.map_map]
    rfl
  have hvalues : (newer.values (untagged entries)).length ≤
      ((older table).values entries).length := by
    rw [Format.length_values, Format.length_values, untagged, List.map_map]
    exact List.sum_le_sum fun e _ => e.2.length_encode_le
  have hopening : (newer.opening entries.length).length ≤
      ((older table).opening entries.length).length := by
    have htypes : (newer.typeNames.flatMap encodeText).length = 0 := rfl
    rw [Format.length_opening, Format.length_opening, htypes, Nat.add_zero]
    exact Nat.le_add_right _ _
  have hcount : (untagged entries).length = entries.length := List.length_map ..
  rw [Format.length_stream, Format.length_stream, Format.length_tables,
    Format.length_tables, hcount, length_filler, length_filler, hnames]
  omega

theorem writable_untagged (hnames : ∀ e ∈ entries, e.1 ≠ "")
    (hdistinct : (entries.map Prod.fst).Nodup)
    (hsize : ((older table).stream entries).length ≤ maxLength) :
    Writable (untagged entries) := by
  have hfst : (untagged entries).map Prod.fst = entries.map Prod.fst := by
    rw [untagged, List.map_map]
    rfl
  refine ⟨?_, hfst ▸ hdistinct, ?_⟩
  · rw [hfst]
    exact List.forall_mem_map.2 hnames
  · rw [← length_stream_newer]
    exact Nat.le_trans (length_stream_untagged_le entries) hsize

theorem entriesOf_untagged (hw : Writable (untagged entries))
    (hn : entries.length % 256 ≠ '*'.toNat) :
    entriesOf (newer.blob (untagged entries)) =
      .ok (fileEntries ((sortByHash entries).map
        fun e => ⟨e.1, nameHash e.1, e.2.value.stored⟩)) := by
  rw [entriesOf_written hw (by rwa [untagged, List.length_map]),
    sortByHash_untagged, untagged, List.map_map]
  rfl

end

/-- A blob of the older format gives back exactly the entries that are laid out
in it, whatever else its table holds. In the layout of the newer format the
same entries are what is written for them, and they give back the same map,
unless their count looks like the start of a marker. -/
theorem older_blob_read_like_newer (table : List String)
    (entries : List (String × Tagged table))
    (hnames : ∀ e ∈ entries, e.1 ≠ "")
    (hdistinct : (entries.map Prod.fst).Nodup)
    (hsize : ((older table).stream entries).length < 2 ^ 32) :
    ∃ map, entriesOf ((older table).blob entries) = .ok map ∧
      (∀ name entry, map[name]? = some entry ↔
        ∃ t, (name, t) ∈ entries ∧
          entry = ⟨name, nameHash name, t.value.stored⟩) ∧
      write (untagged entries) = .ok (newer.blob (untagged entries)) ∧
      (entries.length % 256 ≠ 42 →
        entriesOf (newer.blob (untagged entries)) = .ok map) := by
  have hfits : ((older table).stream entries).length ≤ maxLength :=
    Nat.le_of_lt_succ hsize
  have hw := writable_untagged hnames hdistinct hfits
  refine ⟨_, entriesOf_older hnames hfits, getElem?_filed hdistinct fun t =>
    t.value.stored,
    (write_eq_ok_iff _ _).2 ⟨hw, rfl⟩, ?_⟩
  intro hn
  exact entriesOf_untagged hw hn

/-- A type of the writing program, one with its assembly, and one without. -/
def sampleTypes : List String :=
  ["Sample.Size", "System.String, mscorlib", "System.Char"]

/-- A text, a character outside the first plane and a null without a type. -/
def taggedSample : List (String × Tagged sampleTypes) :=
  [("größe", ⟨.string "12 µm", 1, .typed rfl (.qualified " mscorlib")⟩),
   ("Icon", ⟨.char '😀', 2, .typed rfl .bare⟩),
   ("empty", ⟨.null, untypedNull, .untyped⟩)]

theorem length_stream_taggedSample :
    ((older sampleTypes).stream taggedSample).length < 2 ^ 32 := by
  have hclasses := length_classNames_le
  have hparts : ((older sampleTypes).typeNames.flatMap encodeText).length +
      8 * taggedSample.length + (taggedSample.map fun e => recordSize e.1).sum +
      (taggedSample.map fun e => ((older sampleTypes).spell e.2).length).sum <
        1000 := by
    decide +kernel
  rw [preambleSize] at hclasses
  rw [Format.length_stream, Format.length_tables, Format.length_opening,
    length_filler, Format.length_names, Format.length_values]
  omega

theorem older_blob_read_like_newer_sample :
    ((older sampleTypes).stream taggedSample).length < 2 ^ 32 ∧
    ∃ map, entriesOf ((older sampleTypes).blob taggedSample) = .ok map ∧
      map["größe"]? = some ⟨"größe", nameHash "größe", .string "12 µm"⟩ ∧
      map["Icon"]? = some ⟨"Icon", nameHash "Icon", .char '\uFFFD'⟩ ∧
      map["empty"]? = some ⟨"empty", nameHash "empty", .null⟩ ∧
      map["Size"]? = none := by
  obtain ⟨map, hmap, hentry, -⟩ :=
    older_blob_read_like_newer sampleTypes taggedSample
    (by decide +kernel) (by decide +kernel) length_stream_taggedSample
  refine ⟨length_stream_taggedSample, map, hmap,
    (hentry _ _).2 ⟨_, .head _, rfl⟩,
    (hentry _ _).2 ⟨_, .tail _ (.head _), rfl⟩,
    (hentry _ _).2 ⟨_, .tail _ (.tail _ (.head _)), rfl⟩, ?_⟩
  rw [Option.eq_none_iff_forall_ne_some]
  intro entry hsome
  obtain ⟨t, hmem, -⟩ := (hentry _ _).1 hsome
  simp [taggedSample] at hmem

end CilAudit.Resource
