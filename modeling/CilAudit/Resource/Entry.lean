import CilAudit.Resource.Header
import CilAudit.Resource.Name
import Std.Data.TreeMap

/-!
# The entries of a resource blob

The header lists names by hash; each name carries the place of its value.
Entries are read in the order of the header, from one cursor, and filed under
their names: of two entries with one name the later one stays. The map is
ordered by name, code point by code point.
-/

namespace CilAudit.Resource

/-- A named value of a blob. -/
structure Entry where
  name : String
  /-- The hash that the header files the name under. -/
  hash : UInt32
  value : Value
deriving DecidableEq, Repr

abbrev EntryMap := Std.TreeMap String Entry

/-- The index that a version 1 blob gives to a null without a type. -/
def untypedNull : UInt32 := 0xFFFFFFFF

namespace Header

/-- Reads a value with its tag: a code in version 2, an index into the type
table in version 1. -/
def readValue (h : Header) : Reader Value := do
  let tag ← SevenBit.read
  if h.version = 1 then
    if tag = untypedNull then return .null
    else
      match h.typeNames[tag.toNat]? with
      | some name => Value.readNamed name
      | none => Reader.flaw (.typeIndex tag.toNat)
  else Value.readCoded tag

/-- Reads the entry whose name stands at a place of the name section. Behind
the name stands the place of its value, so that reading an entry takes two
seeks. -/
def readEntry (h : Header) (hash position : UInt32) : Reader Entry := do
  Reader.seek (h.nameSection + position.toNat)
  let name ← readName
  let place ← Reader.uint32
  Reader.seek (h.dataSection + place.toNat)
  let value ← h.readValue
  return { name, hash, value }

/-- Reads all entries, in the order of the header. -/
def readEntries (h : Header) : Reader (List Entry) :=
  Reader.each (fun (hash, position) => h.readEntry hash position)
    (h.hashes.zip h.positions)

end Header

/-- Files entries by name; a later one replaces an earlier one. -/
def fileEntries (entries : List Entry) : EntryMap :=
  entries.foldl (fun map entry => map.insert entry.name entry) ∅

def entriesOf (blob : List UInt8) : Except Fault EntryMap := do
  let header ← Header.parse blob
  let entries ← header.readEntries.on blob
  return fileEntries entries

/-- The texts of a blob by name. -/
abbrev StringTable := Std.TreeMap String String

/-- The string entries of a blob. Values of other kinds are left out, but they
have been read: one that cannot be read refuses the whole blob. -/
def stringTable (blob : List UInt8) : Except Fault StringTable := do
  let entries ← entriesOf blob
  return entries.filterMap fun _ entry => entry.value.text?

end CilAudit.Resource
