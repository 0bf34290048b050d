import CilAudit.Resource.Value

/-!
# The header of a resource blob

A blob starts with its own size, so that it can be embedded; all else is
aligned relative to the byte after the size. Behind the magic word come the
names of the classes that read the blob, then the reader's own header: the
format version, the number of entries, the type table, padding to a multiple of
eight, the ascending hashes of the names, and for each name its place in the
name section. The name section follows directly, the data section at an offset
of its own.

Counts are compared with the bytes that are left before anything is read by
them, so that a damaged count is refused as such. A version 2 header may carry
a marker of a debug writer in front of the counts; it is recognised by its
first character, an asterisk.
-/

namespace CilAudit.Resource

/-- The word that opens a blob. -/
def magic : UInt32 := 0xBEEFCACE

/-- What a header says in front of its counts. -/
structure Header.Front where
  /-- The version of the outer header; a newer one is skipped unread. -/
  managerVersion : UInt32
  /-- The size of the outer header's remainder. -/
  managerSize : UInt32
  readerType : String
  resourceSetType : String
  /-- Where the reader's own header starts. -/
  readerOffset : Nat
  /-- The version of the format, 1 or 2. -/
  version : UInt32
deriving DecidableEq, Repr

structure Header extends Header.Front where
  /-- Whether the marker of a debug writer was seen. -/
  isDebug : Bool
  /-- The number of entries. -/
  count : UInt32
  typeNames : List String
  /-- The number of alignment bytes behind the type table. -/
  padding : Nat
  hashes : List UInt32
  /-- The place of each name, relative to the name section. -/
  positions : List UInt32
  nameSection : Nat
  dataSection : Nat
deriving DecidableEq, Repr

namespace Header

/-- The classes named in the outer header; none are read from a header of a
newer version. -/
def readClasses (version size : UInt32) : Reader (String × String) :=
  if 1 < version then do
    Reader.advance size.toNat
    return ("", "")
  else do
    let readerType ← readText
    let resourceSetType ← readText
    return (readerType, resourceSetType)

/-- The debug marker of a version 2 header, if there is one. A marker is known
by its first byte alone, an asterisk, and reaches up to the next zero byte; an
entry count whose lowest byte is an asterisk is taken for one. -/
def readMarker (version : UInt32) : Reader Bool :=
  if version = 2 then do
    let first ← Reader.peek
    if first.toNat = '*'.toNat then do
      let _ ← Reader.textToZero
      return true
    else return false
  else return false

/-- How many bytes take a position to the next multiple of eight behind the
size field. -/
def paddingAt (position : Nat) : Nat := (8 - (position - 4) % 8) % 8

/-- Reads a header up to the place of a marker: the outer header, whose size
must fit into the `total` bytes there are, and the version of the reader's
own. -/
def readFront (total : Nat) : Reader Front := do
  Reader.require (12 ≤ total) .blobTooSmall
  let size ← Reader.uint32
  Reader.require (size.toNat ≤ total - 4 && 8 ≤ size.toNat)
    (.blobSize size.toNat)
  let word ← Reader.uint32
  Reader.require (word = magic) (.blobMagic word.toNat)
  let managerVersion ← Reader.uint32
  let managerSize ← Reader.uint32
  let (readerType, resourceSetType) ← readClasses managerVersion managerSize
  let readerOffset ← Reader.position
  let version ← Reader.uint32
  Reader.require (version = 1 || version = 2) (.readerVersion version.toNat)
  return { managerVersion, managerSize, readerType, resourceSetType,
           readerOffset, version }

/-- Reads the rest of a header, from the entry count to the place of the data
section, which must lie inside the `total` bytes. -/
def readTables (total : Nat) (front : Front) (isDebug : Bool) :
    Reader Header := do
  let count ← Reader.uint32
  let left ← Reader.remaining
  Reader.require (count.toNat ≤ left / 8) (.entryCount count.toNat)
  let typeCount ← Reader.uint32
  let left ← Reader.remaining
  Reader.require (typeCount.toNat ≤ left) (.typeCount typeCount.toNat)
  let typeNames ← Reader.times readText typeCount.toNat
  let position ← Reader.position
  let padding := paddingAt position
  Reader.advance padding
  let hashes ← Reader.times Reader.uint32 count.toNat
  let positions ← Reader.times Reader.uint32 count.toNat
  let dataField ← Reader.uint32
  let dataSection := dataField.toNat + 4
  let nameSection ← Reader.position
  Reader.require (nameSection ≤ dataSection && dataSection ≤ total)
    (.dataSection dataSection)
  return { front with
           isDebug, count, typeNames, padding, hashes, positions, nameSection,
           dataSection }

/-- Reads the header of a blob. Counts are compared with the bytes there are
before anything of that size is read; what the tables say is taken at its word.
-/
def read : Reader Header := do
  let total ← Reader.total
  let front ← readFront total
  let isDebug ← readMarker front.version
  readTables total front isDebug

/-- The header at the start of a blob. -/
def parse (blob : List UInt8) : Except Fault Header := read.on blob

end Header

end CilAudit.Resource
