import CilAudit.Bytes.SevenBit
import CilAudit.Text.Utf16

/-!
# Resource names

A name is kept as UTF-16 units led by their length in bytes, and found by a
32-bit hash of those units. Different names may share a hash.
-/

namespace CilAudit.Resource

/-- The hash under which a name is filed: start with 5381, and for each unit
multiply by 33 and exclusive-or the unit in, on 32-bit words. -/
def nameHash (name : String) : UInt32 :=
  (Utf16.units name).foldl (fun hash unit => hash * 33 ^^^ unit.toUInt32) 5381

/-- The units that bytes spell, two bytes to a unit. -/
def unitsOfBytes : List UInt8 → List UInt16
  | a :: b :: rest =>
      UInt16.ofNat (LittleEndian.value [a, b]) :: unitsOfBytes rest
  | _ => []

/-- The bytes of a name, without its length. -/
def nameBytes (name : String) : List UInt8 :=
  (Utf16.units name).flatMap fun unit => LittleEndian.bytes 2 unit.toNat

/-- Reads a name. An empty one, or one with half a unit, is refused before its
bytes are read. -/
def readName : Reader String := do
  let length ← SevenBit.read
  let offset ← Reader.position
  Reader.require (length.toNat ≠ 0 && length.toNat % 2 = 0)
    (.nameLength length.toNat offset)
  let bytes ← Reader.bytes length.toNat
  match Utf16.decode? (unitsOfBytes bytes) with
  | some name => return name
  | none => Reader.flaw (.nameUnits offset)

end CilAudit.Resource
