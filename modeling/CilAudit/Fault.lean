import CilAudit.Text.Hex
import CilAudit.Text.Utf8

/-!
# Faults

Everything that bytes, statements or entries can be refused for. A fault is a
cause with the facts that its wording needs; the wording itself is
`Fault.message`, in one place, so that a statement about *when* a fault arises
never has to speak about text.

One of them is no refusal. Machine words that add up to more than a machine
word holds end the program there and then, so an `overflow` passes through
every caller, and nothing is done behind it.
-/

namespace CilAudit

/-- Why data or a request is malformed. Each flaw carries what its message
names: the place, the value or the name that was refused. -/
inductive Flaw where
  /-- A 7-bit integer goes on after `bits` bits. -/
  | sevenBitOverflow (bits : Nat)
  /-- The text at `start` up to `stop` is not UTF-8. -/
  | textBetween (start stop : Nat) (damage : Utf8.Damage)
  /-- The length-led text at `offset` is not UTF-8. -/
  | textAt (offset : Nat) (damage : Utf8.Damage)
  /-- The opcode `lead code` at `offset` of a code stream is unassigned. -/
  | unassignedAt (lead code : UInt8) (offset : Nat)
  /-- A statement asks for the unassigned opcode `lead code`. -/
  | unassigned (lead code : UInt8)
  /-- The branch at instruction `index` lands on no instruction. -/
  | strayBranch (index : Nat) (target : Int)
  | labelTwice (name : String)
  | labelUndefined (name : String)
  | blobTooSmall
  | blobSize (size : Nat)
  | blobMagic (word : Nat)
  | readerVersion (version : Nat)
  | entryCount (count : Nat)
  | typeCount (count : Nat)
  | dataSection (offset : Nat)
  | nameLength (length offset : Nat)
  | nameUnits (offset : Nat)
  | typeIndex (index : Nat)
  | emptyName
  | duplicateName (name : String)
  | contentTooLarge (size : Nat)
deriving DecidableEq, Repr

/-- Why a tagged value cannot be decoded. -/
inductive TypeFlaw where
  | userType (code : Nat)
  | unknownCode (code : Nat)
  | unknownName (name : String)
  | loneSurrogate (unit : Nat)
deriving DecidableEq, Repr

inductive Fault where
  /-- There was nothing to read at all. -/
  | empty
  /-- A read would have gone past the end. -/
  | outOfBounds
  /-- A file could not be read. -/
  | unreadable
  | malformed (flaw : Flaw)
  | mistyped (flaw : TypeFlaw)
  /-- A sum of machine words is none: the program stops. -/
  | overflow
deriving DecidableEq, Repr

def Flaw.message : Flaw → String
  | .sevenBitOverflow bits =>
      "7-bit encoded integer overflow: value exceeds u32 capacity " ++
        s!"after {bits} bits"
  | .textBetween start stop damage =>
      s!"Invalid UTF-8 string at offset {start}-{stop}: {damage.message}"
  | .textAt offset damage =>
      s!"Invalid UTF-8 string at offset {offset}: {damage.message}"
  | .unassignedAt lead code offset =>
      s!"Invalid opcode: {Hex.upper 2 lead.toNat} {Hex.upper 2 code.toNat} " ++
        s!"at offset {offset}"
  | .unassigned lead code =>
      s!"Invalid opcode: {Hex.upper 2 lead.toNat} {Hex.upper 2 code.toNat}"
  | .strayBranch index target =>
      s!"Branch at instruction {index} targets invalid offset {target}"
  | .labelTwice name => s!"Label defined twice - {name}"
  | .labelUndefined name => s!"Undefined label - {name}"
  | .blobTooSmall => "Resource data too small"
  | .blobSize size => s!"The resource format is invalid! size - {size}"
  | .blobMagic word => s!"Invalid resource magic: 0x{Hex.upper 1 word}"
  | .readerVersion version =>
      s!"Unsupported resource reader version - {version}"
  | .entryCount count => s!"Resource count {count} exceeds the blob size"
  | .typeCount count => s!"Type count {count} exceeds the blob size"
  | .dataSection offset => s!"Invalid data section offset - {offset}"
  | .nameLength length offset =>
      s!"Invalid resource name length {length} at offset {offset}"
  | .nameUnits offset => s!"Invalid UTF-16 resource name at offset {offset}"
  | .typeIndex index => s!"Invalid type index - {index}"
  | .emptyName => "Resource names must not be empty"
  | .duplicateName name => s!"Duplicate resource name - {name}"
  | .contentTooLarge size => s!"Resource content too large - {size}"

def TypeFlaw.message : TypeFlaw → String
  | .userType code =>
      s!"TypeCode - {Hex.upper 1 code} is a serialized user type"
  | .unknownCode code =>
      s!"TypeCode - {Hex.upper 1 code} is not a known resource type"
  | .unknownName name => s!"TypeName - {name} has no primitive encoding"
  | .loneSurrogate unit =>
      s!"Invalid UTF-16 code unit for Char - {Hex.upper 1 unit}"

def Fault.message : Fault → String
  | .empty => "Provided input was empty"
  | .outOfBounds => "Out of Bound read would have occurred!"
  | .unreadable => "The file could not be read"
  | .malformed flaw => flaw.message
  | .mistyped flaw => flaw.message
  | .overflow => "attempt to add with overflow"

/-- A sequence of steps yields something exactly if every step does. Inversions
of what is written in `do` notation start here, one step at a time. -/
theorem bind_eq_ok_iff {ε α β : Type} {x : Except ε α}
    {f : α → Except ε β} {b : β} :
    (x >>= f) = .ok b ↔ ∃ a, x = .ok a ∧ f a = .ok b := by
  cases x with
  | error e => exact ⟨fun h => (by cases h), fun ⟨_, h, _⟩ => (by cases h)⟩
  | ok a =>
      exact ⟨fun h => ⟨a, rfl, h⟩, fun ⟨_, h, hf⟩ => (by cases h; exact hf)⟩

end CilAudit
