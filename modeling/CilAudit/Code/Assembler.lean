import CilAudit.Code.Draft
import CilAudit.Code.Opcode.Table
import Std.Data.TreeMap

/-!
# Assembling a body

Statements name instructions by their mnemonics and branch targets by labels.
The assembler picks the shortest encoding of slots and constants and keeps
count of the offsets, so that an assembled body looks like a decoded one. A
label marks the next instruction that is emitted, or the end.

The first unassigned opcode or repeated label refuses the whole body, before
any label is looked up.
-/

namespace CilAudit.Code

inductive Statement where
  /-- Declares the next local slot. -/
  | slot (typeName : String)
  | label (name : String)
  /-- Any opcode with a given operand. -/
  | raw (lead code : UInt8) (operand : Operand)
  | nop
  | ldarg (index : UInt16)
  | ldloc (index : UInt16)
  | stloc (index : UInt16)
  | ldloca (index : UInt16)
  | ldstr (text : String)
  | ldnull
  | ldcI4 (value : Int32)
  | ldfld (token : Token)
  | ldsfld (token : Token)
  | stfld (token : Token)
  | call (target : Target)
  | callvirt (target : Target)
  | newobj (target : Target)
  | box (token : Token)
  | dup
  | pop
  | add
  | ceq
  | br (goal : String)
  | brtrue (goal : String)
  | brfalse (goal : String)
  | switch (goals : List String)
  | ret
  | throw
deriving DecidableEq, Repr

/-- An opcode by its bytes, with an operand. -/
structure Encoding where
  lead : UInt8
  code : UInt8
  operand : Unlinked String
deriving DecidableEq, Repr

namespace Encoding

def short (code : UInt8) (operand : Operand) : Encoding :=
  ⟨0, code, .plain operand⟩

def long (code : UInt8) (operand : Operand) : Encoding :=
  ⟨Opcode.twoByteLead, code, .plain operand⟩

/-- The shortest encoding of a slot: by an opcode of its own up to 3, in a byte
up to 255. -/
def ofSlot (first inByte inWord : UInt8) (index : UInt16) (operand : Operand) :
    Encoding :=
  if index ≤ 3 then short (first + index.toUInt8) operand
  else if index ≤ 255 then short inByte operand
  else long inWord operand

/-- The shortest encoding of a constant: by an opcode of its own from -1 to 8,
in a byte from -128 to 127. -/
def ofConstant (value : Int32) : Encoding :=
  if -1 ≤ value.toInt ∧ value.toInt ≤ 8 then
    short (UInt8.ofNat (0x16 + value.toInt).toNat) (.immediate (.int32 value))
  else if -128 ≤ value.toInt ∧ value.toInt ≤ 127 then
    short 0x1F (.immediate (.int8 value.toInt8))
  else short 0x20 (.immediate (.int32 value))

end Encoding

open Encoding in
/-- The encoding of a statement that emits an instruction; slots and labels
emit none. Branches are emitted in their long forms, because the distance to a
label is not known before all statements are. -/
def Statement.encoding? : Statement → Option Encoding
  | .slot _ | .label _ => none
  | .raw lead code operand => some ⟨lead, code, .plain operand⟩
  | .nop => some (short 0x00 .none)
  | .ldarg index => some (ofSlot 0x02 0x0E 0x09 index (.argument index))
  | .ldloc index => some (ofSlot 0x06 0x11 0x0C index (.slot index))
  | .stloc index => some (ofSlot 0x0A 0x13 0x0E index (.slot index))
  | .ldloca index =>
      some (if index ≤ 255 then short 0x12 (.slot index)
        else long 0x0D (.slot index))
  | .ldstr text => some (short 0x72 (.string text))
  | .ldnull => some (short 0x14 .none)
  | .ldcI4 value => some (ofConstant value)
  | .ldfld token => some (short 0x7B (.field token))
  | .ldsfld token => some (short 0x7E (.field token))
  | .stfld token => some (short 0x7D (.field token))
  | .call target => some (short 0x28 (.call target))
  | .callvirt target => some (short 0x6F (.call target))
  | .newobj target => some (short 0x73 (.call target))
  | .box token => some (short 0x8C (.token token))
  | .dup => some (short 0x25 .none)
  | .pop => some (short 0x26 .none)
  | .add => some (short 0x58 .none)
  | .ceq => some (long 0x01 .none)
  | .br goal => some ⟨0, 0x38, .branch goal⟩
  | .brtrue goal => some ⟨0, 0x3A, .branch goal⟩
  | .brfalse goal => some ⟨0, 0x39, .branch goal⟩
  | .switch goals => some ⟨0, 0x45, .table goals⟩
  | .ret => some (short 0x2A .none)
  | .throw => some (short 0x7A .none)

/-- What has been assembled so far. The first refusal is kept and reported at
the end; statements behind it are still carried out. -/
structure Assembler where
  code : Array (Draft String) := #[]
  locals : Array LocalSlot := #[]
  labels : Std.TreeMap String Nat := ∅
  /-- The offset of the next instruction. -/
  offset : Nat := 0
  /-- The first refusal. -/
  fault : Option Fault := none

namespace Assembler

/-- Notes a refusal, unless there is one already. -/
def refuse (a : Assembler) (flaw : Flaw) : Assembler :=
  { a with fault := a.fault.or (some (.malformed flaw)) }

/-- Declares a local slot; indices stop at the largest one. -/
def declare (a : Assembler) (typeName : String) : Assembler :=
  { a with
    locals := a.locals.push
      ⟨UInt16.ofNat (min a.locals.size 0xFFFF), typeName⟩ }

def mark (a : Assembler) (name : String) : Assembler :=
  let marked := { a with labels := a.labels.insert name a.code.size }
  if a.labels.contains name then marked.refuse (.labelTwice name) else marked

/-- Emits an instruction. Sizes and offsets stop at the largest 32-bit word. -/
def emit (a : Assembler) (e : Encoding) : Assembler :=
  match Opcode.lookup? e.lead e.code with
  | none => a.refuse (.unassigned e.lead e.code)
  | some op =>
    let size := min (op.layout.width e.operand.cases + op.length) maxOffset
    { a with
      code := a.code.push ⟨a.offset, size, op, e.operand⟩
      offset := min (a.offset + size) maxOffset }

def perform (a : Assembler) : Statement → Assembler
  | .slot typeName => a.declare typeName
  | .label name => a.mark name
  | s =>
    match s.encoding? with
    | some e => a.emit e
    | none => a

/-- The index that a label marks: that of the next instruction emitted behind
it, of which nothing says that there is one. -/
def landing (a : Assembler) (label : String) : Except Fault Nat :=
  match a.labels[label]? with
  | some index => .ok index
  | none => .error (.malformed (.labelUndefined label))

def finish (a : Assembler) : Except Fault Body :=
  match a.fault with
  | some fault => .error fault
  | none => do
      let code ← linkAll (fun _ label => a.landing label) a.code
      return { code, locals := a.locals }

end Assembler

def Body.assemble (statements : List Statement) : Except Fault Body :=
  (statements.foldl Assembler.perform {}).finish

end CilAudit.Code
