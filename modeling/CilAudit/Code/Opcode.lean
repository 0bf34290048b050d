/-!
# Opcodes

An opcode is one byte, or two of which the first is `FE`. What an opcode means
to this library is a row of data: its mnemonic, how its operand is laid out,
which class of operation it belongs to, how control leaves it, and what it does
to the evaluation stack.
-/

namespace CilAudit.Code

/-- How an operand stands in the code. -/
inductive Layout where
  /-- No bytes; the opcode itself may still imply an operand. -/
  | none
  | int8
  | uint8
  | uint16
  | int32
  | int64
  | float32
  | float64
  | token
  /-- A signed byte from the end of the instruction. -/
  | shortTarget
  /-- A signed word from the end of the instruction. -/
  | target
  /-- A count, then as many signed words from the end of the instruction. -/
  | switch
deriving DecidableEq, Repr

/-- How many bytes an operand takes; a switch table has no fixed size. -/
def Layout.size? : Layout → Option Nat
  | .none => some 0
  | .int8 | .uint8 | .shortTarget => some 1
  | .uint16 => some 2
  | .int32 | .float32 | .token | .target => some 4
  | .int64 | .float64 => some 8
  | .switch => Option.none

/-- The classes of operations that tracing tells apart; all that it does not
follow is `other`. -/
inductive Category where
  | pushLiteral
  | loadLocal
  | storeLocal
  | loadField
  | call
  | branch
  | other
deriving DecidableEq, Repr

inductive Flow where
  | sequential
  | conditionalBranch
  | unconditionalBranch
  | call
  | return
  | switch
  | throw
  | endFinally
  | leave
deriving DecidableEq, Repr

/-- What an opcode alone says about the stack. -/
inductive StackBehavior where
  /-- It pops and pushes these numbers of slots. -/
  | fixed (pops pushes : Nat)
  /-- It depends on the call target. -/
  | varies
  /-- It is not modelled. -/
  | unknown
deriving DecidableEq, Repr

/-- A row of the opcode table. -/
structure Opcode where
  /-- The byte in front of a two-byte opcode, zero for a one-byte opcode. -/
  lead : UInt8
  code : UInt8
  mnemonic : String
  layout : Layout
  category : Category
  flow : Flow
  stack : StackBehavior
deriving DecidableEq, Repr

namespace Opcode

/-- The byte that leads every two-byte opcode. -/
def twoByteLead : UInt8 := 0xFE

/-- How many bytes the opcode itself takes. -/
def length (op : Opcode) : Nat := if op.lead = 0 then 1 else 2

def hasBytes (op : Opcode) (lead code : UInt8) : Bool :=
  op.lead == lead && op.code == code

end Opcode

end CilAudit.Code
