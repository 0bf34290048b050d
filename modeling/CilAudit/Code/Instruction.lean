import CilAudit.Code.Ieee
import CilAudit.Code.Opcode
import CilAudit.Code.Target
import CilAudit.Code.Token

/-!
# Instructions

An instruction is a row of the opcode table at a place of the code, with its
operand. Branch operands are indices of instructions, never byte offsets. The
questions that analyses ask of an instruction respect its category: a local
slot named by `ldloca` is not a load, and a string is a literal only where it
is pushed.
-/

namespace CilAudit.Code

/-- A constant in the code; floating point numbers are kept as their bits. -/
inductive Immediate where
  | int8 (n : Int8)
  | uint8 (n : UInt8)
  | int32 (n : Int32)
  | int64 (n : Int64)
  | float32 (bits : UInt32)
  | float64 (bits : UInt64)
deriving DecidableEq, Repr

def Immediate.sameNumber : Immediate → Immediate → Bool
  | .float32 a, .float32 b => Ieee.equal32 a b
  | .float64 a, .float64 b => Ieee.equal64 a b
  | a, b => a == b

inductive Operand where
  | none
  | immediate (value : Immediate)
  /-- A local slot. -/
  | slot (index : UInt16)
  | argument (index : UInt16)
  | string (text : String)
  | call (target : Target)
  | field (token : Token)
  | token (token : Token)
  /-- The index of the instruction that a branch goes to. -/
  | target (index : Nat)
  | switch (indices : List Nat)
deriving DecidableEq, Repr

/-- Equality of operands, constants compared as numbers. -/
def Operand.sameNumbers : Operand → Operand → Bool
  | .immediate a, .immediate b => a.sameNumber b
  | a, b => a == b

structure Instruction where
  /-- The offset of its first byte. -/
  offset : Nat
  /-- How many bytes it takes. -/
  size : Nat
  op : Opcode
  operand : Operand
deriving DecidableEq, Repr

namespace Instruction

def isCall (i : Instruction) : Bool := i.op.category == .call

def isConstructorCall (i : Instruction) : Bool := i.op.hasBytes 0 0x73

def isIndirectCall (i : Instruction) : Bool := i.op.hasBytes 0 0x29

/-- Whether control may leave to a target. -/
def isBranch (i : Instruction) : Bool :=
  match i.op.flow with
  | .conditionalBranch | .unconditionalBranch | .switch | .leave => true
  | _ => false

/-- The indices that the operand names as targets. -/
def targets (i : Instruction) : List Nat :=
  match i.operand with
  | .target index => [index]
  | .switch indices => indices
  | _ => []

/-- The slot that is loaded or stored. An instruction that takes the address of
a slot does neither, and has none here. -/
def localIndex? (i : Instruction) : Option UInt16 :=
  match i.op.category, i.operand with
  | .loadLocal, .slot index => some index
  | .storeLocal, .slot index => some index
  | _, _ => none

/-- The slot whose address is pushed. -/
def addressOf? (i : Instruction) : Option UInt16 :=
  if i.op.hasBytes 0 0x12 || i.op.hasBytes Opcode.twoByteLead 0x0D then
    match i.operand with
    | .slot index => some index
    | _ => none
  else none

def literal? (i : Instruction) : Option String :=
  match i.op.category, i.operand with
  | .pushLiteral, .string text => some text
  | _, _ => none

/-- What a call invokes, if its token was known. -/
def callTarget? (i : Instruction) : Option Target :=
  match i.op.category, i.operand with
  | .call, .call target => some target
  | _, _ => none

def token? (i : Instruction) : Option Token :=
  match i.operand with
  | .token token => some token
  | .field token => some token
  | _ => none

/-- Equality of instructions, constants compared as numbers. -/
def sameNumbers (a b : Instruction) : Bool :=
  a.offset == b.offset && a.size == b.size && a.op == b.op &&
    a.operand.sameNumbers b.operand

end Instruction

end CilAudit.Code
