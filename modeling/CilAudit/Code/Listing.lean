import CilAudit.Code.Instruction
import CilAudit.Text.Quoted

/-!
# Instructions as text

A line of a listing: the offset, the bytes of the opcode, the mnemonic in a
column of its own, the operand, the category, and the flow where it is not
simply the next instruction. A long switch table is cut after six targets.
-/

namespace CilAudit.Code

def Category.name : Category → String
  | .pushLiteral => "PushLiteral"
  | .loadLocal => "LoadLocal"
  | .storeLocal => "StoreLocal"
  | .loadField => "LoadField"
  | .call => "Call"
  | .branch => "Branch"
  | .other => "Other"

def Flow.name : Flow → String
  | .sequential => "Sequential"
  | .conditionalBranch => "ConditionalBranch"
  | .unconditionalBranch => "UnconditionalBranch"
  | .call => "Call"
  | .return => "Return"
  | .switch => "Switch"
  | .throw => "Throw"
  | .endFinally => "EndFinally"
  | .leave => "Leave"

def Layout.name : Layout → String
  | .none => "None"
  | .int8 => "Int8"
  | .uint8 => "UInt8"
  | .uint16 => "UInt16"
  | .int32 => "Int32"
  | .int64 => "Int64"
  | .float32 => "Float32"
  | .float64 => "Float64"
  | .token => "Token"
  | .shortTarget => "ShortTarget"
  | .target => "Target"
  | .switch => "Switch"

/-- The bits of a constant at its full width. -/
def Immediate.render : Immediate → String
  | .int8 n => Hex.upper 2 n.toUInt8.toNat
  | .uint8 n => Hex.upper 2 n.toNat
  | .int32 n => Hex.upper 8 n.toUInt32.toNat
  | .int64 n => Hex.upper 16 n.toUInt64.toNat
  | .float32 bits => Hex.upper 8 bits.toNat
  | .float64 bits => Hex.upper 16 bits.toNat

/-- How many targets of a switch are shown. -/
def shownTargets : Nat := 6

def renderTargets (indices : List Nat) : String :=
  let shown := (indices.take shownTargets).map fun index => s!"#{index}"
  let hidden := indices.length - shownTargets
  ", ".intercalate
    (if hidden = 0 then shown else shown ++ [s!"...{hidden} more"])

/-- An operand, led by a blank. -/
def Operand.render : Operand → String
  | .none => ""
  | .immediate value => " 0x" ++ value.render
  | .slot index => s!" local:{index.toNat}"
  | .argument index => s!" arg:{index.toNat}"
  | .string text => " " ++ Quoted.quote text
  | .call callee => " " ++ callee.render
  | .field t => " token:0x" ++ Hex.upper 8 t.word.toNat
  | .token t => " token:0x" ++ Hex.upper 8 t.word.toNat
  | .target index => s!" -> #{index}"
  | .switch indices =>
      s!" switch[{indices.length}]:(" ++ renderTargets indices ++ ")"

def padRight (width : Nat) (text : String) : String :=
  text ++ String.ofList (List.replicate (width - text.length) ' ')

def mnemonicWidth : Nat := 12

def Instruction.render (i : Instruction) : String :=
  "IL_" ++ Hex.upper 4 i.offset ++ ": " ++
    (if i.op.lead = 0 then "" else Hex.upper 2 i.op.lead.toNat ++ ":") ++
    Hex.upper 2 i.op.code.toNat ++ " - " ++
      padRight mnemonicWidth i.op.mnemonic ++
    i.operand.render ++ " | " ++ i.op.category.name ++
    (if i.op.flow = .sequential then "" else " | " ++ i.op.flow.name)

end CilAudit.Code
