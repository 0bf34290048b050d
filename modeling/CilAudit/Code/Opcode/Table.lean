import CilAudit.Code.Opcode

/-!
# The opcode table

All assigned opcodes, those of one byte and those behind `FE`, in the order of
their codes. Returns, throws, indirect calls and the like are listed with an
unknown effect on the stack: tracing stops at them. The effect of a call is
that of its target.
-/

namespace CilAudit.Code.Opcode

/-- A row for an operation that runs on to the next instruction. -/
def plain (lead code : UInt8) (mnemonic : String) (layout : Layout)
    (pops pushes : Nat) : Opcode :=
  ⟨lead, code, mnemonic, layout, .other, .sequential, .fixed pops pushes⟩

/-- A row for an operation that pushes a constant. -/
def literal (lead code : UInt8) (mnemonic : String) (layout : Layout) :
    Opcode :=
  ⟨lead, code, mnemonic, layout, .pushLiteral, .sequential, .fixed 0 1⟩

/-- A row for an operation that pushes a local. -/
def load (lead code : UInt8) (mnemonic : String) (layout : Layout) : Opcode :=
  ⟨lead, code, mnemonic, layout, .loadLocal, .sequential, .fixed 0 1⟩

/-- A row for an operation that pops into a local. -/
def store (lead code : UInt8) (mnemonic : String) (layout : Layout) : Opcode :=
  ⟨lead, code, mnemonic, layout, .storeLocal, .sequential, .fixed 1 0⟩

/-- A row for a branch; one that pops nothing is always taken. -/
def branch (lead code : UInt8) (mnemonic : String) (layout : Layout)
    (pops : Nat) : Opcode :=
  ⟨lead, code, mnemonic, layout, .branch,
    if pops = 0 then .unconditionalBranch else .conditionalBranch,
    .fixed pops 0⟩

def call (lead code : UInt8) (mnemonic : String) : Opcode :=
  ⟨lead, code, mnemonic, .token, .call, .call, .varies⟩

def oneByte : List Opcode := [
   plain 0 0x00 "nop" .none 0 0,
   plain 0 0x01 "break" .none 0 0,
   plain 0 0x02 "ldarg.0" .none 0 1,
   plain 0 0x03 "ldarg.1" .none 0 1,
   plain 0 0x04 "ldarg.2" .none 0 1,
   plain 0 0x05 "ldarg.3" .none 0 1,
   load 0 0x06 "ldloc.0" .none,
   load 0 0x07 "ldloc.1" .none,
   load 0 0x08 "ldloc.2" .none,
   load 0 0x09 "ldloc.3" .none,
   store 0 0x0A "stloc.0" .none,
   store 0 0x0B "stloc.1" .none,
   store 0 0x0C "stloc.2" .none,
   store 0 0x0D "stloc.3" .none,
   plain 0 0x0E "ldarg.s" .uint8 0 1,
   plain 0 0x0F "ldarga.s" .uint8 0 1,
   plain 0 0x10 "starg.s" .uint8 1 0,
   load 0 0x11 "ldloc.s" .uint8,
   plain 0 0x12 "ldloca.s" .uint8 0 1,
   store 0 0x13 "stloc.s" .uint8,
   literal 0 0x14 "ldnull" .none,
   literal 0 0x15 "ldc.i4.m1" .none,
   literal 0 0x16 "ldc.i4.0" .none,
   literal 0 0x17 "ldc.i4.1" .none,
   literal 0 0x18 "ldc.i4.2" .none,
   literal 0 0x19 "ldc.i4.3" .none,
   literal 0 0x1A "ldc.i4.4" .none,
   literal 0 0x1B "ldc.i4.5" .none,
   literal 0 0x1C "ldc.i4.6" .none,
   literal 0 0x1D "ldc.i4.7" .none,
   literal 0 0x1E "ldc.i4.8" .none,
   literal 0 0x1F "ldc.i4.s" .int8,
   literal 0 0x20 "ldc.i4" .int32,
   literal 0 0x21 "ldc.i8" .int64,
   literal 0 0x22 "ldc.r4" .float32,
   literal 0 0x23 "ldc.r8" .float64,
   plain 0 0x25 "dup" .none 1 2,
   plain 0 0x26 "pop" .none 1 0,
   ⟨0, 0x27, "jmp", .token, .other, .return, .unknown⟩,
   call 0 0x28 "call",
   ⟨0, 0x29, "calli", .token, .other, .call, .unknown⟩,
   ⟨0, 0x2A, "ret", .none, .other, .return, .unknown⟩,
   branch 0 0x2B "br.s" .shortTarget 0,
   branch 0 0x2C "brfalse.s" .shortTarget 1,
   branch 0 0x2D "brtrue.s" .shortTarget 1,
   branch 0 0x2E "beq.s" .shortTarget 2,
   branch 0 0x2F "bge.s" .shortTarget 2,
   branch 0 0x30 "bgt.s" .shortTarget 2,
   branch 0 0x31 "ble.s" .shortTarget 2,
   branch 0 0x32 "blt.s" .shortTarget 2,
   branch 0 0x33 "bne.un.s" .shortTarget 2,
   branch 0 0x34 "bge.un.s" .shortTarget 2,
   branch 0 0x35 "bgt.un.s" .shortTarget 2,
   branch 0 0x36 "ble.un.s" .shortTarget 2,
   branch 0 0x37 "blt.un.s" .shortTarget 2,
   branch 0 0x38 "br" .target 0,
   branch 0 0x39 "brfalse" .target 1,
   branch 0 0x3A "brtrue" .target 1,
   branch 0 0x3B "beq" .target 2,
   branch 0 0x3C "bge" .target 2,
   branch 0 0x3D "bgt" .target 2,
   branch 0 0x3E "ble" .target 2,
   branch 0 0x3F "blt" .target 2,
   branch 0 0x40 "bne.un" .target 2,
   branch 0 0x41 "bge.un" .target 2,
   branch 0 0x42 "bgt.un" .target 2,
   branch 0 0x43 "ble.un" .target 2,
   branch 0 0x44 "blt.un" .target 2,
   ⟨0, 0x45, "switch", .switch, .branch, .switch, .fixed 1 0⟩,
   plain 0 0x46 "ldind.i1" .none 1 1,
   plain 0 0x47 "ldind.u1" .none 1 1,
   plain 0 0x48 "ldind.i2" .none 1 1,
   plain 0 0x49 "ldind.u2" .none 1 1,
   plain 0 0x4A "ldind.i4" .none 1 1,
   plain 0 0x4B "ldind.u4" .none 1 1,
   plain 0 0x4C "ldind.i8" .none 1 1,
   plain 0 0x4D "ldind.i" .none 1 1,
   plain 0 0x4E "ldind.r4" .none 1 1,
   plain 0 0x4F "ldind.r8" .none 1 1,
   plain 0 0x50 "ldind.ref" .none 1 1,
   plain 0 0x51 "stind.ref" .none 2 0,
   plain 0 0x52 "stind.i1" .none 2 0,
   plain 0 0x53 "stind.i2" .none 2 0,
   plain 0 0x54 "stind.i4" .none 2 0,
   plain 0 0x55 "stind.i8" .none 2 0,
   plain 0 0x56 "stind.r4" .none 2 0,
   plain 0 0x57 "stind.r8" .none 2 0,
   plain 0 0x58 "add" .none 2 1,
   plain 0 0x59 "sub" .none 2 1,
   plain 0 0x5A "mul" .none 2 1,
   plain 0 0x5B "div" .none 2 1,
   plain 0 0x5C "div.un" .none 2 1,
   plain 0 0x5D "rem" .none 2 1,
   plain 0 0x5E "rem.un" .none 2 1,
   plain 0 0x5F "and" .none 2 1,
   plain 0 0x60 "or" .none 2 1,
   plain 0 0x61 "xor" .none 2 1,
   plain 0 0x62 "shl" .none 2 1,
   plain 0 0x63 "shr" .none 2 1,
   plain 0 0x64 "shr.un" .none 2 1,
   plain 0 0x65 "neg" .none 1 1,
   plain 0 0x66 "not" .none 1 1,
   plain 0 0x67 "conv.i1" .none 1 1,
   plain 0 0x68 "conv.i2" .none 1 1,
   plain 0 0x69 "conv.i4" .none 1 1,
   plain 0 0x6A "conv.i8" .none 1 1,
   plain 0 0x6B "conv.r4" .none 1 1,
   plain 0 0x6C "conv.r8" .none 1 1,
   plain 0 0x6D "conv.u4" .none 1 1,
   plain 0 0x6E "conv.u8" .none 1 1,
   call 0 0x6F "callvirt",
   plain 0 0x70 "cpobj" .token 2 0,
   plain 0 0x71 "ldobj" .token 1 1,
   literal 0 0x72 "ldstr" .token,
   call 0 0x73 "newobj",
   plain 0 0x74 "castclass" .token 1 1,
   plain 0 0x75 "isinst" .token 1 1,
   plain 0 0x76 "conv.r.un" .none 1 1,
   plain 0 0x79 "unbox" .token 1 1,
   ⟨0, 0x7A, "throw", .none, .other, .throw, .unknown⟩,
   ⟨0, 0x7B, "ldfld", .token, .loadField, .sequential, .fixed 1 1⟩,
   plain 0 0x7C "ldflda" .token 1 1,
   plain 0 0x7D "stfld" .token 2 0,
   ⟨0, 0x7E, "ldsfld", .token, .loadField, .sequential, .fixed 0 1⟩,
   plain 0 0x7F "ldsflda" .token 0 1,
   plain 0 0x80 "stsfld" .token 1 0,
   plain 0 0x81 "stobj" .token 2 0,
   plain 0 0x82 "conv.ovf.i1.un" .none 1 1,
   plain 0 0x83 "conv.ovf.i2.un" .none 1 1,
   plain 0 0x84 "conv.ovf.i4.un" .none 1 1,
   plain 0 0x85 "conv.ovf.i8.un" .none 1 1,
   plain 0 0x86 "conv.ovf.u1.un" .none 1 1,
   plain 0 0x87 "conv.ovf.u2.un" .none 1 1,
   plain 0 0x88 "conv.ovf.u4.un" .none 1 1,
   plain 0 0x89 "conv.ovf.u8.un" .none 1 1,
   plain 0 0x8A "conv.ovf.i.un" .none 1 1,
   plain 0 0x8B "conv.ovf.u.un" .none 1 1,
   plain 0 0x8C "box" .token 1 1,
   plain 0 0x8D "newarr" .token 1 1,
   plain 0 0x8E "ldlen" .none 1 1,
   plain 0 0x8F "ldelema" .token 2 1,
   plain 0 0x90 "ldelem.i1" .none 2 1,
   plain 0 0x91 "ldelem.u1" .none 2 1,
   plain 0 0x92 "ldelem.i2" .none 2 1,
   plain 0 0x93 "ldelem.u2" .none 2 1,
   plain 0 0x94 "ldelem.i4" .none 2 1,
   plain 0 0x95 "ldelem.u4" .none 2 1,
   plain 0 0x96 "ldelem.i8" .none 2 1,
   plain 0 0x97 "ldelem.i" .none 2 1,
   plain 0 0x98 "ldelem.r4" .none 2 1,
   plain 0 0x99 "ldelem.r8" .none 2 1,
   plain 0 0x9A "ldelem.ref" .none 2 1,
   plain 0 0x9B "stelem.i" .none 3 0,
   plain 0 0x9C "stelem.i1" .none 3 0,
   plain 0 0x9D "stelem.i2" .none 3 0,
   plain 0 0x9E "stelem.i4" .none 3 0,
   plain 0 0x9F "stelem.i8" .none 3 0,
   plain 0 0xA0 "stelem.r4" .none 3 0,
   plain 0 0xA1 "stelem.r8" .none 3 0,
   plain 0 0xA2 "stelem.ref" .none 3 0,
   plain 0 0xA3 "ldelem" .token 2 1,
   plain 0 0xA4 "stelem" .token 3 0,
   plain 0 0xA5 "unbox.any" .token 1 1,
   plain 0 0xB3 "conv.ovf.i1" .none 1 1,
   plain 0 0xB4 "conv.ovf.u1" .none 1 1,
   plain 0 0xB5 "conv.ovf.i2" .none 1 1,
   plain 0 0xB6 "conv.ovf.u2" .none 1 1,
   plain 0 0xB7 "conv.ovf.i4" .none 1 1,
   plain 0 0xB8 "conv.ovf.u4" .none 1 1,
   plain 0 0xB9 "conv.ovf.i8" .none 1 1,
   plain 0 0xBA "conv.ovf.u8" .none 1 1,
   plain 0 0xC2 "refanyval" .token 1 1,
   plain 0 0xC3 "ckfinite" .none 1 1,
   plain 0 0xC6 "mkrefany" .token 1 1,
   plain 0 0xD0 "ldtoken" .token 0 1,
   plain 0 0xD1 "conv.u2" .none 1 1,
   plain 0 0xD2 "conv.u1" .none 1 1,
   plain 0 0xD3 "conv.i" .none 1 1,
   plain 0 0xD4 "conv.ovf.i" .none 1 1,
   plain 0 0xD5 "conv.ovf.u" .none 1 1,
   plain 0 0xD6 "add.ovf" .none 2 1,
   plain 0 0xD7 "add.ovf.un" .none 2 1,
   plain 0 0xD8 "mul.ovf" .none 2 1,
   plain 0 0xD9 "mul.ovf.un" .none 2 1,
   plain 0 0xDA "sub.ovf" .none 2 1,
   plain 0 0xDB "sub.ovf.un" .none 2 1,
   ⟨0, 0xDC, "endfinally", .none, .other, .endFinally, .unknown⟩,
   ⟨0, 0xDD, "leave", .target, .branch, .leave, .unknown⟩,
   ⟨0, 0xDE, "leave.s", .shortTarget, .branch, .leave, .unknown⟩,
   plain 0 0xDF "stind.i" .none 2 0,
   plain 0 0xE0 "conv.u" .none 1 1]

/-- The opcodes behind the lead byte. -/
def twoByte : List Opcode := [
   plain 0xFE 0x00 "arglist" .none 0 1,
   plain 0xFE 0x01 "ceq" .none 2 1,
   plain 0xFE 0x02 "cgt" .none 2 1,
   plain 0xFE 0x03 "cgt.un" .none 2 1,
   plain 0xFE 0x04 "clt" .none 2 1,
   plain 0xFE 0x05 "clt.un" .none 2 1,
   plain 0xFE 0x06 "ldftn" .token 0 1,
   plain 0xFE 0x07 "ldvirtftn" .token 1 1,
   plain 0xFE 0x09 "ldarg" .uint16 0 1,
   plain 0xFE 0x0A "ldarga" .uint16 0 1,
   plain 0xFE 0x0B "starg" .uint16 1 0,
   load 0xFE 0x0C "ldloc" .uint16,
   plain 0xFE 0x0D "ldloca" .uint16 0 1,
   store 0xFE 0x0E "stloc" .uint16,
   ⟨0xFE, 0x0F, "localloc", .none, .other, .sequential, .unknown⟩,
   ⟨0xFE, 0x11, "endfilter", .none, .other, .endFinally, .unknown⟩,
   plain 0xFE 0x12 "unaligned." .uint8 0 0,
   plain 0xFE 0x13 "volatile." .none 0 0,
   plain 0xFE 0x14 "tail." .none 0 0,
   plain 0xFE 0x15 "initobj" .token 1 0,
   plain 0xFE 0x16 "constrained." .token 0 0,
   plain 0xFE 0x17 "cpblk" .none 3 0,
   plain 0xFE 0x18 "initblk" .none 3 0,
   plain 0xFE 0x19 "no." .uint8 0 0,
   ⟨0xFE, 0x1A, "rethrow", .none, .other, .throw, .unknown⟩,
   plain 0xFE 0x1C "sizeof" .token 0 1,
   plain 0xFE 0x1D "refanytype" .none 1 1,
   plain 0xFE 0x1E "readonly." .none 0 0]

def table : List Opcode := oneByte ++ twoByte

/-- The row of an opcode, if it is assigned. -/
def lookup? (lead code : UInt8) : Option Opcode :=
  if lead = 0 then oneByte.find? (·.code == code)
  else if lead = twoByteLead then twoByte.find? (·.code == code)
  else none

end CilAudit.Code.Opcode
