import CilAudit.Bytes.LittleEndian
import CilAudit.Code.Draft
import CilAudit.Code.Opcode.Table
import Std.Data.HashMap

/-!
# Decoding a body

Code is a row of instructions without gaps, so it is read from the front: an
opcode, the operand its row lays out, and on. Only when all of it has been read
are the byte offsets that branches point at known to be starts of instructions
or not. A branch into the middle of an instruction, or out of the code, makes
the whole body malformed.

Tokens are looked up in the given symbols. A string or a call target that they
do not know stays an opaque token.
-/

namespace CilAudit.Code

structure Symbols where
  string? : Token → Option String
  target? : Token → Option Target

/-- Symbols listed in pairs; of two pairs for one token the later one
counts. -/
def Symbols.ofLists (strings : List (Token × String))
    (targets : List (Token × Target)) :
    Symbols where
  string? token := strings.reverse.lookup token
  target? token := targets.reverse.lookup token

namespace Opcode

/-- The operand that an opcode without operand bytes implies: the shortest
forms name their argument slot, local slot or constant themselves. -/
def implied (op : Opcode) : Operand :=
  if op.lead ≠ 0 then .none
  else if 0x02 ≤ op.code && op.code ≤ 0x05 then
    .argument (op.code - 0x02).toUInt16
  else if 0x06 ≤ op.code && op.code ≤ 0x09 then .slot (op.code - 0x06).toUInt16
  else if 0x0A ≤ op.code && op.code ≤ 0x0D then .slot (op.code - 0x0A).toUInt16
  else if 0x15 ≤ op.code && op.code ≤ 0x1E then
    .immediate (.int32 (Int32.ofInt (op.code.toNat - 0x16)))
  else .none

/-- Whether the inline number of an opcode is a local slot. -/
def namesSlot (op : Opcode) : Bool :=
  if op.lead = 0 then 0x11 ≤ op.code && op.code ≤ 0x13
  else op.lead = twoByteLead && 0x0C ≤ op.code && op.code ≤ 0x0E

/-- Whether the inline number of an opcode is an argument slot. -/
def namesArgument (op : Opcode) : Bool :=
  if op.lead = 0 then 0x0E ≤ op.code && op.code ≤ 0x10
  else op.lead = twoByteLead && 0x09 ≤ op.code && op.code ≤ 0x0B

/-- The operand of an inline unsigned number: a local slot, an argument slot or
a constant, told apart by the opcode in front of it. -/
def numbered (op : Opcode) (n : Nat) : Operand :=
  if op.namesSlot then .slot (UInt16.ofNat n)
  else if op.namesArgument then .argument (UInt16.ofNat n)
  else .immediate (.uint8 (UInt8.ofNat n))

/-- The operand of an inline token. A token that the symbols do not know stays
in the code as it is; it is not a reason to refuse the code. -/
def tokened (op : Opcode) (symbols : Symbols) (token : Token) : Operand :=
  match op.category with
  | .pushLiteral =>
    match symbols.string? token with
    | some text => .string text
    | none => .token token
  | .call =>
    match symbols.target? token with
    | some target => .call target
    | none => .token token
  | .loadField => .field token
  | _ => .token token

end Opcode

def signed8 (n : Nat) : Int := (UInt8.ofNat n).toInt8.toInt

def signed32 (n : Nat) : Int := (UInt32.ofNat n).toInt32.toInt

/-- The opcode bytes at the front of code, and the bytes behind them. -/
def splitOpcode? : List UInt8 → Option (UInt8 × UInt8 × List UInt8)
  | [] => none
  | b :: rest =>
    if b = Opcode.twoByteLead then
      match rest with
      | [] => none
      | code :: rest => some (b, code, rest)
    else some (0, b, rest)

/-- The operand at the front of code, which stands at `start`, and the bytes
behind it. A branch counts from the end of its operand. -/
def scanOperand? (symbols : Symbols) (op : Opcode) (start : Nat)
    (bytes : List UInt8) :
    Option (Unlinked Int × List UInt8) :=
  match op.layout with
  | .none => some (.plain op.implied, bytes)
  | .int8 => (LittleEndian.split? 1 bytes).map fun (n, rest) =>
      (.plain (.immediate (.int8 (UInt8.ofNat n).toInt8)), rest)
  | .uint8 => (LittleEndian.split? 1 bytes).map fun (n, rest) =>
      (.plain (op.numbered n), rest)
  | .uint16 => (LittleEndian.split? 2 bytes).map fun (n, rest) =>
      (.plain (op.numbered n), rest)
  | .int32 => (LittleEndian.split? 4 bytes).map fun (n, rest) =>
      (.plain (.immediate (.int32 (UInt32.ofNat n).toInt32)), rest)
  | .int64 => (LittleEndian.split? 8 bytes).map fun (n, rest) =>
      (.plain (.immediate (.int64 (UInt64.ofNat n).toInt64)), rest)
  | .float32 => (LittleEndian.split? 4 bytes).map fun (n, rest) =>
      (.plain (.immediate (.float32 (UInt32.ofNat n))), rest)
  | .float64 => (LittleEndian.split? 8 bytes).map fun (n, rest) =>
      (.plain (.immediate (.float64 (UInt64.ofNat n))), rest)
  | .token => (LittleEndian.split? 4 bytes).map fun (n, rest) =>
      (.plain (op.tokened symbols ⟨UInt32.ofNat n⟩), rest)
  | .shortTarget => (LittleEndian.split? 1 bytes).map fun (n, rest) =>
      (.branch ((start + 1 : Nat) + signed8 n), rest)
  | .target => (LittleEndian.split? 4 bytes).map fun (n, rest) =>
      (.branch ((start + 4 : Nat) + signed32 n), rest)
  | .switch =>
    match LittleEndian.split? 4 bytes with
    | none => none
    | some (count, rest) =>
        (LittleEndian.splitMany? 4 count rest).map fun (ns, rest) =>
        (.table (ns.map fun n => (start + 4 + 4 * count : Nat) + signed32 n),
          rest)

/-- The instruction at the front of code, which stands at `offset`, and the
bytes behind it. -/
def scanOne (symbols : Symbols) (offset : Nat) (bytes : List UInt8) :
    Except Fault (Draft Int × List UInt8) :=
  match splitOpcode? bytes with
  | none => .error .outOfBounds
  | some (lead, code, rest) =>
    match Opcode.lookup? lead code with
    | none => .error (.malformed (.unassignedAt lead code offset))
    | some op =>
      match scanOperand? symbols op (offset + op.length) rest with
      | none => .error .outOfBounds
      | some (operand, rest) =>
        let size := op.length + op.layout.width operand.cases
        if offset ≤ maxOffset && size ≤ maxOffset then
          .ok (⟨offset, size, op, operand⟩, rest)
        else .error .outOfBounds

theorem lookup?_bytes {lead code : UInt8} {op : Opcode}
    (h : Opcode.lookup? lead code = some op) :
    op.lead = lead ∧ op.code = code := by
  have hone : ∀ o ∈ Opcode.oneByte, o.lead = 0 := by decide +kernel
  have htwo : ∀ o ∈ Opcode.twoByte, o.lead = Opcode.twoByteLead := by
    decide +kernel
  unfold Opcode.lookup? at h
  split at h
  · next h0 =>
      have hm := List.mem_of_find?_eq_some h
      have hc := List.find?_some h
      exact ⟨by rw [hone op hm, h0], by simpa using hc⟩
  · split at h
    · next h1 =>
        have hm := List.mem_of_find?_eq_some h
        have hc := List.find?_some h
        exact ⟨by rw [htwo op hm, h1], by simpa using hc⟩
    · simp at h

theorem length_of_splitOpcode? {lead code : UInt8} {op : Opcode}
    {bytes rest : List UInt8}
    (h : splitOpcode? bytes = some (lead, code, rest)) (hop : op.lead = lead) :
    bytes.length = op.length + rest.length := by
  match bytes with
  | [] => simp [splitOpcode?] at h
  | b :: tail =>
      simp only [splitOpcode?] at h
      split at h
      · next hb =>
          match tail with
          | [] => simp at h
          | c :: tail =>
              simp only [Option.some.injEq, Prod.mk.injEq] at h
              obtain ⟨rfl, rfl, rfl⟩ := h
              have : op.lead ≠ 0 := by rw [hop, hb]; decide
              simp [Opcode.length, this]
              omega
      · simp only [Option.some.injEq, Prod.mk.injEq] at h
        obtain ⟨rfl, rfl, rfl⟩ := h
        simp [Opcode.length, hop]
        omega

theorem length_of_scanOperand? {symbols : Symbols} {op : Opcode} {start : Nat}
    {bytes rest : List UInt8} {operand : Unlinked Int}
    (h : scanOperand? symbols op start bytes = some (operand, rest)) :
    bytes.length = op.layout.width operand.cases + rest.length := by
  unfold scanOperand? at h
  split at h
  case h_12 hl =>
    split at h
    · simp at h
    · next count mid hc =>
        simp only [Option.map_eq_some_iff, Prod.mk.injEq] at h
        obtain ⟨⟨ns, r⟩, hm, rfl, rfl⟩ := h
        have hlen := LittleEndian.length_of_split? hc
        obtain ⟨hns, hmid⟩ := LittleEndian.length_of_splitMany? hm
        simp [hl, Layout.width, Layout.size?, Unlinked.cases, hns]
        omega
  case h_1 hl =>
    simp only [Option.some.injEq, Prod.mk.injEq] at h
    obtain ⟨rfl, rfl⟩ := h
    simp [hl, Layout.width, Layout.size?]
  all_goals
    next hl =>
      simp only [Option.map_eq_some_iff, Prod.mk.injEq] at h
      obtain ⟨⟨n, r⟩, hs, rfl, rfl⟩ := h
      simpa [hl, Layout.width, Layout.size?]
        using LittleEndian.length_of_split? hs

/-- An instruction takes exactly the bytes in front of the rest. -/
theorem length_of_scanOne {symbols : Symbols} {offset : Nat}
    {bytes rest : List UInt8}
    {d : Draft Int} (h : scanOne symbols offset bytes = .ok (d, rest)) :
    bytes.length = d.size + rest.length := by
  unfold scanOne at h
  split at h
  · simp at h
  · next lead code mid hsplit =>
      split at h
      · simp at h
      · next op hop =>
          split at h
          · simp at h
          · next operand tail hscan =>
              simp only at h
              split at h
              · simp only [Except.ok.injEq, Prod.mk.injEq] at h
                obtain ⟨rfl, rfl⟩ := h
                have h1 := length_of_splitOpcode? hsplit (lookup?_bytes hop).1
                have h2 := length_of_scanOperand? hscan
                simp only
                omega
              · simp at h

theorem size_pos_of_scanOne {symbols : Symbols} {offset : Nat}
    {bytes rest : List UInt8}
    {d : Draft Int} (h : scanOne symbols offset bytes = .ok (d, rest)) :
    0 < d.size := by
  unfold scanOne at h
  split at h
  · simp at h
  · split at h
    · simp at h
    · next op hop =>
        split at h
        · simp at h
        · simp only at h
          split at h
          · simp only [Except.ok.injEq, Prod.mk.injEq] at h
            obtain ⟨rfl, rfl⟩ := h
            have : 0 < op.length := by unfold Opcode.length; split <;> decide
            simp only
            omega
          · simp at h

/-- Reads instructions until the bytes end, behind those that are `done`.
Branches still hold the offsets they go to; indices can be given to them only
when all instructions are known. -/
def scan (symbols : Symbols) (offset : Nat) (bytes : List UInt8)
    (done : Array (Draft Int)) :
    Except Fault (Array (Draft Int)) :=
  if bytes.isEmpty then .ok done
  else
    match _h : scanOne symbols offset bytes with
    | .error fault => .error fault
    | .ok (d, rest) => scan symbols (offset + d.size) rest (done.push d)
termination_by bytes.length
decreasing_by
  have h1 := length_of_scanOne _h
  have h2 := size_pos_of_scanOne _h
  omega

/-- The index of the instruction that starts at each offset. -/
def startIndex (drafts : Array (Draft Int)) : Std.HashMap Int Nat :=
  Std.HashMap.ofList (drafts.toList.zipIdx.map fun (d, index) =>
    ((d.offset : Int), index))

/-- The instruction that a branch at `index` goes to. An offset at which no
instruction starts is refused, with the branch that names it. -/
def landing (starts : Std.HashMap Int Nat) (index : Nat) (offset : Int) :
    Except Fault Nat :=
  match starts[offset]? with
  | some target => .ok target
  | none => .error (.malformed (.strayBranch index offset))

/-- Decodes the code of a method: reads its instructions, then links every
branch to the instruction it lands on. Code without bytes is refused, and so is
code that ends inside an instruction. -/
def Body.decode (symbols : Symbols) (locals : Array LocalSlot)
    (bytes : List UInt8) :
    Except Fault Body :=
  if bytes.isEmpty then .error .empty
  else do
    let drafts ← scan symbols 0 bytes #[]
    let code ← linkAll (landing (startIndex drafts)) drafts
    return { code, locals }

end CilAudit.Code
