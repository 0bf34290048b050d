import CilAudit.Proofs.Linking

/-!
# The shape of decoded bodies

A decoded body can be checked against the bytes it came from without running
the decoder. The instructions fill the code, each has the opcode that stands at
its offset with the row the table has for it, and each branch names the
instruction that starts where its displacement leads, counted from the end of
the branch. The displacements are read here straight from the code, by
position.

The proof takes one instruction at a time. `Scans.place` says which bytes an
instruction was read from, and with them in hand the operand is a matter of
`Spelled` and `Links` alone.
-/

namespace CilAudit.Code

open LittleEndian (value signed)

/-! ## Displacements by position -/

/-- The displacements at the front of the bytes behind an opcode, in order.
They are read straight from the bytes, without the decoder. -/
def Layout.displacements (layout : Layout) (bytes : List UInt8) : List Int :=
  match layout with
  | .shortTarget => [signed (bytes.take 1)]
  | .target => [signed (bytes.take 4)]
  | .switch =>
    (List.range (value (bytes.take 4))).map fun k =>
      signed ((bytes.drop (4 + 4 * k)).take 4)
  | _ => []

/-- The displacements that stand in the code for an instruction. -/
def Instruction.displacements (bytes : List UInt8) (i : Instruction) :
    List Int :=
  i.op.layout.displacements (bytes.drop (i.offset + i.op.length))

/-- A displacement from the end of an instruction leads to the start of the one
at an index. A place inside an instruction is led to by none. -/
def Body.LeadsTo (b : Body) (i : Instruction) (displacement : Int)
    (index : Nat) : Prop :=
  ∃ j, b.get? index = some j ∧
    (j.offset : Int) = (i.offset + i.size : Nat) + displacement

/-- The operand of a branch is a target, that of a switch a table, and no other
names targets. Operands and layouts could be combined otherwise; decoded ones
never are. -/
def Instruction.BranchesAsLaidOut (i : Instruction) : Prop :=
  match i.op.layout with
  | .shortTarget | .target => ∃ index, i.operand = .target index
  | .switch => ∃ indices, i.operand = .switch indices
  | _ => i.targets = []

/-- An instruction of a body is the one that stands in the code at its offset:
its opcode, its size and its targets are all found again in the bytes there. -/
structure Instruction.StandsIn (i : Instruction) (b : Body)
    (bytes : List UInt8) : Prop where
  row : Opcode.lookup? i.op.lead i.op.code = some i.op
  opcode : i.op.bytes <+: bytes.drop i.offset
  size : i.size = i.op.length + i.op.layout.width (i.displacements bytes).length
  operand : i.BranchesAsLaidOut
  targets : List.Forall₂ (b.LeadsTo i) (i.displacements bytes) i.targets
  inside : ∀ index ∈ i.targets, index < b.size

/-! ## What was read for one instruction -/

section

variable {symbols : Symbols} {op : Opcode} {stop : Nat} {tail : List UInt8}
  {u : Unlinked Int} {leads : Int → Nat → Prop} {i : Instruction}

theorem range_map_words {α : Type} (f : List UInt8 → α)
    (words : List (List UInt8))
    (behind : List UInt8) (hlen : ∀ w ∈ words, w.length = 4) :
    ((List.range words.length).map fun k =>
        f (((words.flatten ++ behind).drop (4 * k)).take 4)) = words.map f := by
  induction words with
  | nil => rfl
  | cons w words ih =>
      obtain ⟨hw, hwords⟩ := List.forall_mem_cons.1 hlen
      rw [List.length_cons, List.range_succ_eq_map, List.map_cons, List.map_map,
        List.map_cons, ← ih hwords]
      congr 1
      · rw [Nat.mul_zero, List.drop_zero, List.flatten_cons, List.append_assoc,
          List.take_left' hw]
      · refine List.map_congr_left fun k _ => ?_
        rw [Function.comp_apply, List.flatten_cons, List.append_assoc,
          Nat.mul_succ, Nat.add_comm, ← List.drop_drop, List.drop_left' hw]

theorem displacements_of_inline? {n : Nat} {operand : Operand}
    (h : op.inline? symbols n = some operand) (bytes : List UInt8) :
    op.layout.displacements bytes = [] := by
  unfold Opcode.inline? at h
  cases hl : op.layout <;> rw [hl] at h
  case shortTarget => cases h
  case target => cases h
  case switch => cases h
  all_goals rfl

theorem displacements_of_branch (hsize : op.layout.size? = some tail.length)
    (hlayout : op.layout = .shortTarget ∨ op.layout = .target)
    (behind : List UInt8) :
    op.layout.displacements (tail ++ behind) = [signed tail] := by
  rcases hlayout with hl | hl
  · rw [hl] at hsize ⊢
    rw [Layout.displacements, List.take_left' (Option.some.inj hsize).symm]
  · rw [hl] at hsize ⊢
    rw [Layout.displacements, List.take_left' (Option.some.inj hsize).symm]

theorem displacements_of_table {count : List UInt8} {words : List (List UInt8)}
    (hlayout : op.layout = .switch) (hcount : count.length = 4)
    (hwords : value count = words.length) (hlen : ∀ w ∈ words, w.length = 4)
    (behind : List UInt8) :
    op.layout.displacements (count ++ words.flatten ++ behind) =
      words.map signed := by
  rw [hlayout, Layout.displacements, List.append_assoc,
    List.take_left' hcount, hwords, ← range_map_words signed words behind hlen]
  refine List.map_congr_left fun k _ => ?_
  rw [← List.drop_drop, List.drop_left' hcount]

/-- The targets of an instruction are where its displacements lead, counted
from its end. The scan counted from the end of the operand, which is the same
place. -/
theorem Spelled.targets (hs : Spelled symbols op stop tail u)
    (hl : u.Links leads i.operand) (behind : List UInt8) :
    List.Forall₂ (fun displacement index => leads (stop + displacement) index)
      (op.layout.displacements (tail ++ behind)) i.targets := by
  cases hs with
  | plain hsize hinline =>
      rw [← hl.of_plain] at hinline
      rw [displacements_of_inline? hinline,
        Instruction.targets_of_isInline (Opcode.isInline_of_inline? hinline)]
      exact .nil
  | branch hsize hlayout =>
      obtain ⟨index, ho, hleads⟩ := hl.of_branch
      rw [displacements_of_branch hsize hlayout, Instruction.targets, ho]
      exact .cons hleads .nil
  | table hlayout hcount hwords hlen =>
      obtain ⟨indices, ho, hleads⟩ := hl.of_table
      rw [displacements_of_table hlayout hcount hwords hlen,
        Instruction.targets, ho]
      rw [List.forall₂_map_left_iff] at hleads ⊢
      exact hleads

section

variable {n : Nat} {operand : Operand} {index : Nat} {indices : List Nat}

theorem Instruction.BranchesAsLaidOut.of_inline?
    (h : i.op.inline? symbols n = some operand)
    (hnone : i.targets = []) : i.BranchesAsLaidOut := by
  unfold BranchesAsLaidOut
  unfold Opcode.inline? at h
  cases hlayout : i.op.layout <;> rw [hlayout] at h
  case shortTarget => cases h
  case target => cases h
  case switch => cases h
  all_goals exact hnone

theorem Instruction.BranchesAsLaidOut.of_target
    (hlayout : i.op.layout = .shortTarget ∨ i.op.layout = .target)
    (ho : i.operand = .target index) : i.BranchesAsLaidOut := by
  unfold BranchesAsLaidOut
  rcases hlayout with h | h
  · rw [h]
    exact ⟨index, ho⟩
  · rw [h]
    exact ⟨index, ho⟩

theorem Instruction.BranchesAsLaidOut.of_switch
    (hlayout : i.op.layout = .switch)
    (ho : i.operand = .switch indices) : i.BranchesAsLaidOut := by
  unfold BranchesAsLaidOut
  rw [hlayout]
  exact ⟨indices, ho⟩

end

theorem Spelled.branchesAsLaidOut (hs : Spelled symbols i.op stop tail u)
    (hl : u.Links leads i.operand) : i.BranchesAsLaidOut := by
  cases hs with
  | plain hsize hinline =>
      rw [← hl.of_plain] at hinline
      exact .of_inline? hinline
        (Instruction.targets_of_isInline (Opcode.isInline_of_inline? hinline))
  | branch hsize hlayout =>
      obtain ⟨index, ho, -⟩ := hl.of_branch
      exact .of_target hlayout ho
  | table hlayout =>
      obtain ⟨indices, ho, -⟩ := hl.of_table
      exact .of_switch hlayout ho

theorem Spelled.width_eq (hs : Spelled symbols op stop tail u)
    (behind : List UInt8) :
    op.layout.width (op.layout.displacements (tail ++ behind)).length =
      tail.length := by
  cases hs with
  | plain hsize => rw [Layout.width, hsize, Option.getD_some]
  | branch hsize => rw [Layout.width, hsize, Option.getD_some]
  | table hlayout hcount hwords hlen =>
      rw [displacements_of_table hlayout hcount hwords hlen, List.length_map,
        List.length_append, hcount, length_flatten_words hlen, hlayout]
      rfl

end

/-! ## Where each instruction was read -/

/-- Every instruction of a row was read from the bytes that stand at its
offset. By induction on the row; the bytes of the instructions in front are
what the offset counts. -/
theorem Scans.place {symbols : Symbols} {offset : Nat} {bs : List UInt8}
    {ds : List (Draft Int)}
    {d : Draft Int} (h : Scans symbols offset bs ds) (hd : d ∈ ds) :
    ∃ before front behind, bs = before ++ (front ++ behind) ∧
      d.offset = offset + before.length ∧ Spells symbols front d := by
  induction ds generalizing offset bs with
  | nil => cases hd
  | cons e ds ih =>
      obtain ⟨hoffset, front, rest, rfl, he, hs⟩ := h
      rcases List.mem_cons.1 hd with rfl | hmem
      · exact ⟨[], front, rest, rfl, hoffset, he⟩
      · obtain ⟨before, front', behind, rfl, hplace, hd'⟩ := ih hs hmem
        refine ⟨front ++ before, front', behind,
          by rw [List.append_assoc], ?_, hd'⟩
        rw [hplace, he.size, List.length_append, Nat.add_assoc]

section

variable {symbols : Symbols} {bytes : List UInt8} {ds : List (Draft Int)}
  {body : Body} {i : Instruction}

theorem Body.leadsTo_iff_lands (body : Body) (i : Instruction)
    (displacement : Int) (index : Nat) :
    body.LeadsTo i displacement index ↔
      Lands (body.code.toList.map Instruction.extent)
        ((i.offset + i.size : Nat) + displacement)
        index := by
  have hget : body.code.toList[index]? = body.get? index :=
    Array.getElem?_toList
  rw [LeadsTo, Lands, List.getElem?_map, hget]
  constructor
  · rintro ⟨j, hj, hoffset⟩
    exact ⟨j.extent, by rw [hj, Option.map_some], hoffset⟩
  · rintro ⟨piece, hpiece, hoffset⟩
    obtain ⟨j, hj, rfl⟩ := Option.map_eq_some_iff.1 hpiece
    exact ⟨j, hj, hoffset⟩

theorem standsIn_of_scans (hs : Scans symbols 0 bytes ds)
    (hlinked : List.Forall₂ (Draft.Linked (Lands (ds.map Draft.extent))) ds
      body.code.toList)
    (hi : i ∈ body.code) : i.StandsIn body bytes := by
  obtain ⟨d, hd, hlink⟩ := exists_of_forall₂ hlinked (Array.mem_toList_iff.2 hi)
  obtain ⟨before, front, behind, rfl, hplace, hspells⟩ := hs.place hd
  obtain ⟨tail, rfl, hspelled⟩ := hspells.operand
  have hoffset : i.offset = before.length := by
    rw [hlink.offset, hplace, Nat.zero_add]
  have hat : (before ++ (d.op.bytes ++ tail ++ behind)).drop i.offset =
      i.op.bytes ++ (tail ++ behind) := by
    rw [hoffset, List.drop_left, List.append_assoc, hlink.op]
  have htail : (before ++ (d.op.bytes ++ tail ++ behind)).drop
      (i.offset + i.op.length) =
      tail ++ behind := by
    rw [← List.drop_drop, hat, ← Opcode.length_bytes, List.drop_left]
  rw [← hlink.op, ← hlink.offset, ← hlink.size] at hspelled
  have htargets : List.Forall₂ (body.LeadsTo i)
      (i.displacements (before ++ (d.op.bytes ++ tail ++ behind)))
        i.targets := by
    rw [Instruction.displacements, htail]
    refine (hspelled.targets hlink.operand behind).imp
      fun displacement index hlands => ?_
    rwa [← map_extent_of_linked hlinked, ← Body.leadsTo_iff_lands] at hlands
  refine ⟨?_, ?_, ?_, hspelled.branchesAsLaidOut hlink.operand, htargets, ?_⟩
  · rw [hlink.op]
    exact hspells.row
  · rw [hat]
    exact List.prefix_append _ _
  · rw [Instruction.displacements, htail, hspelled.width_eq behind, hlink.size,
      hspells.size, List.length_append, Opcode.length_bytes, hlink.op]
  · intro index hindex
    obtain ⟨_, -, j, hj, -⟩ := exists_of_forall₂ htargets hindex
    exact (Array.getElem?_eq_some_iff.1 hj).1

end

/-- Bytes that decode are laid out as the body says. The instructions fill
them; each is the one that stands at its offset, and names as targets the
instructions that its displacements lead to; and the join points are the
instructions that some displacement leads to. -/
theorem decoded_body_stands (symbols : Symbols) (locals : Array LocalSlot)
    (bytes : List UInt8)
    (body : Body) (h : Body.decode symbols locals bytes = .ok body) :
    0 < body.size ∧
      Tiles 0 bytes.length (body.code.toList.map Instruction.extent) ∧
      (∀ i ∈ body.code, i.StandsIn body bytes) ∧
      ∀ index, body.isJoinPoint index = true ↔
        ∃ i ∈ body.code, ∃ displacement ∈ i.displacements bytes,
          body.LeadsTo i displacement index := by
  obtain ⟨hne, -, ds, hs, hlinked⟩ := decode_eq_ok_iff.1 h
  have htiles :
      Tiles 0 bytes.length (body.code.toList.map Instruction.extent) := by
    rw [map_extent_of_linked hlinked, ← Nat.zero_add bytes.length]
    exact hs.tiles
  have hstands : ∀ i ∈ body.code, i.StandsIn body bytes :=
    fun i hi => standsIn_of_scans hs hlinked hi
  refine ⟨?_, htiles, hstands, fun index => ?_⟩
  · by_contra hempty
    have hcode : body.code = #[] := Array.eq_empty_of_size_eq_zero (by
      rw [Body.size] at hempty
      omega)
    rw [hcode] at htiles
    exact hne (List.length_eq_zero_iff.1 htiles.symm)
  · rw [body.isJoinPoint_iff]
    constructor
    · rintro ⟨i, hi, hindex⟩
      exact ⟨i, hi, exists_of_forall₂ (hstands i hi).targets hindex⟩
    · rintro ⟨i, hi, displacement, hmem, hleads⟩
      -- The displacement leads to one of the targets, and to no other
      -- instruction.
      obtain ⟨target, htarget, hleads'⟩ :=
        exists_of_forall₂ (hstands i hi).targets.flip hmem
      have hsame : target = index :=
        Lands.unique htiles ((body.leadsTo_iff_lands i _ _).1 hleads')
          ((body.leadsTo_iff_lands i _ _).1 hleads)
      exact ⟨i, hi, hsame ▸ htarget⟩

/-- A branch forward, a branch back to the start, and a switch whose one case
goes there too. -/
def loopCode : List UInt8 :=
  [0x2C, 0x02, 0x2B, 0xFC, 0x45, 0x01, 0x00, 0x00, 0x00, 0xF3, 0xFF, 0xFF,
    0xFF, 0x2A]

def loopBody : Body where
  code := #[
    ⟨0, 2, .branch 0 0x2C "brfalse.s" .shortTarget 1, .target 2⟩,
    ⟨2, 2, .branch 0 0x2B "br.s" .shortTarget 0, .target 0⟩,
    ⟨4, 9, ⟨0, 0x45, "switch", .switch, .branch, .switch, .fixed 1 0⟩,
      .switch [0]⟩,
    ⟨13, 1, ⟨0, 0x2A, "ret", .none, .other, .return, .unknown⟩, .none⟩]
  locals := #[]

theorem decode_loopCode :
    Body.decode (.ofLists [] []) #[] loopCode = .ok loopBody := by
  have hscan : scan (.ofLists [] []) 0 loopCode #[] = .ok #[
      ⟨0, 2, .branch 0 0x2C "brfalse.s" .shortTarget 1, .branch 4⟩,
      ⟨2, 2, .branch 0 0x2B "br.s" .shortTarget 0, .branch 0⟩,
      ⟨4, 9, ⟨0, 0x45, "switch", .switch, .branch, .switch, .fixed 1 0⟩,
        .table [0]⟩,
      ⟨13, 1, ⟨0, 0x2A, "ret", .none, .other, .return, .unknown⟩,
        .plain .none⟩] := by cbv
  refine decode_eq_ok_iff.2 ⟨by decide, rfl, _, scan_eq_ok_iff.1 hscan, ?_⟩
  refine .cons ⟨rfl, rfl, rfl, .branch ⟨_, rfl, rfl⟩⟩ ?_
  refine .cons ⟨rfl, rfl, rfl, .branch ⟨_, rfl, rfl⟩⟩ ?_
  refine .cons ⟨rfl, rfl, rfl, .table (.cons ⟨_, rfl, rfl⟩ .nil)⟩ ?_
  exact .cons ⟨rfl, rfl, rfl, .plain _⟩ .nil

theorem decoded_body_stands_loopCode :
    Body.decode (.ofLists [] []) #[] loopCode = .ok loopBody ∧
      Tiles 0 14 (loopBody.code.toList.map Instruction.extent) ∧
      (∀ i ∈ loopBody.code, i.StandsIn loopBody loopCode) ∧
      loopBody.isJoinPoint 2 = true := by
  obtain ⟨-, htiles, hstands, hjoin⟩ :=
    decoded_body_stands (.ofLists [] []) #[] loopCode loopBody decode_loopCode
  refine ⟨decode_loopCode, htiles, hstands, (hjoin 2).2 ?_⟩
  exact ⟨_, Array.mem_of_getElem? (show loopBody.code[0]? = some _ from rfl), 2,
    by decide, _, rfl, rfl⟩

end CilAudit.Code
