import CilAudit.Proofs.DecodedBody

/-!
# Code behind code

A displacement is counted from the end of its branch, so the bytes of an
instruction do not say where they stand. What they decode to does: offsets are
counted from the first byte of the code and branch operands from its first
instruction. When code is put behind other code, `bytes` further on and
`places` instructions further on, both have to grow by as much, and that is all
that happens to an instruction (`Instruction.moved`).

The proof follows the two steps of decoding. A scan of the second code is the
scan it was, with offsets and references moved (`Scans.moved`), and it goes on
where the scan of the first code ends (`Scans.append`). The table of starts is
then the first table with the moved second one behind it, so what a reference
led to before, it leads to again.
-/

namespace CilAudit.Code

/-! ## Moving -/

def Operand.moved (places : Nat) : Operand → Operand
  | .target index => .target (places + index)
  | .switch indices => .switch (indices.map (places + ·))
  | operand => operand

/-- The instruction as it stands in code that was put behind other code: its
offset moves by the bytes in front, and its targets by the instructions. -/
def Instruction.moved (bytes places : Nat) (i : Instruction) : Instruction :=
  { i with offset := i.offset + bytes, operand := i.operand.moved places }

def Unlinked.moved (bytes : Nat) : Unlinked Int → Unlinked Int
  | .plain operand => .plain operand
  | .branch ref => .branch (ref + bytes)
  | .table refs => .table (refs.map (· + (bytes : Int)))

def Draft.moved (bytes : Nat) (d : Draft Int) : Draft Int :=
  { d with offset := d.offset + bytes, operand := d.operand.moved bytes }

theorem Operand.moved_of_isInline {operand : Operand}
    (h : operand.isInline = true)
    (places : Nat) : operand.moved places = operand := by
  cases operand
  case target | switch => cases h
  all_goals rfl

/-! ## Scanning -/

section

variable {symbols : Symbols} {op : Opcode} {front bs bs' : List UInt8}
  {d : Draft Int} {ds ds' : List (Draft Int)} {offset stop : Nat}

theorem Spelled.moved {u : Unlinked Int} (h : Spelled symbols op stop front u)
    (bytes : Nat) :
    Spelled symbols op (stop + bytes) front (u.moved bytes) := by
  have href (displacement : Int) :
      (stop : Int) + displacement + bytes =
        ((stop + bytes : Nat) : Int) + displacement := by omega
  cases h with
  | plain hsize hinline => exact .plain hsize hinline
  | branch hsize hlayout =>
      rw [Unlinked.moved, href]
      exact .branch hsize hlayout
  | table hlayout hcount hwords hlen =>
      simp only [Unlinked.moved, List.map_map, Function.comp_def, href]
      exact .table hlayout hcount hwords hlen

theorem Spells.moved (h : Spells symbols front d) {bytes : Nat}
    (hle : d.offset + bytes ≤ maxOffset) :
    Spells symbols front (d.moved bytes) := by
  obtain ⟨tail, hfront, hspelled⟩ := h.operand
  refine ⟨h.row, h.size, hle, h.size_le, tail, hfront, ?_⟩
  show Spelled symbols d.op (d.offset + bytes + d.size) tail
    (d.operand.moved bytes)
  rw [show d.offset + bytes + d.size = d.offset + d.size + bytes by omega]
  exact hspelled.moved bytes

theorem Scans.moved (h : Scans symbols offset bs ds) {bytes : Nat}
    (hle : offset + bs.length + bytes ≤ maxOffset) :
    Scans symbols (offset + bytes) bs (ds.map (Draft.moved bytes)) := by
  induction ds generalizing offset bs with
  | nil => exact h
  | cons d ds ih =>
      obtain ⟨rfl, front, rest, rfl, hd, hs⟩ := h
      have hsize := hd.size
      rw [List.length_append] at hle
      refine ⟨rfl, front, rest, rfl, hd.moved (by omega), ?_⟩
      show Scans symbols (d.offset + bytes + d.size) rest
        (ds.map (Draft.moved bytes))
      rw [show d.offset + bytes + d.size = d.offset + d.size + bytes by omega]
      exact ih hs (by omega)

theorem Scans.append (h : Scans symbols offset bs ds)
    (h' : Scans symbols (offset + bs.length) bs' ds') :
    Scans symbols offset (bs ++ bs') (ds ++ ds') := by
  induction ds generalizing offset bs with
  | nil =>
      rw [Scans] at h
      subst h
      exact h'
  | cons d ds ih =>
      obtain ⟨rfl, front, rest, rfl, hd, hs⟩ := h
      rw [List.length_append, ← Nat.add_assoc, ← hd.size] at h'
      exact ⟨rfl, front, rest ++ bs', List.append_assoc .., hd, ih hs h'⟩

end

/-! ## Linking -/

section

variable {symbols : Symbols} {leads leads' : Int → Nat → Prop}
  {ds : List (Draft Int)} {code : List Instruction}

theorem Unlinked.Links.mono {u : Unlinked Int} {operand : Operand}
    (h : u.Links leads operand)
    (hleads : ∀ ref index, leads ref index → leads' ref index) :
    u.Links leads' operand := by
  cases h with
  | plain operand => exact .plain operand
  | branch hindex => exact .branch (hleads _ _ hindex)
  | table hindices => exact .table (hindices.imp hleads)

/-- What was read as a plain operand names no targets, so there is nothing in
it to move. Displacements are relative, so the bytes of a branch are the same
wherever it stands. -/
theorem Spelled.links_moved {op : Opcode} {stop : Nat} {tail : List UInt8}
    {u : Unlinked Int}
    {operand : Operand} {bytes places : Nat}
    (hs : Spelled symbols op stop tail u) (hl : u.Links leads operand)
    (hleads : ∀ ref index, leads ref index →
      leads' (ref + bytes) (places + index)) :
    (u.moved bytes).Links leads' (operand.moved places) := by
  cases hs with
  | plain hsize hinline =>
      obtain rfl := hl.of_plain
      rw [Operand.moved_of_isInline (Opcode.isInline_of_inline? hinline)]
      exact .plain _
  | branch hsize hlayout =>
      obtain ⟨index, rfl, hindex⟩ := hl.of_branch
      exact .branch (hleads _ _ hindex)
  | table hlayout hcount hwords hlen =>
      obtain ⟨indices, rfl, hindices⟩ := hl.of_table
      refine .table ?_
      rw [List.forall₂_map_left_iff, List.forall₂_map_right_iff]
      exact hindices.imp hleads

theorem Scans.linked_moved {offset bytes places : Nat} {bs : List UInt8}
    (hs : Scans symbols offset bs ds)
    (hlinked : List.Forall₂ (Draft.Linked leads) ds code)
    (hleads : ∀ ref index, leads ref index →
      leads' (ref + bytes) (places + index)) :
    List.Forall₂ (Draft.Linked leads') (ds.map (Draft.moved bytes))
      (code.map (Instruction.moved bytes places)) := by
  induction hlinked generalizing offset bs with
  | nil => exact .nil
  | @cons d i ds code hlink _ ih =>
      obtain ⟨-, front, rest, -, hd, hs⟩ := hs
      obtain ⟨tail, -, hspelled⟩ := hd.operand
      refine .cons ⟨?_, hlink.size, hlink.op,
        hspelled.links_moved hlink.operand hleads⟩ (ih hs)
      show i.offset + bytes = d.offset + bytes
      rw [hlink.offset]

end

/-! ## Starts -/

section

variable {extents extents' : List (Nat × Nat)} {ref : Int} {index : Nat}

theorem Lands.append (h : Lands extents ref index) :
    Lands (extents ++ extents') ref index := by
  obtain ⟨piece, hpiece, href⟩ := h
  have hlt := (List.getElem?_eq_some_iff.1 hpiece).1
  exact ⟨piece, by rw [List.getElem?_append_left hlt, hpiece], href⟩

theorem Lands.behind {bytes : Nat} (h : Lands extents' ref index) :
    Lands (extents ++ extents'.map fun p => (p.1 + bytes, p.2)) (ref + bytes)
      (extents.length + index) := by
  obtain ⟨piece, hpiece, href⟩ := h
  refine ⟨(piece.1 + bytes, piece.2), ?_, by simp [← href]⟩
  rw [List.getElem?_append_right (by omega), Nat.add_sub_cancel_left,
    List.getElem?_map, hpiece]
  rfl

theorem map_extent_moved (bytes : Nat) (ds : List (Draft Int)) :
    (ds.map (Draft.moved bytes)).map Draft.extent =
      (ds.map Draft.extent).map fun p => (p.1 + bytes, p.2) := by
  simp [Function.comp_def, Draft.extent, Draft.moved]

end

/-- Decoding takes code one after the other to instructions one after the
other. What the second code decodes to follows what the first one does, with
every offset as many bytes and every branch as many instructions further on as
the first has. -/
theorem decoded_code_concatenates (symbols : Symbols)
    (locals locals₁ locals₂ : Array LocalSlot)
    (code₁ code₂ : List UInt8) (body₁ body₂ : Body)
    (hlen : code₁.length + code₂.length ≤ maxOffset)
    (h₁ : Body.decode symbols locals₁ code₁ = .ok body₁)
    (h₂ : Body.decode symbols locals₂ code₂ = .ok body₂) :
    Body.decode symbols locals (code₁ ++ code₂) =
      .ok ⟨body₁.code ++ body₂.code.map
        (Instruction.moved code₁.length body₁.size), locals⟩ := by
  obtain ⟨hne, -, ds₁, hs₁, hlinked₁⟩ := decode_eq_ok_iff.1 h₁
  obtain ⟨-, -, ds₂, hs₂, hlinked₂⟩ := decode_eq_ok_iff.1 h₂
  have hsize : body₁.size = (ds₁.map Draft.extent).length := by
    rw [List.length_map, hlinked₁.length_eq, Array.length_toList, Body.size]
  have hscan : Scans symbols 0 (code₁ ++ code₂)
      (ds₁ ++ ds₂.map (Draft.moved code₁.length)) :=
    hs₁.append (hs₂.moved (by omega))
  refine decode_eq_ok_iff.2 ⟨fun h => hne (List.append_eq_nil_iff.1 h).1, rfl,
    _, hscan, ?_⟩
  simp only [List.map_append, map_extent_moved, Array.toList_append,
    Array.toList_map]
  refine List.rel_append ?_
    (hs₂.linked_moved hlinked₂ fun ref index hlands => ?_)
  · refine hlinked₁.imp fun d i hlink => ?_
    exact ⟨hlink.offset, hlink.size, hlink.op, hlink.operand.mono fun _ _ =>
      Lands.append⟩
  · rw [hsize]
    exact hlands.behind

/-- A loop behind a loop: the branches of the second stay within it. -/
theorem decoded_code_concatenates_loopCode :
    Body.decode (.ofLists [] []) #[] loopCode = .ok loopBody ∧
      ∃ body, Body.decode (.ofLists [] []) #[] (loopCode ++ loopCode) =
        .ok body ∧
        body.code.toList.map Instruction.offset =
          [0, 2, 4, 13, 14, 16, 18, 27] ∧
        body.code.toList.map Instruction.targets =
          [[2], [0], [0], [], [6], [4], [4], []] := by
  have hboth := decoded_code_concatenates (.ofLists [] []) #[] #[] #[] loopCode
    loopCode loopBody loopBody (by decide) decode_loopCode decode_loopCode
  exact ⟨decode_loopCode, _, hboth, by decide +kernel, by decide +kernel⟩

end CilAudit.Code
