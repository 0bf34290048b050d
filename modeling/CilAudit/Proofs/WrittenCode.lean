import CilAudit.Proofs.Reencoding
import Mathlib.Algebra.Ring.Nat

/-!
# Decoding written code

`Body.encode` writes any body, whether or not a decoder could read it back. A
body is read back when each of its instructions has an operand that its opcode
can carry (`Opcode.Carries`), takes as many bytes as are written for it, and
stands where the one before it ends. What an opcode can carry inline is decided
by the number alone: it has to be read as the operand that it was written for.

The bound on the size of the code is there for the displacements. A word
reaches half its span to either side, so in code shorter than that every way
between two instructions fits.
-/

namespace CilAudit

namespace LittleEndian

/-- A word spells the number it was written for, if the number is within half
the span. Displacements are, because code is shorter than that. -/
theorem signed_signedBytes {width : Nat} {n : Int} (hlow : -span width ≤ 2 * n)
    (hhigh : 2 * n < span width) : signed (signedBytes width n) = n := by
  have hspan : (0 : Int) < span width := by omega
  have hlt : (n % span width).toNat < span width := by
    have := Int.emod_lt_of_pos n hspan
    omega
  have hnat : ((n % span width).toNat : Int) = n % span width :=
    Int.toNat_of_nonneg (Int.emod_nonneg n (by omega))
  rw [signed, signedBytes, length_bytes, value_bytes_of_lt hlt, hnat,
    Int.emod_bmod]
  exact Int.bmod_eq_of_le (by omega) (by omega)

end LittleEndian

namespace Code

open LittleEndian (span signed signedBytes)

/-- What an opcode can carry in a body of `count` instructions, so that it is
read back: an inline operand that its number leads back to, or targets that are
in the body. -/
inductive Opcode.Carries (symbols : Symbols) (names : Naming) (count : Nat)
    (op : Opcode) :
    Operand → Prop
  | inline {operand : Operand} {width : Nat} :
      op.layout.size? = some width →
        op.inline? symbols (operand.number names % span width) = some operand →
          Carries symbols names count op operand
  | branch {index : Nat} :
      op.layout = .target → index < count →
      Carries symbols names count op (.target index)
  | table {indices : List Nat} :
      op.layout = .switch → (∀ index ∈ indices, index < count) →
        Carries symbols names count op (.switch indices)

/-- An instruction of a body that is read back from what is written for it,
given that the instructions fill the code. -/
structure Body.Writes (symbols : Symbols) (names : Naming) (b : Body)
    (i : Instruction) :
    Prop where
  row : Opcode.lookup? i.op.lead i.op.code = some i.op
  size : i.size = (b.instructionBytes names i).length
  operand : i.op.Carries symbols names b.size i.operand

/-- An instruction with each of its targets replaced by the byte offset it
leads to. This is the draft that scanning its bytes gives. -/
def Body.draft (b : Body) (i : Instruction) : Draft Int where
  offset := i.offset
  size := i.size
  op := i.op
  operand :=
    match i.operand with
    | .target index =>
        .branch ((i.offset + i.size : Nat) + b.displacement i index)
    | .switch indices =>
      .table (indices.map fun index => (i.offset + i.size : Nat) +
        b.displacement i index)
    | operand => .plain operand

section

variable {symbols : Symbols} {names : Naming} {b : Body} {i : Instruction}

theorem Body.draft_operand_of_isInline (h : i.operand.isInline = true) :
    (b.draft i).operand = .plain i.operand := by
  unfold draft
  dsimp only
  split
  · next ho => rw [ho] at h; cases h
  · next ho => rw [ho] at h; cases h
  · rfl

theorem Body.lands_displacement {index : Nat} (h : index < b.size) :
    Lands (b.code.toList.map Instruction.extent)
      ((i.offset + i.size : Nat) + b.displacement i index) index := by
  have hj : b.get? index = some b.code[index] := Array.getElem?_eq_getElem h
  rw [← b.leadsTo_iff_lands]
  refine ⟨_, hj, ?_⟩
  rw [displacement, hj, Option.elim_some]
  omega

/-- Every target stands where the displacement to it leads. -/
theorem Body.linked_draft (h : i.op.Carries symbols names b.size i.operand) :
    (b.draft i).Linked (Lands (b.code.toList.map Instruction.extent)) i := by
  refine ⟨rfl, rfl, rfl, ?_⟩
  generalize ho : i.operand = operand at h ⊢
  cases h with
  | inline _ hinline =>
      have hplain : i.operand.isInline = true := by
        rw [ho]
        exact Opcode.isInline_of_inline? hinline
      rw [draft_operand_of_isInline hplain, ho]
      exact .plain _
  | branch _ hlt =>
      rw [draft, ho]
      exact .branch (lands_displacement hlt)
  | table _ hlt =>
      rw [draft, ho]
      refine .table (List.forall₂_map_left_iff.2
        (List.forall₂_same.2 fun index hindex => ?_))
      exact lands_displacement (hlt index hindex)

theorem Body.end_le {stop : Nat}
    (htiles : Tiles 0 stop (b.code.toList.map Instruction.extent))
    (hi : i ∈ b.code) : i.offset + i.size ≤ stop :=
  (htiles.le (List.mem_map_of_mem (Array.mem_toList_iff.2 hi))).2

/-- Both ends of a way lie in the code, so a word holds it. This is what the
bound on the size of the code is for. -/
theorem Body.signed_displacement {stop index : Nat}
    (htiles : Tiles 0 stop (b.code.toList.map Instruction.extent))
    (hstop : stop < 2 ^ 31) (hi : i ∈ b.code) (hindex : index < b.size) :
    signed (signedBytes 4 (b.displacement i index)) =
      b.displacement i index := by
  have hj : b.get? index = some b.code[index] :=
    Array.getElem?_eq_getElem hindex
  have hfrom := end_le htiles hi
  have hto := end_le htiles (Array.getElem_mem hindex)
  have hspan : span 4 = 2 ^ 32 := rfl
  rw [LittleEndian.signed_signedBytes] <;>
    rw [displacement, hj, Option.elim_some, hspan] <;> omega

/-! ## What is written for an operand spells it -/

theorem Body.spelled_inline {width : Nat}
    (hsize : i.op.layout.size? = some width)
    (hinline : i.op.inline? symbols (i.operand.number names % span width) =
      some i.operand) :
    Spelled symbols i.op (i.offset + i.size) (b.operandBytes names i)
      (b.draft i).operand := by
  have hplain := Opcode.isInline_of_inline? hinline
  have hword : b.operandBytes names i =
      LittleEndian.bytes width (i.operand.number names) := by
    rw [operandBytes_of_isInline hplain, Layout.width, hsize, Option.getD_some]
  rw [draft_operand_of_isInline hplain, hword]
  refine .plain (by rw [LittleEndian.length_bytes, hsize]) ?_
  rw [LittleEndian.value_bytes, hinline]

theorem Body.spelled_branch {index : Nat} (ho : i.operand = .target index)
    (hlayout : i.op.layout = .target)
    (hsigned : signed (signedBytes 4 (b.displacement i index)) =
      b.displacement i index) :
    Spelled symbols i.op (i.offset + i.size) (b.operandBytes names i)
      (b.draft i).operand := by
  have hword : b.operandBytes names i =
      signedBytes 4 (b.displacement i index) := by
    rw [operandBytes, ho, hlayout]
    rfl
  have hspelled : Spelled symbols i.op (i.offset + i.size)
      (b.operandBytes names i)
        (.branch ((i.offset + i.size : Nat) +
          signed (b.operandBytes names i))) :=
    .branch (by rw [hlayout, hword, LittleEndian.length_signedBytes]; rfl)
      (.inr hlayout)
  rw [draft, ho]
  rwa [hword, hsigned, ← hword] at hspelled

def Body.targetWords (b : Body) (i : Instruction) (indices : List Nat) :
    List (List UInt8) :=
  indices.map fun index => signedBytes 4 (b.displacement i index)

theorem Body.length_of_mem_targetWords {indices : List Nat} {w : List UInt8}
    (h : w ∈ b.targetWords i indices) : w.length = 4 := by
  obtain ⟨index, -, rfl⟩ := List.mem_map.1 h
  exact LittleEndian.length_signedBytes ..

theorem Body.operandBytes_of_table {indices : List Nat}
    (ho : i.operand = .switch indices) :
    b.operandBytes names i =
      LittleEndian.bytes 4 indices.length ++
        (b.targetWords i indices).flatten := by
  rw [operandBytes, ho]
  exact congrArg (_ ++ ·) (List.flatMap_def ..)

theorem Body.length_operandBytes_of_table {indices : List Nat}
    (ho : i.operand = .switch indices) :
    (b.operandBytes names i).length = 4 + 4 * indices.length := by
  rw [operandBytes_of_table ho, List.length_append, LittleEndian.length_bytes,
    length_flatten_words fun _ => length_of_mem_targetWords, targetWords,
      List.length_map]

theorem Body.spelled_table {indices : List Nat}
    (ho : i.operand = .switch indices)
    (hlayout : i.op.layout = .switch) (hcount : indices.length < span 4)
    (hsigned : ∀ index ∈ indices,
      signed (signedBytes 4 (b.displacement i index)) =
        b.displacement i index) :
    Spelled symbols i.op (i.offset + i.size) (b.operandBytes names i)
      (b.draft i).operand := by
  have hrefs : (b.draft i).operand =
      .table ((b.targetWords i indices).map fun w => (i.offset + i.size : Nat) +
        signed w) := by
    rw [draft, ho, targetWords, List.map_map]
    refine congrArg Unlinked.table (List.map_congr_left fun index hindex => ?_)
    rw [Function.comp_apply, hsigned index hindex]
  rw [operandBytes_of_table ho, hrefs]
  refine .table hlayout (LittleEndian.length_bytes ..) ?_ fun _ =>
    length_of_mem_targetWords
  rw [LittleEndian.value_bytes_of_lt hcount, targetWords, List.length_map]

theorem Body.spelled_operand {stop : Nat}
    (htiles : Tiles 0 stop (b.code.toList.map Instruction.extent))
    (hstop : stop < 2 ^ 31) (hi : i ∈ b.code) (h : b.Writes symbols names i) :
    Spelled symbols i.op (i.offset + i.size) (b.operandBytes names i)
      (b.draft i).operand := by
  have hsigned {index : Nat} (hindex : index < b.size) :=
    signed_displacement htiles hstop hi hindex
  have hcarries := h.operand
  generalize ho : i.operand = operand at hcarries
  cases hcarries with
  | inline hsize hinline => exact spelled_inline hsize (ho ▸ hinline)
  | branch hlayout hlt => exact spelled_branch ho hlayout (hsigned hlt)
  | @table indices hlayout hlt =>
      -- A longer table would not have its count in a word, but it would not
      -- fit in the code either.
      have hcount : indices.length < 2 ^ 32 := by
        have hsize := h.size
        have hend := end_le htiles hi
        rw [instructionBytes, List.length_append,
          length_operandBytes_of_table ho] at hsize
        omega
      exact spelled_table ho hlayout hcount fun index hindex =>
        hsigned (hlt index hindex)

/-! ## Whole bodies -/

theorem Body.spells_draft {stop : Nat}
    (htiles : Tiles 0 stop (b.code.toList.map Instruction.extent))
    (hstop : stop < 2 ^ 31) (hi : i ∈ b.code) (h : b.Writes symbols names i) :
    Spells symbols (b.instructionBytes names i) (b.draft i) := by
  have hend := end_le htiles hi
  have hmax : 2 ^ 31 ≤ maxOffset := by decide
  exact {
    row := h.row
    size := h.size
    offset_le := show i.offset ≤ maxOffset by omega
    size_le := show i.size ≤ maxOffset by omega
    operand := ⟨_, rfl, spelled_operand htiles hstop hi h⟩ }

theorem Body.scans_draft {start stop : Nat} {code : List Instruction}
    (hspells : ∀ i ∈ code,
      Spells symbols (b.instructionBytes names i) (b.draft i))
    (htiles : Tiles start stop (code.map Instruction.extent)) :
    Scans symbols start (code.flatMap (b.instructionBytes names))
      (code.map b.draft) := by
  induction code generalizing start with
  | nil => rfl
  | cons i code ih =>
      obtain ⟨hi, hcode⟩ := List.forall_mem_cons.1 hspells
      obtain ⟨hoffset, -, hrest⟩ := htiles
      exact ⟨hoffset, _, _, rfl, hi, ih hcode hrest⟩

end

/-- Written code is decoded to the body it was written from. The instructions
have to fill the code, which an assembled body does and any other may. -/
theorem decode_encode {symbols : Symbols} {names : Naming} {b : Body}
    (hne : b.code ≠ #[])
    (htiles : Tiles 0 (b.encode names).length
      (b.code.toList.map Instruction.extent))
    (hlen : (b.encode names).length < 2 ^ 31)
    (h : ∀ i ∈ b.code, b.Writes symbols names i) :
    Body.decode symbols b.locals (b.encode names) = .ok b := by
  have hspells : ∀ i ∈ b.code.toList,
      Spells symbols (b.instructionBytes names i) (b.draft i) := by
    intro i hi
    have hmem := Array.mem_toList_iff.1 hi
    exact b.spells_draft htiles hlen hmem (h i hmem)
  have hextents : (b.code.toList.map b.draft).map Draft.extent =
      b.code.toList.map Instruction.extent := List.map_map ..
  refine decode_eq_ok_iff.2 ⟨?_, rfl, b.code.toList.map b.draft,
    b.scans_draft hspells htiles, ?_⟩
  · intro hempty
    obtain ⟨i, hi⟩ :=
      List.exists_mem_of_ne_nil _ (mt Array.toList_eq_nil_iff.1 hne)
    exact i.op.bytes_ne_nil
      (List.append_eq_nil_iff.1 (List.flatMap_eq_nil_iff.1 hempty i hi)).1
  · rw [hextents, List.forall₂_map_left_iff]
    exact List.forall₂_same.2 fun i hi =>
      b.linked_draft (h i (Array.mem_toList_iff.1 hi)).operand

end Code

end CilAudit
