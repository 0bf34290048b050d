import CilAudit.Proofs.DecodedBody

/-!
# Why code is refused

Code that does not decode is refused for one of three reasons, and which of
them it is can be said without a decoder. From its front, code is cut into
pieces, each an assigned opcode with the bytes of its operand (`Piece`). The
cutting stops before an opcode that is not assigned, or before an instruction
that the code ends in, or it comes to the end. Only at the end do branches
matter: a displacement that leads to no start of a piece is a stray one, and
the first of them is reported.

The three are exclusive because each decides what the decoder does, and they
are all there is because cutting always stops in one of the three ways
(`cut_cases`).
-/

namespace CilAudit

def fault? {α : Type} : Except Fault α → Option Fault
  | .ok _ => none
  | .error fault => some fault

namespace Code

open LittleEndian (value signed)

/-! ## Linking stops at the first fault -/

section

variable {α β τ : Type}

theorem fault?_eq_none_iff {x : Except Fault α} :
    fault? x = none ↔ ∃ a, x = .ok a := by
  cases x <;> simp [fault?]

theorem fault?_eq_some_iff {x : Except Fault α} {fault : Fault} :
    fault? x = some fault ↔ x = .error fault := by
  cases x <;> simp [fault?]

@[simp] theorem fault?_bind_pure (x : Except Fault α) (f : α → β) :
    fault? (x >>= fun a => pure (f a)) = fault? x := by
  cases x <;> rfl

theorem fault?_mapM (f : α → Except Fault β) (xs : List α) :
    fault? (xs.mapM f) = xs.findSome? fun x => fault? (f x) := by
  induction xs with
  | nil => rfl
  | cons x xs ih =>
      rw [List.mapM_cons, List.findSome?_cons, ← ih]
      cases f x with
      | error fault => rfl
      | ok y => exact fault?_bind_pure (xs.mapM f) (y :: ·)

theorem Unlinked.fault?_link (resolve : τ → Except Fault Nat) (u : Unlinked τ) :
    fault? (u.link resolve) = u.refs.findSome? fun ref =>
      fault? (resolve ref) := by
  cases u with
  | plain operand => rfl
  | branch ref =>
      rw [link, fault?_bind_pure, refs, List.findSome?_singleton]
  | table refs => rw [link, fault?_bind_pure, fault?_mapM, Unlinked.refs]

/-- All references of instructions in order, with the index of the one that
refers. Linking resolves them in this order, so the first that leads nowhere is
the one that is reported. -/
def references : Nat → List (Draft τ) → List (Nat × τ)
  | _, [] => []
  | index, d :: ds => d.operand.refs.map (index, ·) ++ references (index + 1) ds

theorem fault?_foldlM_link (resolve : Nat → τ → Except Fault Nat)
    (ds : List (Draft τ)) (done : Array Instruction) :
    fault? (ds.foldlM (fun code d =>
      return code.push (← d.link (resolve code.size))) done) =
      (references done.size ds).findSome? fun (index, ref) =>
        fault? (resolve index ref) := by
  induction ds generalizing done with
  | nil => rfl
  | cons d ds ih =>
      have hone : fault? (d.link (resolve done.size)) =
          (d.operand.refs.map (done.size, ·)).findSome?
            fun (index, ref) => fault? (resolve index ref) := by
        rw [Draft.link, fault?_bind_pure, Unlinked.fault?_link,
          List.findSome?_map]
        rfl
      rw [List.foldlM_cons, references, List.findSome?_append, ← hone]
      cases hlink : d.link (resolve done.size) with
      | error fault => rfl
      | ok i =>
          have hrest := ih (done.push i)
          rw [Array.size_push] at hrest
          exact hrest

theorem fault?_linkAll (resolve : Nat → τ → Except Fault Nat)
    (drafts : Array (Draft τ)) :
    fault? (linkAll resolve drafts) =
      (references 0 drafts.toList).findSome? fun (index, ref) =>
        fault? (resolve index ref) := by
  rw [linkAll, ← Array.foldlM_toList, fault?_foldlM_link]
  rfl

end

/-! ## Pieces of code -/

/-- How many bytes the operand of an opcode takes, told by the bytes behind the
opcode. Only a switch table needs to be asked: its count says how long it is.
-/
def Opcode.operandSize (op : Opcode) (behind : List UInt8) : Nat :=
  op.layout.width (value (behind.take 4))

/-- An assigned opcode with the bytes of its operand, as many as it asks for.
Code is cut into such pieces without regard to what the operands mean. -/
structure Piece where
  op : Opcode
  tail : List UInt8
  row : Opcode.lookup? op.lead op.code = some op
  fits : tail.length = op.operandSize tail

namespace Piece

def bytes (p : Piece) : List UInt8 := p.op.bytes ++ p.tail

def size (p : Piece) : Nat := p.bytes.length

/-- The offsets that a piece goes to, if it ends at `stop`. -/
def targets (p : Piece) (stop : Nat) : List Int :=
  (p.op.layout.displacements p.tail).map (stop + ·)

end Piece

def codeOf (ps : List Piece) : List UInt8 := ps.flatMap Piece.bytes

/-- The offsets at which pieces start, the first of them at `offset`. -/
def starts : Nat → List Piece → List Int
  | _, [] => []
  | offset, p :: ps => offset :: starts (offset + p.size) ps

/-- All offsets that pieces go to, in order, with the index of the piece. -/
def branches : (index offset : Nat) → List Piece → List (Nat × Int)
  | _, _, [] => []
  | index, offset, p :: ps =>
    (p.targets (offset + p.size)).map (index, ·) ++ branches (index + 1)
      (offset + p.size) ps

/-- The branches that lead to no start, in order. Code without any is accepted.
-/
def strays (ps : List Piece) : List (Nat × Int) :=
  (branches 0 0 ps).filter fun b => b.2 ∉ starts 0 ps

/-- The opcode `lead code` stands in front of code. -/
inductive OpcodeFirst : (lead code : UInt8) → (behind bytes : List UInt8) → Prop
  | short {code : UInt8} {behind : List UInt8} :
      code ≠ Opcode.twoByteLead → OpcodeFirst 0 code behind (code :: behind)
  | long {code : UInt8} {behind : List UInt8} :
      OpcodeFirst Opcode.twoByteLead code behind
        (Opcode.twoByteLead :: code :: behind)

/-- Code ends within its first instruction: behind a lead byte, or before its
operand is all there. -/
inductive CutOff : List UInt8 → Prop
  | opcode : CutOff [Opcode.twoByteLead]
  | operand {op : Opcode} {behind bytes : List UInt8} :
      OpcodeFirst op.lead op.code behind bytes →
      Opcode.lookup? op.lead op.code = some op →
        behind.length < op.operandSize behind → CutOff bytes

/-- Why code is refused: behind a row of pieces stands an opcode that is not
assigned, or an instruction that is not all there, or the pieces are all the
code and the first stray branch is this one. -/
inductive Refused : List UInt8 → Fault → Prop
  | unassigned {ps : List Piece} {lead code : UInt8}
      {behind rest : List UInt8} :
      OpcodeFirst lead code behind rest → Opcode.lookup? lead code = none →
        Refused (codeOf ps ++ rest)
          (.malformed (.unassignedAt lead code (codeOf ps).length))
  | cutOff {ps : List Piece} {rest : List UInt8} :
      CutOff rest → Refused (codeOf ps ++ rest) .outOfBounds
  | stray {ps : List Piece} {index : Nat} {target : Int} :
      (strays ps).head? = some (index, target) →
        Refused (codeOf ps) (.malformed (.strayBranch index target))

/-- Code is a row of pieces whose branches all lead to starts. Nothing in this
speaks of decoding. -/
def IsCode (bytes : List UInt8) : Prop :=
  ∃ ps, bytes = codeOf ps ∧ strays ps = []

/-! ## Where cutting stops -/

theorem Opcode.operandSize_of_size? {op : Opcode} {width : Nat}
    (h : op.layout.size? = some width)
    (behind : List UInt8) : op.operandSize behind = width := by
  rw [operandSize, Layout.width, h, Option.getD_some]

theorem Opcode.operandSize_of_switch {op : Opcode} (h : op.layout = .switch)
    (behind : List UInt8) :
    op.operandSize behind = 4 + 4 * value (behind.take 4) := by
  rw [operandSize, Layout.width, h]
  rfl

/-- The size of an operand can be told from the operand alone, so a piece need
not know what stands behind it. -/
theorem Opcode.operandSize_take (op : Opcode) (behind : List UInt8) :
    op.operandSize (behind.take (op.operandSize behind)) =
      op.operandSize behind := by
  cases hsize : op.layout.size? with
  | some width => rw [operandSize_of_size? hsize, operandSize_of_size? hsize]
  | none =>
      have hlayout : op.layout = .switch := by
        cases hl : op.layout with
        | switch => rfl
        | _ => rw [hl] at hsize; cases hsize
      -- The count of a table is part of it.
      rw [operandSize_of_switch hlayout, operandSize_of_switch hlayout,
        List.take_take, Nat.min_eq_left (by omega)]

theorem OpcodeFirst.split {lead code : UInt8} {behind bs : List UInt8}
    (h : OpcodeFirst lead code behind bs) :
    splitOpcode? bs = some (lead, code, behind) := by
  cases h with
  | short hne => exact if_neg hne
  | long => rfl

theorem OpcodeFirst.ne_nil {lead code : UInt8} {behind bs : List UInt8}
    (h : OpcodeFirst lead code behind bs) : bs ≠ [] := by
  cases h <;> simp

theorem CutOff.ne_nil {bs : List UInt8} (h : CutOff bs) : bs ≠ [] := by
  cases h with
  | opcode => simp
  | operand hfirst => exact hfirst.ne_nil

theorem opcode_cases {bs : List UInt8} (hne : bs ≠ []) :
    bs = [Opcode.twoByteLead] ∨
      ∃ lead code behind, OpcodeFirst lead code behind bs := by
  cases bs with
  | nil => exact absurd rfl hne
  | cons b tail =>
      by_cases hb : b = Opcode.twoByteLead
      · subst hb
        cases tail with
        | nil => exact .inl rfl
        | cons code behind => exact .inr ⟨_, code, behind, .long⟩
      · exact .inr ⟨0, b, tail, .short hb⟩

/-- A piece stands in front, or an opcode that is not assigned, or the code is
cut off. -/
theorem front_cases {bs : List UInt8} (hne : bs ≠ []) :
    (∃ (p : Piece) (rest : List UInt8), bs = p.bytes ++ rest) ∨
      (∃ lead code behind, OpcodeFirst lead code behind bs ∧
        Opcode.lookup? lead code = none) ∨
      CutOff bs := by
  rcases opcode_cases hne with rfl | ⟨lead, code, behind, hfirst⟩
  · exact .inr (.inr .opcode)
  · cases hrow : Opcode.lookup? lead code with
    | none => exact .inr (.inl ⟨lead, code, behind, hfirst, hrow⟩)
    | some op =>
        obtain ⟨rfl, rfl⟩ := lookup?_bytes hrow
        rcases Nat.lt_or_ge behind.length (op.operandSize behind) with hlt | hle
        · exact .inr (.inr (.operand hfirst hrow hlt))
        · refine .inl ⟨⟨op, behind.take (op.operandSize behind), hrow, ?_⟩,
            behind.drop (op.operandSize behind), ?_⟩
          · rw [op.operandSize_take, List.length_take, Nat.min_eq_left hle]
          · rw [Piece.bytes, List.append_assoc, List.take_append_drop]
            exact (splitOpcode?_eq_some_iff hrow).1 hfirst.split

theorem codeOf_cons (p : Piece) (ps : List Piece) :
    codeOf (p :: ps) = p.bytes ++ codeOf ps :=
  List.flatMap_cons

theorem Piece.size_pos (p : Piece) : 0 < p.size := by
  rw [size, bytes, List.length_append, Opcode.length_bytes]
  exact Nat.add_pos_left p.op.length_pos _

/-- Cutting comes to the end of the code, to an opcode that is not assigned, or
to the last instruction of code that is cut off. By induction on the number of
bytes, a piece at a time. -/
theorem cut_cases (bs : List UInt8) :
    ∃ ps rest, bs = codeOf ps ++ rest ∧
      (rest = [] ∨
        (∃ lead code behind, OpcodeFirst lead code behind rest ∧
          Opcode.lookup? lead code = none) ∨
        CutOff rest) := by
  induction hlen : bs.length using Nat.strongRecOn generalizing bs with
  | ind n ih =>
      by_cases hne : bs = []
      · exact ⟨[], bs, rfl, .inl hne⟩
      · rcases front_cases hne with ⟨p, behind, rfl⟩ | hstop
        · have hlt : behind.length < n := by
            have := p.size_pos
            rw [List.length_append] at hlen
            rw [Piece.size] at this
            omega
          obtain ⟨ps, rest, rfl, hstop⟩ := ih behind.length hlt behind rfl
          exact ⟨p :: ps, rest, by rw [codeOf_cons, List.append_assoc], hstop⟩
        · exact ⟨[], bs, rfl, .inr hstop⟩

/-! ## Pieces are scanned -/

theorem exists_words {count : Nat} {bs : List UInt8}
    (h : bs.length = 4 * count) :
    ∃ words : List (List UInt8), words.length = count ∧
      (∀ w ∈ words, w.length = 4) ∧
      bs = words.flatten := by
  induction count generalizing bs with
  | zero => exact ⟨[], rfl, by simp, List.length_eq_zero_iff.1 h⟩
  | succ count ih =>
      obtain ⟨words, hcount, hwords, hrest⟩ :=
        ih (show (bs.drop 4).length = 4 * count by rw [List.length_drop]; omega)
      refine ⟨bs.take 4 :: words, by rw [List.length_cons, hcount], ?_, ?_⟩
      · refine List.forall_mem_cons.2 ⟨?_, hwords⟩
        rw [List.length_take]
        omega
      · rw [List.flatten_cons, ← hrest, List.take_append_drop]

variable {symbols : Symbols} {op : Opcode} {stop : Nat} {tail : List UInt8}
  {u : Unlinked Int}

theorem Spelled.operandSize_eq (h : Spelled symbols op stop tail u)
    (behind : List UInt8) :
    op.operandSize (tail ++ behind) = tail.length := by
  cases h with
  | plain hsize => rw [Opcode.operandSize_of_size? hsize]
  | branch hsize => rw [Opcode.operandSize_of_size? hsize]
  | table hlayout hcount hwords hlen =>
      rw [Opcode.operandSize_of_switch hlayout, List.append_assoc,
        List.take_left' hcount, hwords, List.length_append, hcount,
        length_flatten_words hlen]

theorem Spelled.refs_eq (h : Spelled symbols op stop tail u) :
    u.refs = (op.layout.displacements tail).map ((stop : Int) + ·) := by
  rw [← List.append_nil tail]
  cases h with
  | plain _ hinline =>
      rw [displacements_of_inline? hinline]
      rfl
  | branch hsize hlayout =>
      rw [displacements_of_branch hsize hlayout]
      rfl
  | table hlayout hcount hwords hlen =>
      rw [displacements_of_table hlayout hcount hwords hlen, List.map_map]
      rfl

/-- Bytes of the right number always spell an operand: there is nothing wrong
that an operand could say but where it branches to. -/
theorem exists_spelled (symbols : Symbols) (stop : Nat)
    (h : tail.length = op.operandSize tail) :
    ∃ u, Spelled symbols op stop tail u := by
  have hsize {width : Nat} (hwidth : op.layout.size? = some width) :
      op.layout.size? = some tail.length := by
    rw [h, Opcode.operandSize_of_size? hwidth, hwidth]
  cases hlayout : op.layout with
  | switch =>
      rw [Opcode.operandSize_of_switch hlayout] at h
      have hhead : (tail.take 4).length = 4 := by
        rw [List.length_take]
        omega
      obtain ⟨words, hcount, hwords, hrest⟩ := exists_words
        (show (tail.drop 4).length =
          4 * value (tail.take 4) by rw [List.length_drop]; omega)
      rw [← List.take_append_drop 4 tail, hrest]
      exact ⟨_, .table hlayout hhead hcount.symm hwords⟩
  | shortTarget =>
      exact ⟨_, .branch (hsize (by rw [hlayout]; rfl)) (.inl hlayout)⟩
  | target => exact ⟨_, .branch (hsize (by rw [hlayout]; rfl)) (.inr hlayout)⟩
  | _ =>
      exact ⟨_, .plain (hsize (by rw [hlayout]; rfl))
        (by rw [Opcode.inline?, hlayout])⟩

/-- A row of pieces is scanned, and what is scanned has the starts and the
branches of the row. -/
theorem scans_codeOf (symbols : Symbols) (ps : List Piece) (index offset : Nat)
    (hle : offset + (codeOf ps).length ≤ maxOffset) :
    ∃ ds, Scans symbols offset (codeOf ps) ds ∧
      ds.map (fun d => (d.offset : Int)) = starts offset ps ∧
      references index ds = branches index offset ps := by
  induction ps generalizing index offset with
  | nil => exact ⟨[], rfl, rfl, rfl⟩
  | cons p ps ih =>
      rw [codeOf_cons, List.length_append, ← Nat.add_assoc] at hle
      obtain ⟨ds, hscans, hstarts, hrefs⟩ :=
        ih (index + 1) (offset + p.size) hle
      obtain ⟨u, hu⟩ := exists_spelled symbols (offset + p.size) p.fits
      have hspells : Spells symbols p.bytes ⟨offset, p.size, p.op, u⟩ := by
        refine ⟨p.row, rfl, ?_, ?_, p.tail, rfl, hu⟩
        · show offset ≤ maxOffset
          omega
        · show p.bytes.length ≤ maxOffset
          omega
      refine ⟨⟨offset, p.size, p.op, u⟩ :: ds,
        ⟨rfl, p.bytes, codeOf ps, codeOf_cons p ps, hspells, hscans⟩, ?_, ?_⟩
      · rw [List.map_cons, hstarts, starts]
      · rw [references, hrefs, hu.refs_eq, branches, Piece.targets]

theorem scan_append {before : List UInt8} {ds : List (Draft Int)} {offset : Nat}
    (h : Scans symbols offset before ds) (rest : List UInt8)
    (done : Array (Draft Int)) :
    scan symbols offset (before ++ rest) done =
      scan symbols (offset + before.length) rest (done ++ ds.toArray) := by
  induction ds generalizing offset before done with
  | nil =>
      obtain rfl : before = [] := h
      simp
  | cons d ds ih =>
      obtain ⟨rfl, front, behind, rfl, hd, hs⟩ := h
      have hone : scanOne symbols d.offset (front ++ (behind ++ rest)) =
          .ok (d, behind ++ rest) := scanOne_eq_ok_iff.2 ⟨rfl, front, rfl, hd⟩
      have hfront : front ≠ [] := by
        have hpos := hd.size_pos
        rw [hd.size] at hpos
        exact List.ne_nil_of_length_pos hpos
      rw [List.append_assoc, scan, if_neg (by simp [hfront])]
      split
      · next fault hfault => rw [hone] at hfault; cases hfault
      · next found =>
          rw [hone, Except.ok.injEq, Prod.mk.injEq] at found
          obtain ⟨rfl, rfl⟩ := found
          rw [ih hs, hd.size, List.length_append, Nat.add_assoc]
          simp

/-- Behind a row of pieces, a scan fails as its next step does. -/
theorem scan_eq_error {ps : List Piece} {rest : List UInt8} {fault : Fault}
    (hle : (codeOf ps).length ≤ maxOffset) (hne : rest ≠ [])
    (hone : scanOne symbols (codeOf ps).length rest = .error fault) :
    scan symbols 0 (codeOf ps ++ rest) #[] = .error fault := by
  obtain ⟨ds, hscans, -⟩ := scans_codeOf symbols ps 0 0 (by omega)
  rw [scan_append hscans, Nat.zero_add, scan, if_neg (by simpa using hne)]
  split
  · next other hother => rw [Except.error.inj (hone.symm.trans hother)]
  · next found => rw [hone] at found; cases found

theorem scanOne_of_unassigned {lead code : UInt8} {behind rest : List UInt8}
    {offset : Nat}
    (hfirst : OpcodeFirst lead code behind rest)
    (hrow : Opcode.lookup? lead code = none) :
    scanOne symbols offset rest =
      .error (.malformed (.unassignedAt lead code offset)) := by
  rw [scanOne, hfirst.split]
  dsimp only
  rw [hrow]

theorem scanOne_of_cutOff {rest : List UInt8} {offset : Nat} (h : CutOff rest) :
    scanOne symbols offset rest = .error .outOfBounds := by
  cases h with
  | opcode => rfl
  | @operand op behind _ hfirst hrow hshort =>
      have hnone : scanOperand? symbols op (offset + op.length) behind =
          none := by
        cases hscan : scanOperand? symbols op (offset + op.length) behind with
        | none => rfl
        | some found =>
            -- What was read would have the size that the bytes fall short of.
            obtain ⟨front, rfl, hs⟩ := scanOperand?_eq_some_iff.1 hscan
            rw [hs.operandSize_eq, List.length_append] at hshort
            omega
      rw [scanOne, hfirst.split]
      dsimp only
      rw [hrow]
      dsimp only
      rw [hnone]

/-! ## Stray branches -/

theorem fault?_landing {drafts : Array (Draft Int)} {start finish : Nat}
    (h : Tiles start finish (drafts.toList.map Draft.extent)) (index : Nat)
    (target : Int) :
    fault? (landing (startIndex drafts) index target) =
      if target ∈ drafts.toList.map (fun d => (d.offset : Int)) then none
      else some (.malformed (.strayBranch index target)) := by
  split
  · next hmem =>
      obtain ⟨d, hd, hoffset⟩ := List.mem_map.1 hmem
      obtain ⟨place, hplace⟩ := List.mem_iff_getElem?.1 hd
      refine fault?_eq_none_iff.2
        ⟨place, (landing_eq_ok_iff h index target place).2 ?_⟩
      exact ⟨d.extent,
        by rw [List.getElem?_map, hplace, Option.map_some], hoffset⟩
  · next hmem =>
      cases hland : landing (startIndex drafts) index target with
      | ok place =>
          obtain ⟨piece, hpiece, hoffset⟩ :=
            (landing_eq_ok_iff h index target place).1 hland
          rw [List.getElem?_map, Option.map_eq_some_iff] at hpiece
          obtain ⟨d, hd, rfl⟩ := hpiece
          exact absurd (List.mem_map.2 ⟨d, List.mem_of_getElem? hd, hoffset⟩)
            hmem
      | error fault =>
          unfold landing at hland
          split at hland
          · cases hland
          · rw [fault?, Except.error.inj hland]

theorem findSome?_unless {α β : Type} (p : α → Prop) [DecidablePred p]
    (f : α → β) (xs : List α) :
    (xs.findSome? fun x => if p x then none else some (f x)) =
      (xs.filter fun x => ¬p x).head?.map f := by
  induction xs with
  | nil => rfl
  | cons x xs ih => by_cases hx : p x <;> simp [hx, ih]

/-- Code that is a row of pieces is refused for its first stray branch and
nothing else. -/
theorem fault?_decode_codeOf {ps : List Piece} (locals : Array LocalSlot)
    (hle : (codeOf ps).length ≤ maxOffset) (hne : codeOf ps ≠ []) :
    fault? (Body.decode symbols locals (codeOf ps)) =
      (strays ps).head?.map fun b => .malformed (.strayBranch b.1 b.2) := by
  obtain ⟨ds, hscans, hstarts, hrefs⟩ := scans_codeOf symbols ps 0 0 (by omega)
  have hscan : scan symbols 0 (codeOf ps) #[] = .ok ds.toArray :=
    scan_eq_ok_iff.2 hscans
  have hlink : fault? (linkAll (landing (startIndex ds.toArray)) ds.toArray) =
      (branches 0 0 ps).findSome? fun b =>
        if b.2 ∈ starts 0 ps then none
        else some (.malformed (.strayBranch b.1 b.2)) := by
    rw [fault?_linkAll, hrefs, ← hstarts]
    simp only [fault?_landing hscans.tiles]
  rw [Body.decode, if_neg (by simpa using hne), hscan]
  show fault? (linkAll _ ds.toArray >>= fun code => pure _) = _
  rw [fault?_bind_pure, hlink, findSome?_unless, strays]

theorem Refused.decode_eq {bytes : List UInt8} {fault : Fault}
    (locals : Array LocalSlot)
    (h : Refused bytes fault) (hle : bytes.length ≤ maxOffset)
    (hne : bytes ≠ []) :
    Body.decode symbols locals bytes = .error fault := by
  have hscan {ps : List Piece} {rest : List UInt8} {fault : Fault}
      (hle : (codeOf ps ++ rest).length ≤ maxOffset) (hrest : rest ≠ [])
      (hone : scanOne symbols (codeOf ps).length rest = .error fault) :
      Body.decode symbols locals (codeOf ps ++ rest) = .error fault := by
    rw [List.length_append] at hle
    rw [Body.decode, if_neg (by simp [hrest]),
      scan_eq_error (by omega) hrest hone]
    rfl
  cases h with
  | unassigned hfirst hrow =>
      exact hscan hle hfirst.ne_nil (scanOne_of_unassigned hfirst hrow)
  | cutOff hcut => exact hscan hle hcut.ne_nil (scanOne_of_cutOff hcut)
  | stray hstray =>
      rw [← fault?_eq_some_iff, fault?_decode_codeOf locals hle hne, hstray]
      rfl

/-- Code is a row of pieces without stray branches, or there is a reason to
refuse it. Both are told by cutting, so between them they leave nothing out. -/
theorem isCode_or_refused (bytes : List UInt8) :
    IsCode bytes ∨ ∃ fault, Refused bytes fault := by
  obtain ⟨ps, rest, rfl, rfl | ⟨lead, code, behind, hfirst, hrow⟩ | hcut⟩ :=
    cut_cases bytes
  · rw [List.append_nil]
    cases hstray : (strays ps).head? with
    | none => exact .inl ⟨ps, rfl, List.head?_eq_none_iff.1 hstray⟩
    | some stray => exact .inr ⟨_, .stray hstray⟩
  · exact .inr ⟨_, .unassigned hfirst hrow⟩
  · exact .inr ⟨_, .cutOff hcut⟩

theorem IsCode.decodes {bytes : List UInt8} (h : IsCode bytes)
    (symbols : Symbols)
    (locals : Array LocalSlot) (hle : bytes.length ≤ maxOffset)
    (hne : bytes ≠ []) :
    ∃ body, Body.decode symbols locals bytes = .ok body := by
  obtain ⟨ps, rfl, hstrays⟩ := h
  rw [← fault?_eq_none_iff, fault?_decode_codeOf locals hle hne, hstrays]
  rfl

/-- Code is refused for exactly the reason that cutting it into pieces shows,
and accepted exactly if it is a row of pieces whose branches lead to starts of
pieces. -/
theorem decoded_or_refused (symbols : Symbols) (locals : Array LocalSlot)
    (bytes : List UInt8) (hle : bytes.length ≤ maxOffset) :
    (bytes ≠ [] → ∀ fault,
        Body.decode symbols locals bytes = .error fault ↔ Refused bytes fault) ∧
      ((∃ body, Body.decode symbols locals bytes = .ok body) ↔
        bytes ≠ [] ∧ IsCode bytes) := by
  constructor
  · intro hne fault
    refine ⟨fun herror => ?_, fun h => h.decode_eq locals hle hne⟩
    rcases isCode_or_refused bytes with hcode | ⟨other, hother⟩
    · obtain ⟨body, hbody⟩ := hcode.decodes symbols locals hle hne
      rw [hbody] at herror
      cases herror
    · rw [hother.decode_eq locals hle hne, Except.error.injEq] at herror
      exact herror ▸ hother
  · constructor
    · rintro ⟨body, hbody⟩
      have hne := (decode_eq_ok_iff.1 hbody).1
      rcases isCode_or_refused bytes with hcode | ⟨fault, hfault⟩
      · exact ⟨hne, hcode⟩
      · rw [hfault.decode_eq locals hle hne] at hbody
        cases hbody
    · rintro ⟨hne, hcode⟩
      exact hcode.decodes symbols locals hle hne

def returnPiece : Piece :=
  ⟨⟨0, 0x2A, "ret", .none, .other, .return, .unknown⟩, [],
    by decide +kernel, by decide⟩

/-- A branch into the number that the next instruction pushes. -/
def brokenJump : List Piece := [
  ⟨.branch 0 0x2C "brfalse.s" .shortTarget 1, [0x01],
    by decide +kernel, by decide⟩,
  ⟨.literal 0 0x20 "ldc.i4" .int32, [0x00, 0x00, 0x00, 0x00],
    by decide +kernel, by decide⟩,
  returnPiece]

/-- A branch into an instruction, an opcode that is not assigned, and a table
with more cases than there are bytes; and code that loops. -/
theorem decoded_or_refused_brokenJump :
    Body.decode (.ofLists [] []) #[] [0x2C, 0x01, 0x20, 0x00, 0x00, 0x00,
      0x00, 0x2A] =
        .error (.malformed (.strayBranch 0 3)) ∧
      Body.decode (.ofLists [] []) #[] [0x2A, 0xFE, 0x24] =
        .error (.malformed (.unassignedAt 0xFE 0x24 1)) ∧
      Body.decode (.ofLists [] []) #[] [0x2A, 0x45, 0xFF, 0xFF, 0xFF, 0x0F] =
        .error .outOfBounds ∧
      IsCode loopCode := by
  have hrefused (bytes : List UInt8) (hle : bytes.length ≤ maxOffset)
      (hne : bytes ≠ []) (fault : Fault) (h : Refused bytes fault) :
      Body.decode (.ofLists [] []) #[] bytes = .error fault :=
    ((decoded_or_refused (.ofLists [] []) #[] bytes hle).1 hne fault).2 h
  refine ⟨hrefused _ (by decide) (by decide) _ ?_,
    hrefused _ (by decide) (by decide) _ ?_,
    hrefused _ (by decide) (by decide) _ ?_, ?_⟩
  · exact .stray (show (strays brokenJump).head? = some (0, 3) by decide)
  · exact @Refused.unassigned [returnPiece] 0xFE 0x24 [] [0xFE, 0x24] .long
      (by decide +kernel)
  · refine @Refused.cutOff [returnPiece] [0x45, 0xFF, 0xFF, 0xFF, 0x0F] ?_
    exact @CutOff.operand ⟨0, 0x45, "switch", .switch, .branch, .switch,
      .fixed 1 0⟩ _ _
      (.short (by decide)) (by decide +kernel) (by decide)
  · exact ((decoded_or_refused (.ofLists [] []) #[] loopCode (by decide)).2.1
      ⟨loopBody, decode_loopCode⟩).2

end Code
end CilAudit
