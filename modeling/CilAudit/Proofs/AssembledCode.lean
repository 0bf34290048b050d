import CilAudit.Proofs.Assembling
import CilAudit.Proofs.WrittenCode
import Mathlib.Tactic.IntervalCases

/-!
# Assembled code decodes

The assembler and the decoder never meet: one goes from statements to
instructions, the other from bytes. They agree through the bytes that
`Body.encode` writes for an assembled body. Decoding them gives the body back,
with one difference that both sides mean: where the assembler keeps the field
that `stfld` stores to as a field, the decoder keeps a token
(`Opcode.decoded`).

Most of it is a question about one statement at a time, whether the opcode that
the assembler picks for it is one that the decoder reads as the same operand
(`Encoding.Fits`). That covers every slot and every constant, at whichever of
their widths. What is left is about the run as a whole: the widths of the
drafts are the widths that are written, and the labels lead to instructions.
-/

namespace CilAudit.Code

open LittleEndian (span)

/-! ## The difference -/

/-- The operand of an opcode in the form that it is decoded in: a field that is
stored to is a token. This is the only operand that does not come back as it
was. -/
def Opcode.decoded (op : Opcode) : Operand → Operand
  | .field t => if op.hasBytes 0 0x7D then .token t else .field t
  | operand => operand

def Instruction.asDecoded (i : Instruction) : Instruction :=
  { i with operand := i.op.decoded i.operand }

def Body.asDecoded (b : Body) : Body :=
  { b with code := b.code.map Instruction.asDecoded }

theorem Opcode.isInline_decoded (op : Opcode) (operand : Operand) :
    (op.decoded operand).isInline = operand.isInline := by
  unfold decoded
  repeat' split
  all_goals rfl

theorem Opcode.isInline_of_decoded {symbols : Symbols} {op : Opcode} {n : Nat}
    {operand : Operand}
    (h : op.inline? symbols n = some (op.decoded operand)) :
    operand.isInline = true := by
  rw [← op.isInline_decoded]
  exact isInline_of_inline? h

theorem Opcode.number_decoded (names : Naming) (op : Opcode)
    (operand : Operand) :
    (op.decoded operand).number names = operand.number names := by
  unfold decoded
  repeat' split
  all_goals rfl

theorem Instruction.asDecoded_of_not_isInline {i : Instruction}
    (h : i.operand.isInline = false) :
    i.asDecoded = i := by
  obtain ⟨offset, size, op, operand⟩ := i
  cases operand with
  | target index => rfl
  | switch indices => rfl
  | _ => cases h

theorem Instruction.targets_asDecoded (i : Instruction) :
    i.asDecoded.targets = i.targets := by
  cases h : i.operand.isInline with
  | true =>
      have hdecoded : i.asDecoded.operand.isInline = true := by
        rw [asDecoded, Opcode.isInline_decoded, h]
      rw [targets_of_isInline h, targets_of_isInline hdecoded]
  | false => rw [asDecoded_of_not_isInline h]

namespace Body

variable (names : Naming) (b : Body)

theorem joinPoints_asDecoded : b.asDecoded.joinPoints = b.joinPoints := by
  have htargets : b.asDecoded.branchTargets = b.branchTargets := by
    unfold branchTargets asDecoded
    rw [Array.toList_map, List.flatMap_map]
    exact congrArg (List.flatMap · b.code.toList)
      (funext Instruction.targets_asDecoded)
  rw [joinPoints, joinPoints, htargets]

theorem hasCalls_asDecoded : b.asDecoded.hasCalls = b.hasCalls := by
  unfold hasCalls asDecoded
  rw [Array.any_map]
  rfl

theorem displacement_asDecoded (i : Instruction) (index : Nat) :
    b.asDecoded.displacement i.asDecoded index = b.displacement i index := by
  have hget : b.asDecoded.get? index =
      (b.get? index).map Instruction.asDecoded :=
    Array.getElem?_map
  rw [displacement, displacement, hget]
  cases b.get? index <;> rfl

theorem instructionBytes_asDecoded (i : Instruction) :
    b.asDecoded.instructionBytes names i.asDecoded =
      b.instructionBytes names i := by
  refine congrArg (i.op.bytes ++ ·) ?_
  cases h : i.operand.isInline with
  | true =>
      have hdecoded : i.asDecoded.operand.isInline = true := by
        rw [Instruction.asDecoded, Opcode.isInline_decoded, h]
      rw [operandBytes_of_isInline h, operandBytes_of_isInline hdecoded,
        Instruction.asDecoded, Opcode.number_decoded]
  | false =>
      have hway (index : Nat) := b.displacement_asDecoded i index
      rw [Instruction.asDecoded_of_not_isInline h] at hway ⊢
      simp only [operandBytes, hway]

theorem encode_asDecoded : b.asDecoded.encode names = b.encode names := by
  unfold encode
  rw [show b.asDecoded.code.toList =
    b.code.toList.map Instruction.asDecoded from Array.toList_map,
    List.flatMap_map]
  exact congrArg (List.flatMap · b.code.toList)
    (funext (b.instructionBytes_asDecoded names))

end Body

/-! ## Statements -/

def Statement.goals : Statement → List String
  | .br goal | .brtrue goal | .brfalse goal => [goal]
  | .switch goals => goals
  | _ => []

/-- The symbols give back what an operand is named by. Operands other than
texts and call targets stand for themselves, and nothing need be known of them.
-/
def Symbols.Know (symbols : Symbols) (names : Naming) : Operand → Prop
  | .string text => symbols.string? (names.string text) = some text
  | .call callee => symbols.target? (names.target callee) = some callee
  | _ => True

/-- An opcode takes an operand: the way it is written is the way it is read.
One constructor for each form of operand, so that statements need no case for
each layout. -/
inductive Opcode.Takes (symbols : Symbols) (names : Naming) (op : Opcode) :
    Unlinked String → Prop
  | plain {operand : Operand} {width : Nat} :
      op.layout.size? = some width →
        op.inline? symbols (operand.number names % span width) =
          some (op.decoded operand) →
          Takes symbols names op (.plain operand)
  | branch {goal : String} :
      op.layout = .target → Takes symbols names op (.branch goal)
  | table {goals : List String} :
      op.layout = .switch → Takes symbols names op (.table goals)

def Encoding.Fits (symbols : Symbols) (names : Naming) (e : Encoding) : Prop :=
  ∃ op, Opcode.lookup? e.lead e.code = some op ∧
    op.Takes symbols names e.operand

section

variable {symbols : Symbols} {names : Naming}

theorem Opcode.takes_none {op : Opcode} {operand : Operand}
    (hlayout : op.layout = .none)
    (h : op.implied = op.decoded operand) :
    op.Takes symbols names (.plain operand) :=
  .plain (by rw [hlayout]; rfl) (by rw [inline?, hlayout, h])

theorem Opcode.takes_int8 {op : Opcode} {n : Int8}
    (hlayout : op.layout = .int8) :
    op.Takes symbols names (.plain (.immediate (.int8 n))) := by
  refine .plain (by rw [hlayout]; rfl) ?_
  rw [inline?, hlayout, Operand.number, Immediate.bits,
    Nat.mod_eq_of_lt (LittleEndian.toNat_lt_span_one _), UInt8.ofNat_toNat]
  rfl

theorem Opcode.takes_int32 {op : Opcode} {n : Int32}
    (hlayout : op.layout = .int32) :
    op.Takes symbols names (.plain (.immediate (.int32 n))) := by
  refine .plain (by rw [hlayout]; rfl) ?_
  rw [inline?, hlayout, Operand.number, Immediate.bits,
    Nat.mod_eq_of_lt (LittleEndian.toNat_lt_span_four _), UInt32.ofNat_toNat]
  rfl

theorem Opcode.takes_token {op : Opcode} {operand : Operand} {t : Token}
    (hlayout : op.layout = .token)
    (hnumber : operand.number names = t.word.toNat)
    (h : op.tokened symbols t = op.decoded operand) :
    op.Takes symbols names (.plain operand) := by
  refine .plain (by rw [hlayout]; rfl) ?_
  rw [inline?, hlayout, hnumber,
    Nat.mod_eq_of_lt (LittleEndian.toNat_lt_span_four t.word),
    UInt32.ofNat_toNat, h]

theorem Opcode.takes_text {op : Opcode} {text : String}
    (hlayout : op.layout = .token)
    (hcategory : op.category = .pushLiteral)
    (h : symbols.Know names (.string text)) :
    op.Takes symbols names (.plain (.string text)) := by
  refine takes_token hlayout rfl ?_
  rw [Symbols.Know] at h
  simp only [tokened, hcategory, h, decoded]

theorem Opcode.takes_callee {op : Opcode} {callee : Target}
    (hlayout : op.layout = .token)
    (hcategory : op.category = .call) (h : symbols.Know names (.call callee)) :
    op.Takes symbols names (.plain (.call callee)) := by
  refine takes_token hlayout rfl ?_
  rw [Symbols.Know] at h
  simp only [tokened, hcategory, h, decoded]

theorem Opcode.takes_index {op : Opcode} {operand : UInt16 → Operand}
    {width : Nat}
    {index : UInt16} (hoperand : operand = .slot ∨ operand = .argument)
    (hlayout : op.layout = .uint8 ∨ op.layout = .uint16)
    (hsize : op.layout.size? = some width)
    (hnumbered : ∀ n, op.numbered n = operand (UInt16.ofNat n))
    (hlt : index.toNat < span width) :
    op.Takes symbols names (.plain (operand index)) := by
  have hinline : ∀ n, op.inline? symbols n = some (op.numbered n) := by
    intro n
    rcases hlayout with h | h <;> rw [inline?, h]
  refine .plain hsize ?_
  rw [hinline, hnumbered]
  rcases hoperand with rfl | rfl <;>
    simp only [Operand.number, Nat.mod_eq_of_lt hlt,
      UInt16.ofNat_toNat, decoded]

theorem slot_cases {index : UInt16} (h : index ≤ 3) :
    index = 0 ∨ index = 1 ∨ index = 2 ∨ index = 3 := by
  have hle : index.toNat ≤ 3 := UInt16.le_iff_toNat_le.1 h
  simp only [← UInt16.toNat_inj, UInt16.toNat_ofNat]
  omega

/-- The opcode has no operand bytes and means the operand by itself. -/
def Implies (code : UInt8) (operand : Operand) : Prop :=
  ∃ op, Opcode.lookup? 0 code = some op ∧ op.layout = .none ∧
    op.implied = operand

/-- The opcode names slots or arguments by a number behind it. -/
def Numbers (lead code : UInt8) (layout : Layout)
    (operand : UInt16 → Operand) : Prop :=
  ∃ op, Opcode.lookup? lead code = some op ∧ op.layout = layout ∧
    ∀ n, op.numbered n = operand (UInt16.ofNat n)

section

variable {first inByte inWord : UInt8} {operand : UInt16 → Operand}

/-- A slot fits in a byte or in a word, whichever is picked, and both are read
as the slot that was meant. -/
theorem fits_index (hoperand : operand = .slot ∨ operand = .argument)
    (hbyte : Numbers 0 inByte .uint8 operand)
    (hword : Numbers Opcode.twoByteLead inWord .uint16 operand)
    (index : UInt16) :
    (if index ≤ 255 then Encoding.short inByte (operand index)
      else Encoding.long inWord (operand index)).Fits symbols names := by
  split
  · next hle =>
      obtain ⟨op, hrow, hlayout, hnumbered⟩ := hbyte
      have hlt : index.toNat ≤ 255 := UInt16.le_iff_toNat_le.1 hle
      have hsize : op.layout.size? = some 1 := by rw [hlayout]; rfl
      exact ⟨op, hrow, op.takes_index hoperand (.inl hlayout) hsize hnumbered
        (Nat.lt_succ_of_le hlt)⟩
  · obtain ⟨op, hrow, hlayout, hnumbered⟩ := hword
    have hsize : op.layout.size? = some 2 := by rw [hlayout]; rfl
    exact ⟨op, hrow, op.takes_index hoperand (.inr hlayout) hsize hnumbered
      (LittleEndian.toNat_lt_span_two index)⟩

/-- The opcodes of their own, the byte and the word name one and the same slot.
Loads, stores and arguments are instances of this with their own opcodes. -/
theorem fits_ofSlot (hoperand : operand = .slot ∨ operand = .argument)
    (hfirst : ∀ index ≤ 3, Implies (first + index.toUInt8) (operand index))
    (hbyte : Numbers 0 inByte .uint8 operand)
    (hword : Numbers Opcode.twoByteLead inWord .uint16 operand)
    (index : UInt16) :
    (Encoding.ofSlot first inByte inWord index (operand index)).Fits symbols
      names := by
  unfold Encoding.ofSlot
  split
  · next hle =>
      obtain ⟨op, hrow, hlayout, himplied⟩ := hfirst index hle
      refine ⟨op, hrow, op.takes_none hlayout ?_⟩
      rcases hoperand with rfl | rfl <;> exact himplied
  · exact fits_index hoperand hbyte hword index

end

theorem fits_ofConstant (value : Int32) :
    (Encoding.ofConstant value).Fits symbols names := by
  unfold Encoding.ofConstant
  split
  · next hsmall =>
      obtain ⟨hlow, hhigh⟩ := hsmall
      -- Ten constants, each with a row of its own.
      have hvalue := Int32.ofInt_toInt value
      generalize value.toInt = n at *
      subst hvalue
      interval_cases n <;> exact ⟨_, rfl, Opcode.takes_none rfl rfl⟩
  · split
    · exact ⟨_, rfl, Opcode.takes_int8 rfl⟩
    · exact ⟨_, rfl, Opcode.takes_int32 rfl⟩

theorem fits_of_encoding? {s : Statement} {e : Encoding}
    (hraw : ∀ lead code operand, s ≠ .raw lead code operand)
    (he : s.encoding? = some e)
    (hknown : ∀ operand, e.operand = .plain operand →
      symbols.Know names operand) :
    e.Fits symbols names := by
  cases s with
  | slot => cases he
  | label => cases he
  | raw lead code operand => exact absurd rfl (hraw lead code operand)
  | ldarg index =>
      cases he
      refine fits_ofSlot (.inr rfl) ?_ ⟨_, rfl, rfl, fun _ => rfl⟩
        ⟨_, rfl, rfl, fun _ => rfl⟩ index
      intro index hle
      rcases slot_cases hle with rfl | rfl | rfl | rfl <;>
        exact ⟨_, rfl, rfl, rfl⟩
  | ldloc index =>
      cases he
      refine fits_ofSlot (.inl rfl) ?_ ⟨_, rfl, rfl, fun _ => rfl⟩
        ⟨_, rfl, rfl, fun _ => rfl⟩ index
      intro index hle
      rcases slot_cases hle with rfl | rfl | rfl | rfl <;>
        exact ⟨_, rfl, rfl, rfl⟩
  | stloc index =>
      cases he
      refine fits_ofSlot (.inl rfl) ?_ ⟨_, rfl, rfl, fun _ => rfl⟩
        ⟨_, rfl, rfl, fun _ => rfl⟩ index
      intro index hle
      rcases slot_cases hle with rfl | rfl | rfl | rfl <;>
        exact ⟨_, rfl, rfl, rfl⟩
  | ldloca index =>
      cases he
      exact fits_index (.inl rfl) ⟨_, rfl, rfl, fun _ => rfl⟩
        ⟨_, rfl, rfl, fun _ => rfl⟩ index
  | ldcI4 value =>
      cases he
      exact fits_ofConstant value
  | ldstr text =>
      cases he
      exact ⟨_, rfl, Opcode.takes_text rfl rfl (hknown _ rfl)⟩
  | call callee =>
      cases he
      exact ⟨_, rfl, Opcode.takes_callee rfl rfl (hknown _ rfl)⟩
  | callvirt callee =>
      cases he
      exact ⟨_, rfl, Opcode.takes_callee rfl rfl (hknown _ rfl)⟩
  | newobj callee =>
      cases he
      exact ⟨_, rfl, Opcode.takes_callee rfl rfl (hknown _ rfl)⟩
  | ldfld t =>
      cases he
      exact ⟨_, rfl, Opcode.takes_token rfl rfl rfl⟩
  | ldsfld t =>
      cases he
      exact ⟨_, rfl, Opcode.takes_token rfl rfl rfl⟩
  | stfld t =>
      cases he
      exact ⟨_, rfl, Opcode.takes_token rfl rfl rfl⟩
  | box t =>
      cases he
      exact ⟨_, rfl, Opcode.takes_token rfl rfl rfl⟩
  | br goal =>
      cases he
      exact ⟨_, rfl, .branch rfl⟩
  | brtrue goal =>
      cases he
      exact ⟨_, rfl, .branch rfl⟩
  | brfalse goal =>
      cases he
      exact ⟨_, rfl, .branch rfl⟩
  | switch goals =>
      cases he
      exact ⟨_, rfl, .table rfl⟩
  | _ =>
      cases he
      exact ⟨_, rfl, Opcode.takes_none rfl rfl⟩

end

theorem refs_of_encoding? {s : Statement} {e : Encoding}
    (h : s.encoding? = some e) :
    e.operand.refs = s.goals := by
  have hslot (first inByte inWord : UInt8) (index : UInt16)
      (operand : Operand) :
      (Encoding.ofSlot first inByte inWord index operand).operand.refs =
        [] := by
    unfold Encoding.ofSlot
    repeat' split
    all_goals rfl
  have hconstant (value : Int32) :
      (Encoding.ofConstant value).operand.refs = [] := by
    unfold Encoding.ofConstant
    repeat' split
    all_goals rfl
  cases s <;> cases h
  case ldarg => exact hslot ..
  case ldloc => exact hslot ..
  case stloc => exact hslot ..
  case ldloca => split <;> rfl
  case ldcI4 => exact hconstant ..
  all_goals rfl

/-! ## Linked drafts -/

section

variable {symbols : Symbols} {names : Naming} {leads : String → Nat → Prop}
  {d : Draft String} {i : Instruction}

theorem takes_of_drafts {s : Statement} {e : Encoding}
    (hraw : ∀ lead code operand, s ≠ .raw lead code operand)
    (he : s.encoding? = some e)
    (hd : e.Drafts d) (hlinked : d.Linked leads i)
    (hknown : symbols.Know names i.operand) :
    d.op.Takes symbols names d.operand := by
  have hfits : e.Fits symbols names := by
    refine fits_of_encoding? hraw he fun operand ho => ?_
    have hlinks := hlinked.operand
    rw [hd.operand, ho] at hlinks
    rwa [← hlinks.of_plain]
  obtain ⟨op, hrow, htakes⟩ := hfits
  rw [hd.row, Option.some.injEq] at hrow
  rwa [hrow, hd.operand]

theorem carries_asDecoded {count : Nat}
    (hfits : d.op.Takes symbols names d.operand) (hlinked : d.Linked leads i)
    (hlt : ∀ label ∈ d.operand.refs, ∀ index, leads label index →
      index < count) :
    i.op.Carries symbols names count i.asDecoded.operand := by
  have hlinks := hlinked.operand
  rw [Instruction.asDecoded, hlinked.op]
  dsimp only
  generalize hu : d.operand = u at *
  cases hfits with
  | plain hsize hinline =>
      rw [hlinks.of_plain]
      refine .inline hsize ?_
      rw [Opcode.number_decoded, hinline]
  | branch hlayout =>
      obtain ⟨index, ho, hleads⟩ := hlinks.of_branch
      rw [ho]
      exact .branch hlayout (hlt _ (List.mem_singleton.2 rfl) index hleads)
  | table hlayout =>
      obtain ⟨indices, ho, hleads⟩ := hlinks.of_table
      rw [ho]
      refine .table hlayout fun index hindex => ?_
      obtain ⟨label, hlabel, hlead⟩ := exists_of_forall₂ hleads hindex
      exact hlt label hlabel index hlead

/-- What is written for a draft is as long as the draft says. -/
theorem length_instructionBytes (body : Body)
    (hfits : d.op.Takes symbols names d.operand)
    (hlinked : d.Linked leads i) :
    (body.instructionBytes names i).length = d.width := by
  have hlinks := hlinked.operand
  rw [Body.instructionBytes, List.length_append, Opcode.length_bytes,
    hlinked.op, Draft.width]
  refine congrArg (d.op.length + ·) ?_
  generalize hu : d.operand = u at *
  cases hfits with
  | plain hsize hinline =>
      have hplain : i.operand.isInline = true := by
        rw [hlinks.of_plain]
        exact Opcode.isInline_of_decoded hinline
      rw [Body.operandBytes_of_isInline hplain, LittleEndian.length_bytes,
        hlinked.op]
      rfl
  | branch hlayout =>
      obtain ⟨index, ho, -⟩ := hlinks.of_branch
      rw [Body.operandBytes, ho]
      dsimp only
      rw [LittleEndian.length_signedBytes, hlinked.op]
      rfl
  | @table goals hlayout =>
      obtain ⟨indices, ho, hleads⟩ := hlinks.of_table
      rw [Body.length_operandBytes_of_table ho, hlayout, ← hleads.length_eq]
      rfl

end

/-! ## Assembled bodies -/

def Operand.text? : Operand → Option String
  | .string text => some text
  | _ => Option.none

def Operand.callee? : Operand → Option Target
  | .call callee => some callee
  | _ => Option.none

def Body.texts (b : Body) : List String :=
  b.code.toList.filterMap (·.operand.text?)

def Body.callees (b : Body) : List Target :=
  b.code.toList.filterMap (·.operand.callee?)

/-- No two texts and no two call targets of a body have one token. Otherwise
the symbols would give back the wrong one of the two. -/
structure Naming.Separates (names : Naming) (b : Body) : Prop where
  texts : ∀ x ∈ b.texts, ∀ y ∈ b.texts, names.string x = names.string y → x = y
  callees : ∀ x ∈ b.callees, ∀ y ∈ b.callees,
    names.target x = names.target y → x = y

/-- The symbols that lead from the tokens of a body back to its texts and call
targets. They are listed from the body itself, so a decoder that uses them
knows nothing else of it. -/
def Naming.symbols (names : Naming) (b : Body) : Symbols :=
  .ofLists (b.texts.map fun text => (names.string text, text))
    (b.callees.map fun callee => (names.target callee, callee))

theorem lookup_of_forall {α β : Type} [BEq α] [LawfulBEq α]
    {pairs : List (α × β)} {key : α}
    {value : β} (hmem : (key, value) ∈ pairs)
    (h : ∀ p ∈ pairs, p.1 = key → p.2 = value) :
    pairs.lookup key = some value := by
  induction pairs with
  | nil => cases hmem
  | cons p pairs ih =>
      obtain ⟨k, v⟩ := p
      obtain ⟨hp, hpairs⟩ := List.forall_mem_cons.1 h
      by_cases hk : key = k
      · rw [List.lookup_cons, hk, beq_self_eq_true]
        exact congrArg some (hp hk.symm)
      · rw [List.lookup_cons, beq_eq_false_iff_ne.2 hk]
        refine ih ?_ hpairs
        rcases List.mem_cons.1 hmem with heq | hmem
        · exact absurd (congrArg Prod.fst heq) hk
        · exact hmem

/-- Pairs listed by a key that tells the values apart lead back to them. -/
theorem lookup_reverse_map {α : Type} {name : α → Token} {values : List α}
    {value : α} (hmem : value ∈ values)
    (h : ∀ x ∈ values, ∀ y ∈ values, name x = name y → x = y) :
    (values.map fun x => (name x, x)).reverse.lookup (name value) =
      some value := by
  refine lookup_of_forall (List.mem_reverse.2 (List.mem_map_of_mem hmem))
    fun p hp hkey => ?_
  obtain ⟨x, hx, rfl⟩ := List.mem_map.1 (List.mem_reverse.1 hp)
  exact h x hx value hmem hkey

theorem Naming.Separates.know {names : Naming} {b : Body}
    (h : names.Separates b) {i : Instruction}
    (hi : i ∈ b.code) : (names.symbols b).Know names i.operand := by
  have hmem := Array.mem_toList_iff.2 hi
  cases ho : i.operand with
  | string text =>
      have htext : text ∈ b.texts :=
        List.mem_filterMap.2 ⟨i, hmem, by rw [ho]; rfl⟩
      exact lookup_reverse_map htext h.texts
  | call callee =>
      have hcallee : callee ∈ b.callees :=
        List.mem_filterMap.2 ⟨i, hmem, by rw [ho]; rfl⟩
      exact lookup_reverse_map hcallee h.callees
  | _ => trivial

namespace Emitted

variable {statements : List Statement} {names : Naming} {body : Body}
  {ds : List (Draft String)}
  {leads : String → Nat → Prop} {d : Draft String} {i : Instruction}

theorem exists_statement (h : Emitted statements body ds leads) (hd : d ∈ ds) :
    ∃ s ∈ statements, ∃ e, s.encoding? = some e ∧ e.Drafts d := by
  obtain ⟨e, he, hed⟩ := exists_of_forall₂ h.drafts hd
  obtain ⟨s, hs, hse⟩ := List.mem_filterMap.1 he
  exact ⟨s, hs, e, hse, hed⟩

theorem takes (h : Emitted statements body ds leads)
    (hraw : ∀ lead code operand, Statement.raw lead code operand ∉ statements)
    (hnames : names.Separates body) (hd : d ∈ ds) (hi : i ∈ body.code)
    (hlink : d.Linked leads i) :
    d.op.Takes (names.symbols body) names d.operand := by
  obtain ⟨s, hs, e, he, hed⟩ := h.exists_statement hd
  refine takes_of_drafts (fun lead code operand heq => ?_) he hed hlink
    (hnames.know hi)
  exact hraw lead code operand (heq ▸ hs)

/-- The widths of the drafts add up to what is written. -/
theorem length_encode (h : Emitted statements body ds leads)
    (hraw : ∀ lead code operand, Statement.raw lead code operand ∉ statements)
    (hnames : names.Separates body) :
    (body.encode names).length = (ds.map Draft.width).sum := by
  rw [Body.encode, List.length_flatMap]
  refine congrArg List.sum ?_
  rw [← List.forall₂_eq_eq_eq, List.forall₂_map_left_iff,
    List.forall₂_map_right_iff, List.forall₂_iff_zip]
  refine ⟨h.linked.length_eq.symm, fun {i d} hzip => ?_⟩
  obtain ⟨hi, hd⟩ := List.of_mem_zip hzip
  have hlink := (List.forall₂_iff_zip.1 h.linked.flip).2 hzip
  exact length_instructionBytes body
    (h.takes hraw hnames hd (Array.mem_toList_iff.1 hi) hlink) hlink

/-- Every instruction of the body is read back. This is where all that was
asked of the statements comes together: opcodes, tokens, labels and sizes. -/
theorem writes (h : Emitted statements body ds leads)
    (hraw : ∀ lead code operand, Statement.raw lead code operand ∉ statements)
    (hgoals : ∀ s ∈ statements, ∀ goal ∈ s.goals, Marks statements goal)
    (hnames : names.Separates body) (hsizes : ∀ d ∈ ds, d.size = d.width)
    (hi : i ∈ body.code) :
    body.asDecoded.Writes (names.symbols body) names i.asDecoded := by
  obtain ⟨d, hd, hlink⟩ :=
    exists_of_forall₂ h.linked (Array.mem_toList_iff.2 hi)
  obtain ⟨s, hs, e, he, hed⟩ := h.exists_statement hd
  have htakes := h.takes hraw hnames hd hi hlink
  have hcount : body.asDecoded.size = body.size := Array.size_map
  refine ⟨?_, ?_, ?_⟩
  · obtain ⟨hlead, hcode⟩ := lookup?_bytes hed.row
    rw [Instruction.asDecoded, hlink.op, hlead, hcode, hed.row]
  · rw [body.instructionBytes_asDecoded,
      length_instructionBytes body htakes hlink, ← hsizes d hd, ← hlink.size,
      Instruction.asDecoded]
  · rw [hcount]
    refine carries_asDecoded htakes hlink fun label hlabel index hleads => ?_
    rw [hed.operand, refs_of_encoding? he] at hlabel
    exact h.inside label index (hgoals s hs label hlabel) hleads

end Emitted

/-- A body that is assembled without an opcode of the caller's choice is
decoded from what is written for it, if the branches go to instructions and
words can hold the ways there. Assembler and decoder agree on the layout
although neither is written in terms of the other. -/
theorem assembled_code_decodes (statements : List Statement) (names : Naming)
    (body : Body)
    (hraw : ∀ lead code operand, Statement.raw lead code operand ∉ statements)
    (hemits : ∃ s ∈ statements, s.emits = true)
    (hgoals : ∀ s ∈ statements, ∀ goal ∈ s.goals, Marks statements goal)
    (hbuild : Body.assemble statements = .ok body)
    (hsize : (body.encode names).length < 2 ^ 31)
    (hnames : names.Separates body) :
    Body.decode (names.symbols body) body.locals (body.encode names) =
      .ok body.asDecoded ∧
      body.asDecoded.joinPoints = body.joinPoints ∧
      body.asDecoded.hasCalls = body.hasCalls := by
  refine ⟨?_, body.joinPoints_asDecoded, body.hasCalls_asDecoded⟩
  obtain ⟨ds, leads, h⟩ := emitted_of_assemble hbuild
  have hlength := h.length_encode hraw hnames
  have hmax : 2 ^ 31 ≤ maxOffset := by decide
  obtain ⟨htiles, hsizes⟩ := h.tight (by omega)
  have hextents : body.asDecoded.code.toList.map Instruction.extent =
      ds.map Draft.extent := by
    rw [← map_extent_of_linked h.linked, Body.asDecoded, Array.toList_map,
      List.map_map]
    rfl
  -- What is written does not depend on the form of the operands, so it is that
  -- of the decoded one.
  rw [← body.encode_asDecoded] at hsize hlength ⊢
  refine decode_encode (b := body.asDecoded) ?_ ?_ hsize ?_
  · intro hempty
    have hpos := Assembler.length_encodings_pos hemits
    rw [h.drafts.length_eq, h.linked.length_eq, Array.length_toList,
      Array.map_eq_empty_iff.1 hempty] at hpos
    cases hpos
  · rwa [hextents, hlength]
  · intro i hi
    obtain ⟨j, hj, rfl⟩ := Array.mem_map.1 hi
    exact h.writes hraw hgoals hnames hsizes hj

/-- A slot that needs a word, a constant that needs one, two texts, a stored
field, a call, and branches both ways. -/
def tourStatements : List Statement := [
  .slot "System.Int32", .ldcI4 200, .stloc 300, .label "top", .ldarg 0,
  .ldstr "one", .ldstr "two", .call ⟨"System.String", "Concat",
    ["System.String", "System.String"], "System.String", false⟩,
  .stfld ⟨0x04000001⟩, .ldloc 300, .brfalse "end", .br "top",
    .label "end", .ret]

def tourBody : Body where
  code := #[
    ⟨0, 5, .literal 0 0x20 "ldc.i4" .int32, .immediate (.int32 200)⟩,
    ⟨5, 4, .store 0xFE 0x0E "stloc" .uint16, .slot 300⟩,
    ⟨9, 1, .plain 0 0x02 "ldarg.0" .none 0 1, .argument 0⟩,
    ⟨10, 5, .literal 0 0x72 "ldstr" .token, .string "one"⟩,
    ⟨15, 5, .literal 0 0x72 "ldstr" .token, .string "two"⟩,
    ⟨20, 5, .call 0 0x28 "call", .call
      ⟨"System.String", "Concat", ["System.String", "System.String"],
        "System.String", false⟩⟩,
    ⟨25, 5, .plain 0 0x7D "stfld" .token 2 0, .field ⟨0x04000001⟩⟩,
    ⟨30, 4, .load 0xFE 0x0C "ldloc" .uint16, .slot 300⟩,
    ⟨34, 5, .branch 0 0x39 "brfalse" .target 1, .target 10⟩,
    ⟨39, 5, .branch 0 0x38 "br" .target 0, .target 2⟩,
    ⟨44, 1, ⟨0, 0x2A, "ret", .none, .other, .return, .unknown⟩, .none⟩]
  locals := #[⟨0, "System.Int32"⟩]

def tourNames : Naming where
  string text := if text = "one" then ⟨0x70000001⟩ else ⟨0x70000009⟩
  target _ := ⟨0x0A000001⟩

theorem assembled_code_decodes_tour :
    Body.assemble tourStatements = .ok tourBody ∧
      Body.decode (tourNames.symbols tourBody) tourBody.locals
        (tourBody.encode tourNames) =
        .ok tourBody.asDecoded := by
  have hbuild : Body.assemble tourStatements = .ok tourBody := rfl
  have hraw : ∀ lead code operand,
      Statement.raw lead code operand ∉ tourStatements := by
    simp [tourStatements]
  have hret : Statement.ret ∈ tourStatements := by decide
  have hgoals : ∀ s ∈ tourStatements, ∀ goal ∈ s.goals,
      Marks tourStatements goal := by
    intro s hs goal hgoal
    have hnamed : ∀ s ∈ tourStatements, ∀ goal ∈ s.goals,
        goal = "top" ∨ goal = "end" := by decide
    rcases hnamed s hs goal hgoal with rfl | rfl
    · exact ⟨tourStatements.take 3, tourStatements.drop 4, rfl, .ret,
        by decide, rfl⟩
    · exact ⟨tourStatements.take 12, tourStatements.drop 13, rfl, .ret,
        by decide, rfl⟩
  refine ⟨hbuild, ?_⟩
  exact (assembled_code_decodes tourStatements tourNames tourBody hraw
    ⟨.ret, hret, rfl⟩ hgoals hbuild (by decide) ⟨by decide, by decide⟩).1

end CilAudit.Code
