import CilAudit.Proofs.DecodedBody

/-!
# Writing decoded code again

An instruction is written as its opcode and the number that its operand stands
for, at the width that the table gives; a branch is written as the way from its
end to the start of its target. `Body.encode` is this for a whole body. It
never looks at how the body came about.

Decoding keeps everything such a writer needs. The number of an operand is the
number it was read from (`number_of_inline?`), whichever of the operand's many
forms it took, and the way to a target is the displacement that was read
(`displacement_of_leadsTo`). So the bytes of a body that was decoded are the
bytes it was decoded from.
-/

namespace CilAudit

namespace LittleEndian

theorem bytes_value (word : List UInt8) :
    bytes word.length (value word) = word := by
  induction word with
  | nil => rfl
  | cons b word ih =>
      have hb := b.toNat_lt
      have hlow : UInt8.ofNat (b.toNat + 256 * value word) = b := by
        apply UInt8.toNat_inj.1
        rw [UInt8.toNat_ofNat']
        omega
      have hhigh : (b.toNat + 256 * value word) / 256 = value word := by omega
      rw [List.length_cons, value, bytes, hlow, hhigh, ih]

theorem value_lt (word : List UInt8) : value word < span word.length := by
  induction word with
  | nil => exact Nat.one_pos
  | cons b word ih =>
      have hb := b.toNat_lt
      rw [value, List.length_cons, span]
      omega

/-- A number in two's complement. -/
def signedBytes (width : Nat) (n : Int) : List UInt8 :=
  bytes width (n % span width).toNat

@[simp] theorem length_signedBytes (width : Nat) (n : Int) :
    (signedBytes width n).length = width :=
  length_bytes _ _

theorem signedBytes_signed (word : List UInt8) :
    signedBytes word.length (signed word) = word := by
  have hlt := value_lt word
  have hmod : signed word % span word.length = value word := by
    rw [signed, Int.bmod_emod]
    exact Int.emod_eq_of_lt (by omega) (by omega)
  rw [signedBytes, hmod, Int.toNat_natCast, bytes_value]

end LittleEndian

namespace Code

open LittleEndian (value signed signedBytes)

/-! ## Encoding -/

/-- The tokens by which code names texts and call targets. Any two functions
will do; what is asked of them stands in the theorems. -/
structure Naming where
  string : String → Token
  target : Target → Token

/-- The bits of a constant, as a number. -/
def Immediate.bits : Immediate → Nat
  | .int8 n => n.toUInt8.toNat
  | .uint8 n => n.toNat
  | .int32 n => n.toUInt32.toNat
  | .int64 n => n.toUInt64.toNat
  | .float32 bits => bits.toNat
  | .float64 bits => bits.toNat

/-- The number that stands for an operand in the code, unless it names targets.
Its width is not its own but that of the opcode in front of it. -/
def Operand.number (names : Naming) : Operand → Nat
  | .immediate value => value.bits
  | .slot index => index.toNat
  | .argument index => index.toNat
  | .string text => (names.string text).word.toNat
  | .call callee => (names.target callee).word.toNat
  | .field t => t.word.toNat
  | .token t => t.word.toNat
  | .none | .target _ | .switch _ => 0

namespace Body

/-- The way from the end of an instruction to the start of the one at an index.
For an index behind the end there is no such place, and zero stands in for its
offset. -/
def displacement (b : Body) (i : Instruction) (index : Nat) : Int :=
  ((b.get? index).elim 0 Instruction.offset : Nat) - (i.offset + i.size : Nat)

def operandBytes (names : Naming) (b : Body) (i : Instruction) : List UInt8 :=
  match i.operand with
  | .target index => signedBytes (i.op.layout.width 0) (b.displacement i index)
  | .switch indices =>
    LittleEndian.bytes 4 indices.length ++
      indices.flatMap fun index => signedBytes 4 (b.displacement i index)
  | operand => LittleEndian.bytes (i.op.layout.width 0) (operand.number names)

def instructionBytes (names : Naming) (b : Body) (i : Instruction) :
    List UInt8 :=
  i.op.bytes ++ b.operandBytes names i

/-- The code of a body, with texts and call targets replaced by their
tokens. -/
def encode (names : Naming) (b : Body) : List UInt8 :=
  b.code.toList.flatMap (b.instructionBytes names)

/-- The local slots are not part of the code. -/
theorem encode_congr (names : Naming) {b b' : Body} (h : b.code = b'.code) :
    b.encode names = b'.encode names := by
  obtain ⟨code, locals⟩ := b
  obtain ⟨code', locals'⟩ := b'
  cases h
  rfl

theorem operandBytes_of_isInline {names : Naming} {b : Body} {i : Instruction}
    (h : i.operand.isInline = true) :
    b.operandBytes names i =
      LittleEndian.bytes (i.op.layout.width 0) (i.operand.number names) := by
  unfold operandBytes
  split
  · next ho => rw [ho] at h; cases h
  · next ho => rw [ho] at h; cases h
  · rfl

end Body

/-! ## Operands -/

/-- The tokens are those that the symbols were found by. Where two tokens lead
to one text no naming does this, and the bytes cannot be told from the
instructions. -/
structure Naming.Restores (names : Naming) (symbols : Symbols) : Prop where
  strings : ∀ token text, symbols.string? token = some text →
    names.string text = token
  targets : ∀ token target, symbols.target? token = some target →
    names.target target = token

theorem mem_table_of_lookup? {lead code : UInt8} {op : Opcode}
    (h : Opcode.lookup? lead code = some op) : op ∈ Opcode.table := by
  unfold Opcode.lookup? at h
  split at h
  · exact List.mem_append_left _ (List.mem_of_find?_eq_some h)
  · split at h
    · exact List.mem_append_right _ (List.mem_of_find?_eq_some h)
    · cases h

/-- Only slots and arguments are numbered by two bytes. -/
theorem names_of_uint16 {op : Opcode}
    (hrow : Opcode.lookup? op.lead op.code = some op)
    (hlayout : op.layout = .uint16) :
    op.namesSlot = true ∨ op.namesArgument = true := by
  have htable : ∀ op ∈ Opcode.table, op.layout = .uint16 →
      op.namesSlot = true ∨ op.namesArgument = true := by decide +kernel
  exact htable op (mem_table_of_lookup? hrow) hlayout

section

variable {symbols : Symbols} {names : Naming} {op : Opcode} {n : Nat}

theorem number_numbered (hn : n < 65536)
    (hsmall : n < 256 ∨ op.namesSlot = true ∨ op.namesArgument = true) :
    (op.numbered n).number names = n := by
  unfold Opcode.numbered
  split
  · exact UInt16.toNat_ofNat_of_lt' hn
  · next hslot =>
      split
      · exact UInt16.toNat_ofNat_of_lt' hn
      · next hargument =>
          have hbyte : n < 256 := by
            rcases hsmall with h | h | h
            · exact h
            · exact absurd h hslot
            · exact absurd h hargument
          exact UInt8.toNat_ofNat_of_lt' hbyte

theorem number_tokened (hnames : names.Restores symbols) (token : Token) :
    (op.tokened symbols token).number names = token.word.toNat := by
  unfold Opcode.tokened
  split
  · split
    · next text htext => rw [Operand.number, hnames.strings token text htext]
    · rfl
  · split
    · next callee hcallee =>
        rw [Operand.number, hnames.targets token callee hcallee]
    · rfl
  · rfl
  · rfl

/-- An operand stands for the number that it was read from. -/
theorem number_of_inline? {operand : Operand} {width : Nat}
    (hnames : names.Restores symbols)
    (hrow : Opcode.lookup? op.lead op.code = some op)
    (hsize : op.layout.size? = some width)
    (hn : n < LittleEndian.span width)
    (h : op.inline? symbols n = some operand) :
    LittleEndian.bytes width (operand.number names) =
      LittleEndian.bytes width n := by
  unfold Opcode.inline? at h
  cases hlayout : op.layout <;> rw [hlayout] at h hsize <;> cases h <;>
    cases hsize
  case none => rfl
  case int8 =>
    have hsame : (UInt8.ofNat n).toInt8.toUInt8.toNat = n :=
      UInt8.toNat_ofNat_of_lt' hn
    rw [Operand.number, Immediate.bits, hsame]
  case uint8 =>
    have hbyte : n < 256 := hn
    rw [number_numbered (by omega) (.inl hbyte)]
  case uint16 => rw [number_numbered hn (.inr (names_of_uint16 hrow hlayout))]
  case int32 =>
    have hsame : (UInt32.ofNat n).toInt32.toUInt32.toNat = n :=
      UInt32.toNat_ofNat_of_lt' hn
    rw [Operand.number, Immediate.bits, hsame]
  case int64 =>
    have hsame : (UInt64.ofNat n).toInt64.toUInt64.toNat = n :=
      UInt64.toNat_ofNat_of_lt' hn
    rw [Operand.number, Immediate.bits, hsame]
  case float32 => rw [Operand.number, Immediate.bits,
    UInt32.toNat_ofNat_of_lt' hn]
  case float64 => rw [Operand.number, Immediate.bits,
    UInt64.toNat_ofNat_of_lt' hn]
  case token => rw [number_tokened hnames, UInt32.toNat_ofNat_of_lt' hn]

end

section

variable {symbols : Symbols} {names : Naming} {body : Body} {i : Instruction}
  {tail : List UInt8} {u : Unlinked Int}

/-- The way to a target is the displacement that leads there. -/
theorem displacement_of_leadsTo {displacement : Int} {index : Nat}
    (h : body.LeadsTo i displacement index) :
    body.displacement i index = displacement := by
  obtain ⟨j, hj, hoffset⟩ := h
  rw [Body.displacement, hj, Option.elim_some, hoffset]
  omega

theorem flatMap_signedBytes {words : List (List UInt8)} {indices : List Nat}
    (hlen : ∀ w ∈ words, w.length = 4)
    (h : List.Forall₂ (fun w index => body.LeadsTo i (signed w) index) words
      indices) :
    (indices.flatMap fun index => signedBytes 4 (body.displacement i index)) =
      words.flatten := by
  induction h with
  | nil => rfl
  | @cons w index words indices hw _ ih =>
      obtain ⟨hfour, hwords⟩ := List.forall_mem_cons.1 hlen
      rw [List.flatMap_cons, List.flatten_cons, ih hwords,
        displacement_of_leadsTo hw, ← hfour, LittleEndian.signedBytes_signed]

/-- An operand is written as it was read, whichever of its forms it has. -/
theorem operandBytes_of_spelled {leads : Int → Nat → Prop}
    (hnames : names.Restores symbols)
    (hrow : Opcode.lookup? i.op.lead i.op.code = some i.op)
    (hs : Spelled symbols i.op (i.offset + i.size) tail u)
    (hl : u.Links leads i.operand)
    (hleads : ∀ displacement index,
      leads ((i.offset + i.size : Nat) + displacement) index →
      body.LeadsTo i displacement index) :
    body.operandBytes names i = tail := by
  cases hs with
  | plain hsize hinline =>
      rw [← hl.of_plain] at hinline
      have hn := LittleEndian.value_lt tail
      rw [Body.operandBytes_of_isInline (Opcode.isInline_of_inline? hinline),
        Layout.width, hsize, Option.getD_some,
        number_of_inline? hnames hrow hsize hn hinline,
        LittleEndian.bytes_value]
  | branch hsize hlayout =>
      obtain ⟨index, ho, hindex⟩ := hl.of_branch
      rw [Body.operandBytes, ho]
      dsimp only
      rw [displacement_of_leadsTo (hleads _ _ hindex), Layout.width, hsize,
        Option.getD_some, LittleEndian.signedBytes_signed]
  | @table count words hlayout hcount hwords hlen =>
      obtain ⟨indices, ho, hindices⟩ := hl.of_table
      rw [List.forall₂_map_left_iff] at hindices
      rw [Body.operandBytes, ho]
      dsimp only
      rw [flatMap_signedBytes hlen (hindices.imp fun _ _ => hleads _ _),
        ← hindices.length_eq, ← hwords, ← hcount, LittleEndian.bytes_value]

end

/-! ## Whole bodies -/

theorem Scans.eq_flatMap {symbols : Symbols} {names : Naming} {body : Body}
    {offset : Nat}
    {bs : List UInt8} {ds : List (Draft Int)} {code : List Instruction}
    (hnames : names.Restores symbols) (hs : Scans symbols offset bs ds)
    (hlinked : List.Forall₂
      (Draft.Linked
        (Lands (body.code.toList.map Instruction.extent))) ds code) :
    code.flatMap (body.instructionBytes names) = bs := by
  induction hlinked generalizing offset bs with
  | nil =>
      rw [Scans] at hs
      rw [hs, List.flatMap_nil]
  | @cons d i ds code hlink _ ih =>
      obtain ⟨-, front, rest, rfl, hd, hs⟩ := hs
      obtain ⟨tail, rfl, hspelled⟩ := hd.operand
      have hrow := hd.row
      rw [← hlink.op] at hrow hspelled
      rw [← hlink.offset, ← hlink.size] at hspelled
      have htail := operandBytes_of_spelled hnames hrow hspelled hlink.operand
        fun displacement index =>
          (body.leadsTo_iff_lands i displacement index).2
      rw [List.flatMap_cons, ih hs, Body.instructionBytes, htail, hlink.op]

/-- Whatever the symbols are, code is written back with the tokens they were
found by. Without known symbols every naming will do, since no operand is named
by one. -/
theorem encode_of_decode {symbols : Symbols} {names : Naming}
    {locals : Array LocalSlot}
    {bytes : List UInt8} {body : Body} (hnames : names.Restores symbols)
    (h : Body.decode symbols locals bytes = .ok body) :
    body.encode names = bytes := by
  obtain ⟨-, -, ds, hs, hlinked⟩ := decode_eq_ok_iff.1 h
  rw [← map_extent_of_linked hlinked] at hlinked
  exact hs.eq_flatMap hnames hlinked

/-- Decoding loses nothing. Where no token is known, the instructions alone
give back the bytes they were decoded from, so different bytes never decode to
the same instructions. -/
theorem decoding_loses_nothing (symbols : Symbols) (names : Naming)
    (locals : Array LocalSlot)
    (bytes : List UInt8) (body : Body)
    (hstrings : ∀ token, symbols.string? token = none)
    (htargets : ∀ token, symbols.target? token = none)
    (h : Body.decode symbols locals bytes = .ok body) :
    body.encode names = bytes ∧
      ∀ locals' bytes' body', Body.decode symbols locals' bytes' = .ok body' →
        body'.code = body.code → bytes' = bytes := by
  have hnames : names.Restores symbols := by
    constructor
    · intro token text htext
      rw [hstrings] at htext
      cases htext
    · intro token callee hcallee
      rw [htargets] at hcallee
      cases hcallee
  refine ⟨encode_of_decode hnames h, fun locals' bytes' body' h' hcode => ?_⟩
  calc bytes' = body'.encode names := (encode_of_decode hnames h').symm
    _ = body.encode names := Body.encode_congr names hcode
    _ = bytes := encode_of_decode hnames h

theorem decoding_loses_nothing_loopCode :
    Body.decode (.ofLists [] []) #[] loopCode = .ok loopBody ∧
      loopBody.encode ⟨fun _ => ⟨0⟩, fun _ => ⟨0⟩⟩ = loopCode := by
  refine ⟨decode_loopCode, ?_⟩
  exact (decoding_loses_nothing (.ofLists [] []) ⟨fun _ => ⟨0⟩, fun _ => ⟨0⟩⟩
    #[] loopCode loopBody (fun _ => rfl) (fun _ => rfl) decode_loopCode).1

end Code

end CilAudit
