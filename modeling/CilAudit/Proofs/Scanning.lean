import CilAudit.Code.Decode
import CilAudit.Proofs.Reading
import Mathlib.Data.List.Forall2

/-!
# What a scan reads

Which bytes spell which instructions is said here once, as a relation, and the
scanner is shown to decide it. An operand is spelled by one word, or by a
counted row of words (`Spelled`). An instruction is the bytes of an assigned
opcode with such an operand behind them (`Spells`). Code is a row of
instructions, each starting where the one before it ends (`Scans`).

Every reader is shown equivalent to the relation, so what follows about decoded
code never opens one again. From left to right the equivalence says what was
read; from right to left, which `WrittenCode` needs, it says that bytes of this
form are never refused.
-/

namespace CilAudit

namespace LittleEndian

theorem split?_eq_some_iff {width n : Nat} {bs rest : List UInt8} :
    split? width bs = some (n, rest) ↔
      ∃ word, word.length = width ∧ bs = word ++ rest ∧ n = value word := by
  induction width generalizing n bs with
  | zero =>
      simp only [split?, Option.some.injEq, Prod.mk.injEq,
        List.length_eq_zero_iff]
      constructor
      · rintro ⟨rfl, rfl⟩
        exact ⟨[], rfl, rfl, rfl⟩
      · rintro ⟨_, rfl, rfl, rfl⟩
        exact ⟨rfl, rfl⟩
  | succ width ih =>
      cases bs with
      | nil =>
          refine ⟨fun h => by simp [split?] at h, ?_⟩
          rintro ⟨word, hlen, hbs, -⟩
          rw [(List.append_eq_nil_iff.1 hbs.symm).1] at hlen
          cases hlen
      | cons b bs =>
          simp only [split?, Option.map_eq_some_iff, Prod.mk.injEq, Prod.exists]
          constructor
          · rintro ⟨m, _, hs, rfl, rfl⟩
            obtain ⟨word, rfl, rfl, rfl⟩ := ih.1 hs
            exact ⟨b :: word, rfl, rfl, rfl⟩
          · rintro ⟨word, hlen, hbs, rfl⟩
            cases word with
            | nil => cases hlen
            | cons c word =>
                obtain ⟨rfl, rfl⟩ := List.cons.inj hbs
                exact ⟨value word, rest,
                  ih.2 ⟨word, Nat.succ.inj hlen, rfl, rfl⟩, rfl, rfl⟩

theorem splitMany?_eq_some_iff {width count : Nat} {ns : List Nat}
    {bs rest : List UInt8} :
    splitMany? width count bs = some (ns, rest) ↔
      ∃ words : List (List UInt8), words.length = count ∧
        (∀ w ∈ words, w.length = width) ∧
        bs = words.flatten ++ rest ∧ ns = words.map value := by
  induction count generalizing ns bs with
  | zero =>
      simp only [splitMany?, Option.some.injEq, Prod.mk.injEq,
        List.length_eq_zero_iff]
      constructor
      · rintro ⟨rfl, rfl⟩
        exact ⟨[], rfl, by simp, rfl, rfl⟩
      · rintro ⟨_, rfl, -, rfl, rfl⟩
        exact ⟨rfl, rfl⟩
  | succ count ih =>
      rw [splitMany?]
      constructor
      · intro h
        split at h
        · cases h
        · next n mid hs =>
            simp only [Option.map_eq_some_iff, Prod.mk.injEq, Prod.exists] at h
            obtain ⟨ms, _, hm, rfl, rfl⟩ := h
            obtain ⟨word, hword, rfl, rfl⟩ := split?_eq_some_iff.1 hs
            obtain ⟨words, rfl, hwords, rfl, rfl⟩ := ih.1 hm
            exact ⟨word :: words, rfl, List.forall_mem_cons.2 ⟨hword, hwords⟩,
              by rw [List.flatten_cons, List.append_assoc], rfl⟩
      · rintro ⟨words, hcount, hwords, rfl, rfl⟩
        cases words with
        | nil => cases hcount
        | cons word words =>
            obtain ⟨hword, hwords⟩ := List.forall_mem_cons.1 hwords
            have hs : split? width ((word :: words).flatten ++ rest) =
                some (value word, words.flatten ++ rest) :=
              split?_eq_some_iff.2
                ⟨word, hword, by rw [List.flatten_cons, List.append_assoc], rfl⟩
            have hm : splitMany? width count (words.flatten ++ rest) =
                some (words.map value, rest) :=
              ih.2 ⟨words, Nat.succ.inj hcount, hwords, rfl, rfl⟩
            rw [hs]
            dsimp only
            rw [hm]
            rfl

/-- The number that a word spells in two's complement, for words of any width.
-/
def signed (word : List UInt8) : Int := Int.bmod (value word) (span word.length)

end LittleEndian

namespace Code

open LittleEndian (value signed)

/-! ## Opcodes -/

def Opcode.bytes (op : Opcode) : List UInt8 :=
  if op.lead = 0 then [op.code] else [op.lead, op.code]

theorem Opcode.length_bytes (op : Opcode) : op.bytes.length = op.length := by
  unfold bytes length
  split <;> rfl

theorem Opcode.length_pos (op : Opcode) : 0 < op.length := by
  unfold length
  split <;> decide

theorem lead_of_lookup? {lead code : UInt8} {op : Opcode}
    (h : Opcode.lookup? lead code = some op) :
    (lead = 0 ∧ code ≠ Opcode.twoByteLead) ∨ lead = Opcode.twoByteLead := by
  by_cases h0 : lead = 0
  · refine Or.inl ⟨h0, ?_⟩
    rintro rfl
    have hnone : Opcode.lookup? 0 Opcode.twoByteLead = none := by decide +kernel
    rw [h0, hnone] at h
    cases h
  · by_cases h1 : lead = Opcode.twoByteLead
    · exact Or.inr h1
    · rw [Opcode.lookup?, if_neg h0, if_neg h1] at h
      cases h

theorem Opcode.bytes_ne_nil (op : Opcode) : op.bytes ≠ [] := by
  unfold bytes
  split <;> simp

/-- An assigned opcode is split off exactly where its bytes stand in front. The
lead byte is no opcode of its own, so there is no second way to read them. -/
theorem splitOpcode?_eq_some_iff {op : Opcode} {bs rest : List UInt8}
    (h : Opcode.lookup? op.lead op.code = some op) :
    splitOpcode? bs = some (op.lead, op.code, rest) ↔
    bs = op.bytes ++ rest := by
  have hzero : (0 : UInt8) ≠ Opcode.twoByteLead := by decide
  cases bs with
  | nil =>
      constructor
      · intro hs
        cases hs
      · intro hs
        exact absurd (List.append_eq_nil_iff.1 hs.symm).1 op.bytes_ne_nil
  | cons b tail =>
      simp only [splitOpcode?, Opcode.bytes]
      rcases lead_of_lookup? h with ⟨h0, hcode⟩ | h1
      · rw [if_pos h0, h0]
        by_cases hb : b = Opcode.twoByteLead
        · have hne : b ≠ op.code := fun he => hcode (he.symm.trans hb)
          rw [if_pos hb]
          cases tail <;> simp [hb, hzero.symm, hcode.symm]
        · rw [if_neg hb]
          simp [eq_comm]
      · rw [h1, if_neg (show ¬Opcode.twoByteLead = 0 from hzero.symm)]
        by_cases hb : b = Opcode.twoByteLead
        · rw [if_pos hb]
          cases tail <;> simp [hb]
        · rw [if_neg hb]
          simp [hb, hzero]

/-! ## Operands -/

/-- The operand that an inline number stands for; branches have none. -/
def Opcode.inline? (symbols : Symbols) (op : Opcode) (n : Nat) :
    Option Operand :=
  match op.layout with
  | .none => some op.implied
  | .int8 => some (.immediate (.int8 (UInt8.ofNat n).toInt8))
  | .uint8 | .uint16 => some (op.numbered n)
  | .int32 => some (.immediate (.int32 (UInt32.ofNat n).toInt32))
  | .int64 => some (.immediate (.int64 (UInt64.ofNat n).toInt64))
  | .float32 => some (.immediate (.float32 (UInt32.ofNat n)))
  | .float64 => some (.immediate (.float64 (UInt64.ofNat n)))
  | .token => some (op.tokened symbols ⟨UInt32.ofNat n⟩)
  | .shortTarget | .target | .switch => Option.none

/-- Whether an operand is one that no branch has. Such operands need no
linking. -/
def Operand.isInline : Operand → Bool
  | .target _ | .switch _ => false
  | _ => true

theorem Opcode.isInline_implied (op : Opcode) : op.implied.isInline = true := by
  unfold implied
  repeat' split
  all_goals rfl

theorem Opcode.isInline_numbered (op : Opcode) (n : Nat) :
    (op.numbered n).isInline = true := by
  unfold numbered
  repeat' split
  all_goals rfl

theorem Opcode.isInline_tokened (op : Opcode) (symbols : Symbols)
    (token : Token) :
    (op.tokened symbols token).isInline = true := by
  unfold tokened
  repeat' split
  all_goals rfl

theorem Opcode.isInline_of_inline? {symbols : Symbols} {op : Opcode} {n : Nat}
    {operand : Operand}
    (h : op.inline? symbols n = some operand) : operand.isInline = true := by
  unfold inline? at h
  split at h
  case h_1 => exact Option.some.inj h ▸ op.isInline_implied
  case h_3 => exact Option.some.inj h ▸ op.isInline_numbered n
  case h_4 => exact Option.some.inj h ▸ op.isInline_numbered n
  case h_9 => exact Option.some.inj h ▸ op.isInline_tokened symbols _
  all_goals cases h <;> rfl

theorem Instruction.targets_of_isInline {i : Instruction}
    (h : i.operand.isInline = true) :
    i.targets = [] := by
  unfold targets
  split
  · next ho => rw [ho] at h; cases h
  · next ho => rw [ho] at h; cases h
  · rfl

/-- The bytes spell an operand of an instruction that ends at `stop`. This is
the layout of operands as a relation, which proofs can read in both directions.
-/
inductive Spelled (symbols : Symbols) (op : Opcode) (stop : Nat) :
    List UInt8 → Unlinked Int → Prop
  | plain {word : List UInt8} {operand : Operand} :
      op.layout.size? = some word.length →
      op.inline? symbols (value word) = some operand →
        Spelled symbols op stop word (.plain operand)
  | branch {word : List UInt8} :
      op.layout.size? = some word.length →
      op.layout = .shortTarget ∨ op.layout = .target →
        Spelled symbols op stop word (.branch (stop + signed word))
  | table {count : List UInt8} {words : List (List UInt8)} :
      op.layout = .switch → count.length = 4 → value count = words.length →
        (∀ w ∈ words, w.length = 4) →
          Spelled symbols op stop (count ++ words.flatten)
            (.table (words.map fun w => stop + signed w))

theorem signed8_value {word : List UInt8} (h : word.length = 1) :
    signed8 (value word) = signed word := by
  simp [signed8, signed, h, LittleEndian.span]

theorem signed32_value {word : List UInt8} (h : word.length = 4) :
    signed32 (value word) = signed word := by
  simp [signed32, signed, h, LittleEndian.span]

section

variable {symbols : Symbols} {op : Opcode} {start width : Nat}
  {bs rest : List UInt8} {operand : Unlinked Int}

theorem scanned_plain_iff {denoted : Nat → Operand}
    (hsize : op.layout.size? = some width)
    (hinline : ∀ n, op.inline? symbols n = some (denoted n)) :
    ((LittleEndian.split? width bs).map fun (n, rest) =>
      (Unlinked.plain (denoted n), rest)) =
        some (operand, rest) ↔
      ∃ front, bs = front ++ rest ∧
        Spelled symbols op (start + front.length) front operand := by
  simp only [Option.map_eq_some_iff, Prod.mk.injEq, Prod.exists,
    LittleEndian.split?_eq_some_iff]
  constructor
  · rintro ⟨_, _, ⟨word, hword, rfl, rfl⟩, rfl, rfl⟩
    exact ⟨word, rfl, .plain (by rw [hsize, hword]) (hinline _)⟩
  · rintro ⟨front, rfl, hs⟩
    cases hs with
    | plain hsize' hinline' =>
        have hwidth : width = front.length :=
          Option.some.inj (hsize.symm.trans hsize')
        rw [hinline, Option.some.injEq] at hinline'
        exact ⟨_, rest, ⟨front, hwidth.symm, rfl, rfl⟩, by rw [hinline'], rfl⟩
    | branch _ hlayout =>
        have hbranch := hinline 0
        rcases hlayout with hl | hl <;> simp [Opcode.inline?, hl] at hbranch
    | table hlayout =>
        rw [hlayout] at hsize
        cases hsize

theorem scanned_branch_iff {displacement : Nat → Int}
    (hsize : op.layout.size? = some width)
    (hlayout : op.layout = .shortTarget ∨ op.layout = .target)
    (hsigned : ∀ word, word.length = width →
      displacement (value word) = signed word) :
    ((LittleEndian.split? width bs).map fun (n, rest) =>
        (Unlinked.branch ((start + width : Nat) + displacement n), rest)) =
          some (operand, rest) ↔
      ∃ front, bs = front ++ rest ∧
        Spelled symbols op (start + front.length) front operand := by
  simp only [Option.map_eq_some_iff, Prod.mk.injEq, Prod.exists,
    LittleEndian.split?_eq_some_iff]
  constructor
  · rintro ⟨_, _, ⟨word, hword, rfl, rfl⟩, rfl, rfl⟩
    refine ⟨word, rfl, ?_⟩
    rw [hsigned word hword, ← hword]
    exact .branch (by rw [hsize, hword]) hlayout
  · rintro ⟨front, rfl, hs⟩
    cases hs with
    | plain _ hinline =>
        rcases hlayout with hl | hl <;> simp [Opcode.inline?, hl] at hinline
    | branch hsize' =>
        have hwidth : width = front.length :=
          Option.some.inj (hsize.symm.trans hsize')
        exact ⟨_, rest, ⟨front, hwidth.symm, rfl, rfl⟩,
          by rw [hsigned front hwidth.symm, hwidth], rfl⟩
    | table hlayout' =>
        rw [hlayout'] at hsize
        cases hsize

theorem length_flatten_words {words : List (List UInt8)}
    (h : ∀ w ∈ words, w.length = width) :
    words.flatten.length = width * words.length := by
  rw [List.length_flatten, List.map_congr_left h, List.map_const',
    List.sum_replicate_nat, Nat.mul_comm]

theorem map_signed32_value {words : List (List UInt8)} (stop : Nat)
    (h : ∀ w ∈ words, w.length = 4) :
    ((words.map value).map fun n => (stop : Int) + signed32 n) =
      words.map fun w => stop + signed w := by
  rw [List.map_map]
  exact List.map_congr_left fun w hw => congrArg (fun x : Int => stop + x)
    (signed32_value (h w hw))

theorem scanned_table_iff (hlayout : op.layout = .switch) :
    scanOperand? symbols op start bs = some (operand, rest) ↔
      ∃ front, bs = front ++ rest ∧
        Spelled symbols op (start + front.length) front operand := by
  have hstop {head : List UInt8} {words : List (List UInt8)}
      (hhead : head.length = 4) (hlen : ∀ w ∈ words, w.length = 4) :
      start + (head ++ words.flatten).length =
        start + 4 + 4 * words.length := by
    rw [List.length_append, hhead, length_flatten_words hlen, Nat.add_assoc]
  unfold scanOperand?
  rw [hlayout]
  dsimp only
  constructor
  · intro h
    split at h
    · cases h
    · next count mid hcount =>
        obtain ⟨head, hhead, rfl, rfl⟩ :=
          LittleEndian.split?_eq_some_iff.1 hcount
        simp only [Option.map_eq_some_iff, Prod.mk.injEq, Prod.exists] at h
        obtain ⟨_, _, hmany, rfl, rfl⟩ := h
        obtain ⟨words, hwords, hlen, rfl, rfl⟩ :=
          LittleEndian.splitMany?_eq_some_iff.1 hmany
        refine ⟨head ++ words.flatten, by rw [List.append_assoc], ?_⟩
        rw [← hwords, map_signed32_value _ hlen, ← hstop hhead hlen]
        exact .table hlayout hhead hwords.symm hlen
  · rintro ⟨front, rfl, hs⟩
    cases hs with
    | plain hsize =>
        rw [hlayout] at hsize
        cases hsize
    | branch hsize =>
        rw [hlayout] at hsize
        cases hsize
    | @table head words _ hhead hwords hlen =>
        have hcount : LittleEndian.split? 4 (head ++ words.flatten ++ rest) =
            some (words.length, words.flatten ++ rest) :=
          LittleEndian.split?_eq_some_iff.2 ⟨head, hhead, List.append_assoc ..,
            hwords.symm⟩
        have hmany : LittleEndian.splitMany? 4 words.length
            (words.flatten ++ rest) =
            some (words.map value, rest) :=
          LittleEndian.splitMany?_eq_some_iff.2 ⟨words, rfl, hlen, rfl, rfl⟩
        rw [hcount, hstop hhead hlen]
        dsimp only
        rw [hmany, Option.map_some, map_signed32_value _ hlen]

end

theorem scanOperand?_eq_some_iff {symbols : Symbols} {op : Opcode} {start : Nat}
    {bs rest : List UInt8} {operand : Unlinked Int} :
    scanOperand? symbols op start bs = some (operand, rest) ↔
      ∃ front, bs = front ++ rest ∧
        Spelled symbols op (start + front.length) front operand := by
  cases hl : op.layout with
  | switch => exact scanned_table_iff hl
  | none =>
      unfold scanOperand?
      rw [hl]
      -- A word of no bytes is always there.
      exact @scanned_plain_iff _ _ _ 0 _ _ _ (fun _ => op.implied)
        (by rw [hl]; rfl) (fun _ => by rw [Opcode.inline?, hl])
  | shortTarget =>
      unfold scanOperand?
      rw [hl]
      exact scanned_branch_iff (by rw [hl]; rfl) (.inl hl)
        (fun _ h => signed8_value h)
  | target =>
      unfold scanOperand?
      rw [hl]
      exact scanned_branch_iff (by rw [hl]; rfl) (.inr hl)
        (fun _ h => signed32_value h)
  | _ =>
      unfold scanOperand?
      rw [hl]
      exact scanned_plain_iff (by rw [hl]; rfl)
        (fun _ => by rw [Opcode.inline?, hl])

theorem Spelled.width {symbols : Symbols} {op : Opcode} {stop : Nat}
    {front : List UInt8}
    {operand : Unlinked Int} (h : Spelled symbols op stop front operand) :
    op.layout.width operand.cases = front.length := by
  cases h with
  | plain hsize => rw [Layout.width, hsize, Option.getD_some]
  | branch hsize => rw [Layout.width, hsize, Option.getD_some]
  | table hlayout hcount hwords hlen =>
      rw [Layout.width, hlayout, List.length_append, hcount,
        length_flatten_words hlen]
      simp [Layout.size?, Unlinked.cases]

/-! ## Instructions -/

structure Spells (symbols : Symbols) (front : List UInt8)
    (d : Draft Int) : Prop where
  row : Opcode.lookup? d.op.lead d.op.code = some d.op
  size : d.size = front.length
  offset_le : d.offset ≤ maxOffset
  size_le : d.size ≤ maxOffset
  operand : ∃ tail, front = d.op.bytes ++ tail ∧
    Spelled symbols d.op (d.offset + d.size) tail d.operand

theorem Spells.size_pos {symbols : Symbols} {front : List UInt8} {d : Draft Int}
    (h : Spells symbols front d) : 0 < d.size := by
  obtain ⟨tail, hfront, -⟩ := h.operand
  rw [h.size, hfront, List.length_append, Opcode.length_bytes]
  exact Nat.add_pos_left d.op.length_pos _

theorem scanOne_eq_ok_iff {symbols : Symbols} {offset : Nat}
    {bs rest : List UInt8} {d : Draft Int} :
    scanOne symbols offset bs = .ok (d, rest) ↔
      d.offset = offset ∧ ∃ front, bs = front ++ rest ∧
        Spells symbols front d := by
  constructor
  · intro h
    unfold scanOne at h
    split at h
    · cases h
    · next lead code mid hsplit =>
        split at h
        · cases h
        · next op hrow =>
            obtain ⟨rfl, rfl⟩ := lookup?_bytes hrow
            split at h
            · cases h
            · next operand tail hscan =>
                dsimp only at h
                split at h
                · next hle =>
                    simp only [Bool.and_eq_true, decide_eq_true_eq] at hle
                    simp only [Except.ok.injEq, Prod.mk.injEq] at h
                    obtain ⟨rfl, rfl⟩ := h
                    obtain ⟨front, rfl, hs⟩ := scanOperand?_eq_some_iff.1 hscan
                    have hwidth := hs.width
                    refine ⟨rfl, op.bytes ++ front, ?_, hrow, ?_, hle.1, hle.2,
                      front, rfl, ?_⟩
                    · rw [(splitOpcode?_eq_some_iff hrow).1 hsplit,
                        List.append_assoc]
                    · rw [hwidth, List.length_append, Opcode.length_bytes]
                    · rwa [hwidth, ← Nat.add_assoc]
                · cases h
  · rintro ⟨rfl, front, rfl, h⟩
    obtain ⟨tail, hfront, hs⟩ := h.operand
    have hsize : d.size = d.op.length + tail.length := by
      rw [h.size, hfront, List.length_append, Opcode.length_bytes]
    have hsplit := (splitOpcode?_eq_some_iff h.row).2
      (show front ++ rest =
        d.op.bytes ++ (tail ++ rest) by rw [hfront, List.append_assoc])
    have hscan : scanOperand? symbols d.op (d.offset + d.op.length)
        (tail ++ rest) =
        some (d.operand, rest) :=
      scanOperand?_eq_some_iff.2 ⟨tail, rfl, by rwa [Nat.add_assoc, ← hsize]⟩
    unfold scanOne
    rw [hsplit]
    dsimp only
    rw [h.row]
    dsimp only
    rw [hscan]
    dsimp only
    rw [hs.width, ← hsize, if_pos (by simp [h.offset_le, h.size_le])]

/-- The bytes spell a row of instructions that starts at an offset.
`scan_eq_ok_iff` says that scanning decides this, and nothing behind it speaks
of scanning again. -/
def Scans (symbols : Symbols) (offset : Nat) (bs : List UInt8) :
    List (Draft Int) → Prop
  | [] => bs = []
  | d :: ds => d.offset = offset ∧ ∃ front rest, bs = front ++ rest ∧
    Spells symbols front d ∧
      Scans symbols (offset + d.size) rest ds

theorem Scans.of_nil {symbols : Symbols} {offset : Nat} {ds : List (Draft Int)}
    (h : Scans symbols offset [] ds) : ds = [] := by
  cases ds with
  | nil => rfl
  | cons d ds =>
      obtain ⟨-, front, rest, hbs, hd, -⟩ := h
      have hpos := hd.size_pos
      rw [hd.size, (List.append_eq_nil_iff.1 hbs.symm).1] at hpos
      cases hpos

theorem scan_onto_eq_ok_iff {symbols : Symbols} {offset : Nat} {bs : List UInt8}
    {done all : Array (Draft Int)} :
    scan symbols offset bs done = .ok all ↔
      ∃ ds, all = done ++ ds.toArray ∧ Scans symbols offset bs ds := by
  fun_induction scan symbols offset bs done with
  | case1 offset bs done hempty =>
      rw [List.isEmpty_iff.1 hempty]
      constructor
      · rintro ⟨⟩
        exact ⟨[], by simp, rfl⟩
      · rintro ⟨ds, rfl, hs⟩
        rw [hs.of_nil, Array.append_empty]
  | case2 offset bs done hne fault hone =>
      refine ⟨fun h => (by cases h), ?_⟩
      rintro ⟨ds, -, hs⟩
      cases ds with
      | nil => exact absurd (List.isEmpty_iff.2 hs) hne
      | cons d ds =>
          obtain ⟨hoffset, front, rest, hbs, hd, -⟩ := hs
          rw [scanOne_eq_ok_iff.2 ⟨hoffset, front, hbs, hd⟩] at hone
          cases hone
  | case3 offset bs done hne d rest hone ih =>
      rw [ih]
      constructor
      · rintro ⟨ds, rfl, hs⟩
        obtain ⟨hoffset, front, hbs, hd⟩ := scanOne_eq_ok_iff.1 hone
        exact ⟨d :: ds, by simp, hoffset, front, rest, hbs, hd, hs⟩
      · rintro ⟨ds, rfl, hs⟩
        cases ds with
        | nil => exact absurd (List.isEmpty_iff.2 hs) hne
        | cons e ds =>
            obtain ⟨hoffset, front, rest', hbs, he, hs⟩ := hs
            have hone' := scanOne_eq_ok_iff.2 ⟨hoffset, front, hbs, he⟩
            rw [hone, Except.ok.injEq, Prod.mk.injEq] at hone'
            obtain ⟨rfl, rfl⟩ := hone'
            exact ⟨ds, by simp, hs⟩

theorem scan_eq_ok_iff {symbols : Symbols} {offset : Nat} {bs : List UInt8}
    {all : Array (Draft Int)} :
    scan symbols offset bs #[] = .ok all ↔
    Scans symbols offset bs all.toList := by
  rw [scan_onto_eq_ok_iff]
  constructor
  · rintro ⟨ds, rfl, hs⟩
    rwa [Array.empty_append]
  · intro hs
    exact ⟨all.toList, by rw [Array.empty_append], hs⟩

end Code

end CilAudit
