import CilAudit.Proofs.Reading
import Mathlib.Algebra.BigOperators.Fin
import Mathlib.Order.Bounds.Basic

/-!
# What 7-bit integers denote

A writer spells a number in as few groups of seven bits as it takes, and the
reader gets it back: `encoded_number_read_back` says so for every 32-bit
number, wherever it stands.

A reader must also do something with bytes that no writer left. There are three
ways in which they can go on: the high bit is missing from one of the first
five bytes, it is on all five, or they end before that is settled. Each has one
answer (`read_closed`, `read_unending`, `read_cutOff`). The bytes of the first
way denote a number, their `weight`, and for up to four bytes the value is that
number. The fifth byte has room for three bits more than a 32-bit word, and
what it holds there is dropped, since the reader counts bytes and never looks
at the size of the number. `Spills` is that case, and the only one in which a
promise to yield the number or refuse is broken (`read_faithful_iff`).
-/

namespace CilAudit.SevenBit

/-! ## Numbers -/

/-- The number that bytes denote, seven bits each, the lowest first, as a sum
over the bytes. `denoted` computes it; this is the definition that says what is
computed. -/
def weight (bs : List UInt8) : Nat :=
  ∑ i : Fin bs.length, bs[i].toNat % 128 * 128 ^ (i : Nat)

theorem denoted_eq_weight (bs : List UInt8) : denoted bs = weight bs := by
  induction bs with
  | nil => rfl
  | cons b bs ih =>
      have hsum : weight (b :: bs) = b.toNat % 128 * 128 ^ 0 +
          ∑ i : Fin bs.length, bs[i].toNat % 128 * 128 ^ ((i : Nat) + 1) :=
        Fin.sum_univ_succ _
      have hshift : ∑ i : Fin bs.length,
          bs[i].toNat % 128 * 128 ^ ((i : Nat) + 1) =
          128 * weight bs := by
        rw [weight, Finset.mul_sum]
        refine Finset.sum_congr rfl fun i _ => ?_
        rw [Nat.pow_succ, Nat.mul_comm 128, Nat.mul_assoc]
      rw [denoted, ih, hsum, hshift, Nat.pow_zero, Nat.mul_one]

theorem denoted_append (bs cs : List UInt8) :
    denoted (bs ++ cs) = denoted bs + 128 ^ bs.length * denoted cs := by
  induction bs with
  | nil => simp [denoted]
  | cons b bs ih =>
      rw [List.cons_append, denoted, denoted, ih, List.length_cons,
        Nat.pow_succ, Nat.mul_add, Nat.mul_comm (128 ^ bs.length) 128,
        Nat.mul_assoc, Nat.add_assoc]

theorem denoted_lt (bs : List UInt8) : denoted bs < 128 ^ bs.length := by
  induction bs with
  | nil => simp [denoted]
  | cons b bs ih =>
      have hb : b.toNat % 128 < 128 := Nat.mod_lt _ (by decide)
      rw [denoted, List.length_cons, Nat.pow_succ]
      omega

theorem weight_concat {bs : List UInt8} {b : UInt8} (hb : b < 128) :
    weight (bs ++ [b]) = denoted bs + 128 ^ bs.length * b.toNat := by
  have hlow : b.toNat < 128 := hb
  have hdigit : denoted [b] = b.toNat := by
    simp only [denoted]
    omega
  rw [← denoted_eq_weight, denoted_append, hdigit]

/-- Whatever stands in front of a number and behind it, it takes the least
number of bytes that can denote it, never more than five, and is read back from
them. The cursor ends right behind the last one. -/
theorem encoded_number_read_back (v : UInt32) (before after : List UInt8) :
    IsLeast {k | 1 ≤ k ∧ v.toNat < 128 ^ k} (encode v).length ∧
    (encode v).length ≤ 5 ∧
      read ⟨(before ++ encode v ++ after).toArray, before.length⟩ = (.ok v,
        ⟨(before ++ encode v ++ after).toArray,
          before.length + (encode v).length⟩) := by
  have hpos : 1 ≤ (encode v).length :=
    List.length_pos_iff.2 (encodeNat_ne_nil _)
  refine ⟨⟨⟨hpos, ?_⟩, ?_⟩, length_encode_le v, ?_⟩
  · exact (length_encodeNat_le_iff hpos).1 (Nat.le_refl _)
  · rintro k ⟨hk, hlt⟩
    exact (length_encodeNat_le_iff hk).2 hlt
  · have hread := takes_read v before after
    simpa [Cursor.between] using hread

/-! ## Bytes that nobody wrote -/

/-- Either some byte is the first without the high bit, or all have it. -/
theorem closed_or_open (bs : List UInt8) :
    (∃ front back, bs = front ++ back ∧ Closed front) ∨ ∀ b ∈ bs, 128 ≤ b := by
  induction bs with
  | nil => exact Or.inr (by simp)
  | cons b bs ih =>
      rcases UInt8.lt_or_le b 128 with hlt | hle
      · exact Or.inl ⟨[b], bs, rfl, [], b, rfl, by simp, hlt⟩
      · rcases ih with ⟨front, back, rfl, cont, last, rfl, hcont, hlast⟩ | hopen
        · refine Or.inl ⟨b :: (cont ++ [last]), back, rfl, b :: cont, last, rfl,
            ?_, hlast⟩
          exact List.forall_mem_cons.2 ⟨hle, hcont⟩
        · exact Or.inr (List.forall_mem_cons.2 ⟨hle, hopen⟩)

/-- Where five or more bytes have the high bit, the first five have. -/
theorem exists_five {bs : List UInt8} (hlen : 5 ≤ bs.length)
    (h : ∀ b ∈ bs, 128 ≤ b) :
    ∃ five more, bs = five ++ more ∧ five.length = 5 ∧ ∀ b ∈ five, 128 ≤ b := by
  refine ⟨bs.take 5, bs.drop 5, (List.take_append_drop 5 bs).symm, ?_, ?_⟩
  · rw [List.length_take]
    omega
  · intro b hb
    exact h b (List.mem_of_mem_take hb)

theorem Closed.exists_five {bs : List UInt8} (h : Closed bs)
    (hlong : 5 < bs.length) :
    ∃ five more, bs = five ++ more ∧ five.length = 5 ∧ ∀ b ∈ five, 128 ≤ b := by
  obtain ⟨cont, last, rfl, hcont, -⟩ := h
  rw [List.length_append, List.length_singleton] at hlong
  obtain ⟨five, more, rfl, hfive, hhigh⟩ :=
    SevenBit.exists_five (by omega) hcont
  exact ⟨five, more ++ [last], List.append_assoc _ _ _, hfive, hhigh⟩

/-- How bytes can go on: one of the first five is the first without the high
bit, or all five have it, or there are fewer and all have it. The reader does
one thing in each case: it yields, refuses, or runs out of bytes. -/
theorem opening_cases (rest : List UInt8) :
    (∃ bs back, rest = bs ++ back ∧ Closed bs ∧ bs.length ≤ 5) ∨
      (∃ bs back, rest = bs ++ back ∧ bs.length = 5 ∧ ∀ b ∈ bs, 128 ≤ b) ∨
      (rest.length < 5 ∧ ∀ b ∈ rest, 128 ≤ b) := by
  rcases closed_or_open rest with ⟨bs, back, rfl, hclosed⟩ | hopen
  · rcases Nat.lt_or_ge 5 bs.length with hlong | hshort
    · obtain ⟨five, more, rfl, hfive, hhigh⟩ := hclosed.exists_five hlong
      exact Or.inr (Or.inl ⟨five, more ++ back, List.append_assoc _ _ _,
        hfive, hhigh⟩)
    · exact Or.inl ⟨bs, back, rfl, hclosed, hshort⟩
  · rcases Nat.lt_or_ge rest.length 5 with hshort | hlong
    · exact Or.inr (Or.inr ⟨hshort, hopen⟩)
    · exact Or.inr (Or.inl (exists_five hlong hopen))

/-- A byte with the high bit leaves one byte fewer to go. -/
theorem groups_refused {b : UInt8} {front rest : List UInt8} {left : Nat}
    {fault : Fault} {c : Cursor} (hb : 128 ≤ b)
    (h : groups left (.between (front ++ [b]) rest) = (.error fault, c)) :
    groups (left + 1) (.between front (b :: rest)) = (.error fault, c) := by
  have hstep := (Reader.takes_byte b).bind_apply
    (fun b => if b < 128 then pure [b] else groups left >>= fun more =>
      pure (b :: more)) front rest
  refine hstep.trans ?_
  rw [if_neg (UInt8.not_lt.2 hb), Reader.bind_apply_of_error h]

theorem groups_unending {bs : List UInt8} (h : ∀ b ∈ bs, 128 ≤ b)
    (front rest : List UInt8) :
    groups bs.length (.between front (bs ++ rest)) =
      (.error (.malformed (.sevenBitOverflow 35)),
        .between (front ++ bs) rest) := by
  induction bs generalizing front with
  | nil =>
      rw [List.append_nil]
      rfl
  | cons b bs ih =>
      rw [List.forall_mem_cons] at h
      have hrest := ih h.2 (front ++ [b])
      rw [List.append_assoc, List.singleton_append] at hrest
      exact groups_refused h.1 hrest

theorem groups_cutOff {bs : List UInt8} {left : Nat} (hlen : bs.length < left)
    (h : ∀ b ∈ bs, 128 ≤ b) (front : List UInt8) :
    groups left (.between front bs) =
      (.error .outOfBounds, .between (front ++ bs) []) := by
  induction left generalizing front bs with
  | zero => simp at hlen
  | succ left ih =>
      cases bs with
      | nil =>
          have hbyte : Reader.byte (.between front []) =
              (.error .outOfBounds, .between front []) := by
            simp [Reader.byte, Cursor.between]
          rw [List.append_nil]
          exact Reader.bind_apply_of_error hbyte
      | cons b bs =>
          rw [List.forall_mem_cons] at h
          have hrest := ih (Nat.lt_of_succ_lt_succ hlen) h.2 (front ++ [b])
          rw [List.append_assoc, List.singleton_append] at hrest
          exact groups_refused h.1 hrest

/-! ## The three answers -/

section

variable {before rest bs back : List UInt8}

theorem read_closed (h : Closed bs) (hlen : bs.length ≤ 5) :
    read (.between before (bs ++ back)) =
      (.ok (UInt32.ofNat (weight bs)), .between (before ++ bs) back) := by
  rw [← denoted_eq_weight]
  exact (takes_groups h hlen).yield (fun bs => UInt32.ofNat (denoted bs))
    before back

theorem read_unending (hlen : bs.length = 5) (h : ∀ b ∈ bs, 128 ≤ b) :
    read (.between before (bs ++ back)) =
      (.error (.malformed (.sevenBitOverflow 35)),
        .between (before ++ bs) back) := by
  have hgroups := groups_unending h before back
  rw [hlen] at hgroups
  exact Reader.bind_apply_of_error hgroups

theorem read_cutOff (hlen : rest.length < 5) (h : ∀ b ∈ rest, 128 ≤ b) :
    read (.between before rest) =
      (.error .outOfBounds, .between (before ++ rest) []) :=
  Reader.bind_apply_of_error (groups_cutOff hlen h before)

end

/-! ## Numbers that do not fit -/

/-- The fifth byte ends a number and holds more than the four bits that are
left of 32. Such bytes denote a number that no 32-bit word is. -/
def Spills (rest : List UInt8) : Prop :=
  ∃ cont last back, rest = cont ++ last :: back ∧ cont.length = 4 ∧
    (∀ b ∈ cont, 128 ≤ b) ∧
    16 ≤ last ∧ last < 128

/-- What a reader of 32-bit numbers promises about the bytes `rest` behind
`before`: a value is the number, and bytes that denote no 32-bit number are
refused. -/
structure Faithful (before rest : List UInt8) : Prop where
  /-- A value is the number that the bytes taken for it denote. -/
  value : ∀ v c, read (.between before rest) = (.ok v, c) →
    v.toNat = weight (rest.take (c.pos - before.length))
  /-- A number past 32 bits is refused. -/
  tooLarge : ∀ bs back, rest = bs ++ back → Closed bs → 2 ^ 32 ≤ weight bs →
    ∃ flaw, (read (.between before rest)).1 = .error (.malformed flaw)
  /-- So are five bytes that do not end a number. -/
  unending : ∀ bs back, rest = bs ++ back → bs.length = 5 →
    (∀ b ∈ bs, 128 ≤ b) →
    ∃ flaw, (read (.between before rest)).1 = .error (.malformed flaw)
  /-- Fewer bytes that do not end a number are too few. -/
  cutOff : rest.length < 5 → (∀ b ∈ rest, 128 ≤ b) →
    (read (.between before rest)).1 = .error .outOfBounds

/-- Four bytes never denote too much, and five only if the last spills. -/
theorem spills_of_closed {bs back : List UInt8} (h : Closed bs)
    (hlen : bs.length ≤ 5)
    (hlarge : 2 ^ 32 ≤ weight bs) : Spills (bs ++ back) := by
  obtain ⟨cont, last, rfl, hcont, hlast⟩ := h
  have hbound := denoted_lt cont
  have hlow : last.toNat < 128 := hlast
  rw [weight_concat hlast] at hlarge
  rw [List.length_append, List.length_singleton] at hlen
  have hfour : cont.length = 4 := by
    by_contra hne
    have hpow : 128 ^ cont.length ≤ 128 ^ 3 :=
      Nat.pow_le_pow_right (by decide) (by omega)
    have hmul : 128 ^ cont.length * last.toNat ≤ 128 ^ 3 * 127 :=
      Nat.mul_le_mul hpow (by omega)
    omega
  rw [hfour] at hlarge hbound
  have hhigh : 16 ≤ last.toNat := by omega
  exact ⟨cont, last, back, by simp, hfour, hcont, hhigh, hlast⟩

theorem Spills.closed {rest : List UInt8} (h : Spills rest) :
    ∃ bs back, rest = bs ++ back ∧ Closed bs ∧ bs.length = 5 ∧
      2 ^ 32 ≤ weight bs := by
  obtain ⟨cont, last, back, rfl, hfour, hcont, hlarge, hlast⟩ := h
  have hhigh : 16 ≤ last.toNat := hlarge
  refine ⟨cont ++ [last], back,
    by simp, ⟨cont, last, rfl, hcont, hlast⟩, by simp [hfour], ?_⟩
  rw [weight_concat hlast, hfour]
  omega

theorem not_faithful_of_spills {before rest : List UInt8} (h : Spills rest) :
    ¬ Faithful before rest := by
  intro hfaithful
  obtain ⟨bs, back, rfl, hclosed, hfive, hlarge⟩ := h.closed
  obtain ⟨flaw, hread⟩ := hfaithful.tooLarge bs back rfl hclosed hlarge
  rw [read_closed hclosed (Nat.le_of_eq hfive)] at hread
  cases hread

theorem faithful_of_not_spills {before rest : List UInt8} (h : ¬ Spills rest) :
    Faithful before rest where
  value v c hread := by
    rcases opening_cases rest with
      ⟨bs, back, rfl, hclosed, hlen⟩ | ⟨bs, back, rfl, hfive,
        hopen⟩ | ⟨hlen, hopen⟩
    · have hsmall : weight bs < 2 ^ 32 := by
        by_contra hlarge
        exact h (spills_of_closed hclosed hlen (Nat.le_of_not_lt hlarge))
      rw [read_closed hclosed hlen] at hread
      cases hread
      have htaken : (bs ++ back).take
          ((Cursor.between (before ++ bs) back).pos - before.length) =
          bs := by simp [Cursor.between]
      rw [htaken]
      exact UInt32.toNat_ofNat_of_lt hsmall
    · rw [read_unending hfive hopen] at hread
      cases hread
    · rw [read_cutOff hlen hopen] at hread
      cases hread
  tooLarge bs back hrest hclosed hlarge := by
    subst hrest
    rcases Nat.lt_or_ge 5 bs.length with hlong | hshort
    · obtain ⟨five, more, rfl, hfive, hhigh⟩ := hclosed.exists_five hlong
      rw [List.append_assoc]
      exact ⟨_, congrArg Prod.fst (read_unending hfive hhigh)⟩
    · exact absurd (spills_of_closed hclosed hshort hlarge) h
  unending bs back hrest hfive hopen := by
    subst hrest
    exact ⟨_, congrArg Prod.fst (read_unending hfive hopen)⟩
  cutOff hlen hopen := congrArg Prod.fst (read_cutOff hlen hopen)

/-- The reader keeps its promises exactly if no fifth byte spills. In any case
it takes the bytes up to the first without the high bit, if they are at most
five, and yields what their number leaves modulo `2 ^ 32`; so where they spill,
it yields a wrong number and refuses nothing. -/
theorem read_faithful_iff (before rest : List UInt8) :
    (Faithful before rest ↔ ¬ Spills rest) ∧
      ∀ bs back, rest = bs ++ back → Closed bs → bs.length ≤ 5 →
        ∃ v, read (.between before rest) =
          (.ok v, .between (before ++ bs) back) ∧
          v.toNat = weight bs % 2 ^ 32 := by
  refine ⟨⟨fun hfaithful hspills => not_faithful_of_spills hspills hfaithful,
    faithful_of_not_spills⟩, ?_⟩
  intro bs back hrest hclosed hlen
  subst hrest
  exact ⟨_, read_closed hclosed hlen, UInt32.toNat_ofNat'⟩

/-- Thirty-five bits are all set in these five bytes, and thirty-two of them
come back. -/
theorem spilled_bits_lost :
    read (.between [] [0xFF, 0xFF, 0xFF, 0xFF, 0x7F]) =
        (.ok 0xFFFFFFFF, .between [0xFF, 0xFF, 0xFF, 0xFF, 0x7F] []) ∧
      weight [0xFF, 0xFF, 0xFF, 0xFF, 0x7F] = 2 ^ 35 - 1 ∧
      ¬ Faithful [] [0xFF, 0xFF, 0xFF, 0xFF, 0x7F] := by
  have hspills : Spills [0xFF, 0xFF, 0xFF, 0xFF, 0x7F] :=
    ⟨[0xFF, 0xFF, 0xFF, 0xFF], 0x7F, [], rfl, rfl,
      by decide +kernel, by decide, by decide⟩
  exact ⟨rfl, rfl, not_faithful_of_spills hspills⟩

end CilAudit.SevenBit
