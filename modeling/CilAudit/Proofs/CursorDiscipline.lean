import CilAudit.Proofs.Geometry

/-!
# What a cursor does under any operations

Whoever holds a cursor may do anything with it in any order, with any machine
words as arguments, and go on after a refusal. `Operation` lists all there is
to do, and `Cursor.after` does a row of operations one after the other.

What is asked of a single operation is collected in `Operation.Obeys`: the
cursor stays inside its data, only a seek goes back, the simple operations move
by what they were asked for or not at all, and the others end somewhere ahead.
`Operation.Disciplined` asks besides that there is a cursor left to speak of,
and there one operation fails. A step is added to the position before the sum
is compared with anything, so one that leads past the last address is not
refused as too long but stops the program. A read of as many bytes is refused,
since its bound is compared without such a sum.

`cursor_disciplined_iff` says that this is the only exception, whatever was
done before: an operation is disciplined exactly if it does not overrun, and a
row of operations comes to its end exactly if none of them does.

Readers of blobs step over bytes too, and a fault of theirs may be dropped by
whoever asked. The last section shows that an overflow is never among them.
-/

namespace CilAudit

/-! ## Operations -/

/-- The numbers of fixed size that can be read. Floating point numbers are read
as their bits, so that the discipline of reading them is that of words. -/
inductive Scalar where
  | uint8
  | int8
  | uint16
  | int16
  | uint32
  | int32
  | uint64
  | int64
  | float32
  | float64
deriving DecidableEq, Repr

namespace Scalar

def width : Scalar → Nat
  | .uint8 | .int8 => 1
  | .uint16 | .int16 => 2
  | .uint32 | .int32 | .float32 => 4
  | .uint64 | .int64 | .float64 => 8

def Number : Scalar → Type
  | .uint8 => UInt8
  | .int8 => Int8
  | .uint16 => UInt16
  | .int16 => Int16
  | .uint32 | .float32 => UInt32
  | .int32 => Int32
  | .uint64 | .float64 => UInt64
  | .int64 => Int64

def read : (s : Scalar) → Reader s.Number
  | .uint8 => Reader.uint8
  | .int8 => Reader.int8
  | .uint16 => Reader.uint16
  | .int16 => Reader.int16
  | .uint32 | .float32 => Reader.uint32
  | .int32 => Reader.int32
  | .uint64 | .float64 => Reader.uint64
  | .int64 => Reader.int64

end Scalar

/-- What can be done with a cursor. Positions, steps and lengths are machine
words, and any word may be asked for: nothing here depends on a caller that
asks for sensible ones. -/
inductive Operation where
  | seek (target : UInt64)
  | advance (step : UInt64)
  | peek
  | scalar (s : Scalar)
  | bytes (length : UInt64)
  | sevenBit
  | text
  /-- The payload of a value tagged with a code. -/
  | coded (code : UInt32)
  /-- The payload of a value tagged with the name of its type. -/
  | named (name : String)

namespace Operation

def Yield : Operation → Type
  | .seek _ | .advance _ => Unit
  | .peek => UInt8
  | .scalar s => s.Number
  | .bytes _ => List UInt8
  | .sevenBit => UInt32
  | .text => String
  | .coded _ | .named _ => Resource.Value

def read : (op : Operation) → Reader op.Yield
  | .seek target => Reader.seek target.toNat
  | .advance step => Reader.advance step.toNat
  | .peek => Reader.peek
  | .scalar s => s.read
  | .bytes length => Reader.bytes length.toNat
  | .sevenBit => SevenBit.read
  | .text => Reader.textToZero
  | .coded code => Resource.Value.readCoded code
  | .named name => Resource.Value.readNamed name

/-- Whether an operation yields something. -/
def Succeeds (op : Operation) (c : Cursor) : Prop :=
  ∃ a, (op.read c).1 = .ok a

/-- The cursor after an operation, successful or refused. There is none when
the operation has stopped the program. -/
def next (op : Operation) (c : Cursor) : Option Cursor :=
  match op.read c with
  | (.error .overflow, _) => none
  | (_, c') => some c'

/-- How many bytes an operation is asked to pass, where it is asked for a
number of them. Such an operation passes all of them or refuses, and refuses
only if they are not there. -/
def length? : Operation → Option Nat
  | .advance step => some step.toNat
  | .scalar s => some s.width
  | .bytes length => some length.toNat
  | _ => none

/-- Whether an operation does all it is asked for or nothing. The others are
made of several reads, and keep what the first of them took when a later one is
refused. -/
def isSimple : Operation → Bool
  | .seek _ | .advance _ | .peek | .scalar _ | .bytes _ => true
  | .sevenBit | .text | .coded _ | .named _ => false

end Operation

/-- `c'` is a place in the data of `c`: the data is the same, and the position
is that of a byte of it or the one behind the last. -/
structure Cursor.Stays (c c' : Cursor) : Prop where
  data : c'.data = c.data
  inside : c'.pos ≤ c.data.size

theorem Cursor.Reaches.stays {c c' : Cursor} (h : c.Reaches c')
    (hc : c.pos ≤ c.data.size) : c.Stays c' :=
  ⟨h.data, h.data ▸ h.inside hc⟩

theorem Cursor.Stays.trans {c c' c'' : Cursor} (h : c.Stays c')
    (h' : c'.Stays c'') : c.Stays c'' :=
  ⟨h'.data.trans h.data, h.data ▸ h'.inside⟩

theorem Cursor.Stays.pos_le {c c' : Cursor} (h : c.Stays c') :
    c'.pos ≤ c'.data.size :=
  h.data ▸ h.inside

namespace Operation

/-- What is expected of an operation that takes `c` to `c'`, one field for each
rule. That there is a `c'` at all is not among them. -/
structure Obeys (op : Operation) (c c' : Cursor) : Prop where
  stays : c.Stays c'
  /-- Only a seek goes back. -/
  forward : (∀ target, op ≠ .seek target) → c.pos ≤ c'.pos
  /-- A simple operation that yields nothing is refused for the end of the data
  and leaves the cursor where it is. -/
  kept : op.isSimple = true → ¬op.Succeeds c →
    (op.read c).1 = .error .outOfBounds ∧ c'.pos = c.pos
  /-- A number of bytes is passed exactly if there are as many. -/
  passed : ∀ n, op.length? = some n →
    (op.Succeeds c ↔ n ≤ c.remaining) ∧ (op.Succeeds c → c'.pos = c.pos + n)

/-- An operation that leaves a cursor behind, and the cursor that is expected
of it. Without the first half an operation that stops the program would obey
every rule. -/
def Disciplined (op : Operation) (c : Cursor) : Prop :=
  ∃ c', op.next c = some c' ∧ op.Obeys c c'

/-- A step whose target is past the last address. Its position and its length
are both words, but their sum is none. -/
def Overruns (op : Operation) (c : Cursor) : Prop :=
  ∃ step, op = .advance step ∧ Reader.addressSpan ≤ c.pos + step.toNat

end Operation

/-- The cursor after a row of operations, if none of them stops the program. A
refused operation does not end the row: the next one goes on from where it left
the cursor. -/
def Cursor.after (c : Cursor) (ops : List Operation) : Option Cursor :=
  ops.foldlM (fun c op => op.next c) c

/-! ## Readers that pass a number of bytes or none -/

namespace Reader

variable {α β : Type} {c : Cursor} {n : Nat}

/-- `m` passes `n` bytes if there are as many, and is refused without a move
otherwise. This is what the simple operations have in common, apart from those
that are asked for no number of bytes. -/
def PassesAt (m : Reader α) (n : Nat) (c : Cursor) : Prop :=
  (c.pos + n ≤ c.data.size ∧ ∃ a, m c = (.ok a, c.moveTo (c.pos + n))) ∨
    (c.data.size < c.pos + n ∧ m c = (.error .outOfBounds, c))

theorem PassesAt.yield {m : Reader α} (h : PassesAt m n c) (f : α → β) :
    PassesAt (m >>= fun a => pure (f a)) n c := by
  rcases h with ⟨hle, a, hm⟩ | ⟨hlt, hm⟩
  · exact Or.inl ⟨hle, f a, bind_apply_of_ok hm⟩
  · exact Or.inr ⟨hlt, bind_apply_of_error hm⟩

theorem advances_of_passesAt {m : Reader α} (h : ∀ c, PassesAt m n c) :
    Advances m := by
  intro c
  rcases h c with ⟨hle, a, hm⟩ | ⟨hlt, hm⟩
  · rw [hm]
    exact ⟨.moveTo (Nat.le_add_right _ _) fun _ => hle, nofun⟩
  · rw [hm]
    exact ⟨.refl c, nofun⟩

theorem passesAt_bytes (n : Nat) (c : Cursor) : PassesAt (bytes n) n c := by
  unfold PassesAt bytes Cursor.window?
  rcases Nat.lt_or_ge c.data.size (c.pos + n) with hlt | hle
  · rw [if_neg (Nat.not_le_of_lt hlt)]
    exact Or.inr ⟨hlt, rfl⟩
  · rw [if_pos hle]
    exact Or.inl ⟨hle, _, rfl⟩

theorem passesAt_word (width : Nat) (c : Cursor) :
    PassesAt (word width) width c :=
  (passesAt_bytes width c).yield LittleEndian.value

/-- A step inside the address space passes its bytes or is refused, like a read
of as many bytes. The hypothesis is the whole difference between the two. -/
theorem passesAt_advance (h : c.pos + n < addressSpan) :
    PassesAt (advance n) n c := by
  unfold PassesAt advance
  dsimp only
  rw [if_neg (Nat.not_le_of_lt h)]
  rcases Nat.lt_or_ge c.data.size (c.pos + n) with hlt | hle
  · rw [if_neg (Nat.not_le_of_lt hlt)]
    exact Or.inr ⟨hlt, rfl⟩
  · rw [if_pos hle]
    exact Or.inl ⟨hle, _, rfl⟩

end Reader

namespace Scalar

theorem passesAt_read (s : Scalar) (c : Cursor) :
    Reader.PassesAt s.read s.width c := by
  cases s with
  | uint8 => exact (Reader.passesAt_word 1 c).yield UInt8.ofNat
  | int8 =>
      exact ((Reader.passesAt_word 1 c).yield UInt8.ofNat).yield UInt8.toInt8
  | uint16 => exact (Reader.passesAt_word 2 c).yield UInt16.ofNat
  | int16 =>
      exact ((Reader.passesAt_word 2 c).yield UInt16.ofNat).yield UInt16.toInt16
  | uint32 | float32 => exact (Reader.passesAt_word 4 c).yield UInt32.ofNat
  | int32 =>
      exact ((Reader.passesAt_word 4 c).yield UInt32.ofNat).yield UInt32.toInt32
  | uint64 | float64 => exact (Reader.passesAt_word 8 c).yield UInt64.ofNat
  | int64 =>
      exact ((Reader.passesAt_word 8 c).yield UInt64.ofNat).yield UInt64.toInt64

theorem advances_read (s : Scalar) : Reader.Advances s.read :=
  Reader.advances_of_passesAt s.passesAt_read

end Scalar

/-! ## Values -/

namespace Resource

open Reader (Advances)

theorem advances_readBlock : Advances readBlock :=
  (Scalar.advances_read .uint32).bind fun length =>
    Reader.advances_bytes length.toNat

theorem advances_readChar : Advances readChar := by
  refine (Scalar.advances_read .uint16).bind fun unit => ?_
  split
  · exact Reader.advances_pure _
  · exact Reader.advances_fail nofun

theorem Value.advances_readPayload (kind : Kind) :
    Advances (readPayload kind) := by
  cases kind with
  | null => exact Reader.advances_pure _
  | string => exact advances_readText.yield Value.string
  | boolean =>
      exact (Scalar.advances_read .uint8).yield fun n : UInt8 =>
        Value.boolean (0 < n)
  | char => exact advances_readChar.yield Value.char
  | byte => exact (Scalar.advances_read .uint8).yield Value.byte
  | sbyte => exact (Scalar.advances_read .int8).yield Value.sbyte
  | int16 => exact (Scalar.advances_read .int16).yield Value.int16
  | uint16 => exact (Scalar.advances_read .uint16).yield Value.uint16
  | int32 => exact (Scalar.advances_read .int32).yield Value.int32
  | uint32 => exact (Scalar.advances_read .uint32).yield Value.uint32
  | int64 => exact (Scalar.advances_read .int64).yield Value.int64
  | uint64 => exact (Scalar.advances_read .uint64).yield Value.uint64
  | single => exact (Scalar.advances_read .uint32).yield Value.single
  | double => exact (Scalar.advances_read .uint64).yield Value.double
  | decimal =>
      refine (Scalar.advances_read .int32).bind fun lo => ?_
      refine (Scalar.advances_read .int32).bind fun mid => ?_
      refine (Scalar.advances_read .int32).bind fun hi => ?_
      exact (Scalar.advances_read .int32).yield fun flags =>
        Value.decimal lo mid hi flags
  | dateTime => exact (Scalar.advances_read .int64).yield Value.dateTime
  | timeSpan => exact (Scalar.advances_read .int64).yield Value.timeSpan
  | byteArray => exact advances_readBlock.yield Value.byteArray
  | stream => exact advances_readBlock.yield Value.stream

theorem Value.advances_readCoded (code : UInt32) :
    Advances (readCoded code) := by
  unfold readCoded
  split
  · exact advances_readPayload _
  · split <;> exact Reader.advances_fail nofun

theorem Value.advances_readNamed (name : String) :
    Advances (readNamed name) := by
  unfold readNamed
  split
  · exact advances_readPayload _
  · exact Reader.advances_fail nofun

end Resource

/-! ## One operation -/

namespace Operation

variable {op : Operation} {c : Cursor}

theorem next_eq_some {result : Except Fault op.Yield} {c' : Cursor}
    (hread : op.read c = (result, c')) (h : result ≠ .error .overflow) :
    op.next c = some c' := by
  unfold next
  rw [hread]
  split
  · next heq => exact absurd (congrArg Prod.fst heq) h
  · next heq => exact congrArg some (congrArg Prod.snd heq).symm

/-- An operation that yields something is disciplined if it ends in the data,
ahead unless it is a seek, and behind the bytes it was asked for. -/
theorem disciplined_of_ok {a : op.Yield} {c' : Cursor}
    (hread : op.read c = (.ok a, c')) (hstays : c.Stays c')
    (hforward : (∀ target, op ≠ .seek target) → c.pos ≤ c'.pos)
    (hpassed : ∀ n, op.length? = some n →
      n ≤ c.remaining ∧ c'.pos = c.pos + n) : op.Disciplined c := by
  have hsucceeds : op.Succeeds c := ⟨a, congrArg Prod.fst hread⟩
  refine ⟨c', next_eq_some hread nofun, hstays, hforward,
    fun _ hfails => absurd hsucceeds hfails, ?_⟩
  intro n hn
  obtain ⟨henough, hpos⟩ := hpassed n hn
  exact ⟨iff_of_true hsucceeds henough, fun _ => hpos⟩

/-- One that is refused without a move is disciplined if there are fewer bytes
than it was asked for. -/
theorem disciplined_of_refused (hc : c.pos ≤ c.data.size)
    (hread : op.read c = (.error .outOfBounds, c))
    (hfew : ∀ n, op.length? = some n → c.remaining < n) :
    op.Disciplined c := by
  have hfails : ¬op.Succeeds c := by
    rintro ⟨a, ha⟩
    rw [hread] at ha
    cases ha
  refine ⟨c, next_eq_some hread nofun, ⟨rfl, hc⟩, fun _ => Nat.le_refl _,
    fun _ _ => ⟨congrArg Prod.fst hread, rfl⟩, ?_⟩
  intro n hn
  exact ⟨iff_of_false hfails (Nat.not_le_of_lt (hfew n hn)),
    fun hsucceeds => absurd hsucceeds hfails⟩

theorem disciplined_of_passesAt {n : Nat} (hc : c.pos ≤ c.data.size)
    (hn : op.length? = some n) (h : Reader.PassesAt op.read n c) :
    op.Disciplined c := by
  have hasked : ∀ k, op.length? = some k → n = k :=
    fun k hk => Option.some.inj (hn.symm.trans hk)
  rcases h with ⟨hle, a, hread⟩ | ⟨hlt, hread⟩
  · refine disciplined_of_ok hread ⟨rfl, hle⟩
      (fun _ => Nat.le_add_right _ _) fun k hk => ?_
    obtain rfl := hasked k hk
    exact ⟨Nat.le_sub_of_add_le' hle, rfl⟩
  · refine disciplined_of_refused hc hread fun k hk => ?_
    obtain rfl := hasked k hk
    unfold Cursor.remaining
    omega

/-- One that goes forward and is asked for no number of bytes is disciplined
whatever it does when it fails: it need not stay where it was, only not go
back. -/
theorem disciplined_of_advances (hc : c.pos ≤ c.data.size)
    (hn : op.length? = none) (hsimple : op.isSimple = false)
    (h : Reader.Advances op.read) : op.Disciplined c := by
  obtain ⟨hreaches, hgoesOn⟩ := h c
  refine ⟨_, next_eq_some rfl hgoesOn, hreaches.stays hc,
    fun _ => hreaches.forward, ?_, ?_⟩
  · intro hs
    rw [hsimple] at hs
    cases hs
  · intro n hlen
    rw [hn] at hlen
    cases hlen

theorem disciplined_seek (hc : c.pos ≤ c.data.size) (target : UInt64) :
    (seek target).Disciplined c := by
  by_cases hlt : target.toNat < c.data.size
  · have hread : (seek target).read c = (.ok (), c.moveTo target.toNat) :=
      if_pos hlt
    exact disciplined_of_ok hread ⟨rfl, Nat.le_of_lt hlt⟩
      (fun hne => absurd rfl (hne target)) (fun n hn => by cases hn)
  · have hread : (seek target).read c = (.error .outOfBounds, c) :=
      if_neg hlt
    exact disciplined_of_refused hc hread fun n hn => by cases hn

theorem disciplined_peek (hc : c.pos ≤ c.data.size) :
    peek.Disciplined c := by
  cases hbyte : c.data[c.pos]? with
  | none =>
      have hread : Reader.peek c = (.error .outOfBounds, c) := by
        simp only [Reader.peek, hbyte]
      exact disciplined_of_refused hc hread fun n hn => by cases hn
  | some b =>
      have hread : Reader.peek c = (.ok b, c) := by
        simp only [Reader.peek, hbyte]
      exact disciplined_of_ok hread ⟨rfl, hc⟩ (fun _ => Nat.le_refl _)
        fun n hn => by cases hn

theorem disciplined_of_not_overruns (hc : c.pos ≤ c.data.size)
    (h : ¬op.Overruns c) : op.Disciplined c := by
  cases op with
  | seek target => exact disciplined_seek hc target
  | advance step =>
      have hspan : c.pos + step.toNat < Reader.addressSpan := by
        by_contra hge
        exact h ⟨step, rfl, Nat.le_of_not_lt hge⟩
      exact disciplined_of_passesAt hc rfl
        (Reader.passesAt_advance hspan)
  | peek => exact disciplined_peek hc
  | scalar s =>
      exact disciplined_of_passesAt hc rfl (s.passesAt_read c)
  | bytes length =>
      exact disciplined_of_passesAt hc rfl
        (Reader.passesAt_bytes length.toNat c)
  | sevenBit => exact disciplined_of_advances hc rfl rfl SevenBit.advances_read
  | text =>
      exact disciplined_of_advances hc rfl rfl Reader.advances_textToZero
  | coded code =>
      exact disciplined_of_advances hc rfl rfl
        (Resource.Value.advances_readCoded code)
  | named name =>
      exact disciplined_of_advances hc rfl rfl
        (Resource.Value.advances_readNamed name)

/-- An operation stops the program exactly if it overruns. Of all operations
only a step computes a position that it has not compared with the size of the
data before. -/
theorem next_eq_none_iff (hc : c.pos ≤ c.data.size) (op : Operation) :
    op.next c = none ↔ op.Overruns c := by
  constructor
  · intro hnone
    by_contra h
    obtain ⟨c', hsome, -⟩ := disciplined_of_not_overruns hc h
    rw [hnone] at hsome
    cases hsome
  · rintro ⟨step, rfl, hspan⟩
    have hread : (advance step).read c = (.error .overflow, c) := if_pos hspan
    rw [next, hread]

theorem disciplined_iff (hc : c.pos ≤ c.data.size) (op : Operation) :
    op.Disciplined c ↔ ¬op.Overruns c := by
  refine ⟨?_, disciplined_of_not_overruns hc⟩
  rintro ⟨c', hsome, -⟩ hoverruns
  rw [(next_eq_none_iff hc op).2 hoverruns] at hsome
  cases hsome

theorem stays_of_next {c' : Cursor} (hc : c.pos ≤ c.data.size)
    (h : op.next c = some c') : c.Stays c' := by
  have hruns : ¬op.Overruns c := by
    rw [← next_eq_none_iff hc, h]
    nofun
  obtain ⟨c'', hsome, hobeys⟩ := disciplined_of_not_overruns hc hruns
  obtain rfl := Option.some.inj (h.symm.trans hsome)
  exact hobeys.stays

end Operation

/-! ## Any operations -/

namespace Cursor

variable {c : Cursor}

theorem after_cons (c : Cursor) (op : Operation) (ops : List Operation) :
    c.after (op :: ops) = (op.next c).bind fun c' => c'.after ops := by
  rw [after, List.foldlM_cons]
  rfl

theorem stays_after {c' : Cursor} (hc : c.pos ≤ c.data.size)
    {ops : List Operation} (h : c.after ops = some c') : c.Stays c' := by
  induction ops generalizing c with
  | nil =>
      cases h
      exact ⟨rfl, hc⟩
  | cons op ops ih =>
      rw [after_cons, Option.bind_eq_some_iff] at h
      obtain ⟨c₁, hnext, hrest⟩ := h
      have hstays := Operation.stays_of_next hc hnext
      exact hstays.trans (ih hstays.pos_le hrest)

/-- A row of operations stops the program exactly if one of them overruns the
place that those in front of it lead to. By induction on the row: an operation
that stops the program is the one that is looked for, and any other leaves a
cursor inside the data for the rest of the row. -/
theorem after_eq_none_iff (hc : c.pos ≤ c.data.size) (ops : List Operation) :
    c.after ops = none ↔
      ∃ done op rest c', ops = done ++ op :: rest ∧
        c.after done = some c' ∧ op.Overruns c' := by
  induction ops generalizing c with
  | nil =>
      refine iff_of_false nofun ?_
      rintro ⟨done, op, rest, c', hsplit, -⟩
      simp at hsplit
  | cons op ops ih =>
      rw [after_cons]
      cases hnext : op.next c with
      | none =>
          have hoverruns := (Operation.next_eq_none_iff hc op).1 hnext
          exact iff_of_true rfl ⟨[], op, ops, c, rfl, rfl, hoverruns⟩
      | some c₁ =>
          have hstays := Operation.stays_of_next hc hnext
          rw [Option.bind_some, ih hstays.pos_le]
          constructor
          · rintro ⟨done, op', rest, c', rfl, hdone, hoverruns⟩
            refine ⟨op :: done, op', rest, c', rfl, ?_, hoverruns⟩
            rw [after_cons, hnext, Option.bind_some, hdone]
          · rintro ⟨done, op', rest, c', hsplit, hdone, hoverruns⟩
            cases done with
            | nil =>
                -- the first operation does not overrun, it has a cursor
                cases hsplit
                cases hdone
                rw [(Operation.next_eq_none_iff hc _).2 hoverruns] at hnext
                cases hnext
            | cons first done =>
                cases hsplit
                rw [after_cons, hnext, Option.bind_some] at hdone
                exact ⟨done, op', rest, c', rfl, hdone, hoverruns⟩

end Cursor

/-- Whatever was done before, the cursor stands in the data, what it passed and
what is left add up, and the next operation is disciplined exactly if it does
not step out of the address space. Nothing else stops the program: the
operations leave no cursor behind exactly if one of them takes such a step. -/
theorem cursor_disciplined_iff (data : List UInt8) (ops : List Operation) :
    (∀ c, (Cursor.ofBytes data).after ops = some c →
      c.pos ≤ data.length ∧ c.remaining + c.pos = data.length ∧
        ∀ op : Operation, op.Disciplined c ↔ ¬op.Overruns c) ∧
    ((Cursor.ofBytes data).after ops = none ↔
      ∃ done op rest c, ops = done ++ op :: rest ∧
        (Cursor.ofBytes data).after done = some c ∧ op.Overruns c) := by
  have hstart : (Cursor.ofBytes data).pos ≤ (Cursor.ofBytes data).data.size :=
    Nat.zero_le _
  have hsize : (Cursor.ofBytes data).data.size = data.length := rfl
  refine ⟨?_, Cursor.after_eq_none_iff hstart ops⟩
  intro c hc
  have hstays := Cursor.stays_after hstart hc
  have hinside := hstays.inside
  rw [hsize] at hinside
  refine ⟨hinside, ?_, Operation.disciplined_iff hstays.pos_le⟩
  rw [Cursor.remaining, hstays.data, hsize, Nat.sub_add_cancel hinside]

/-- With one byte passed and one left, a step by the largest word is not
refused: it stops the program, and with it every row of operations that comes
to take it there. -/
theorem long_step_stops :
    ∃ c, (Cursor.ofBytes [0x10, 0x20]).after [.advance 1] = some c ∧
      c.pos = 1 ∧ c.remaining = 1 ∧
      (Operation.advance 0xFFFFFFFFFFFFFFFF).next c = none ∧
      (Cursor.ofBytes [0x10, 0x20]).after
        [.advance 1, .advance 0xFFFFFFFFFFFFFFFF] = none ∧
      ¬(Operation.advance 0xFFFFFFFFFFFFFFFF).Disciplined c := by
  refine ⟨⟨#[0x10, 0x20], 1⟩, rfl, rfl, rfl, rfl, rfl, ?_⟩
  rintro ⟨c', hsome, -⟩
  cases hsome

/-! ## Blobs

A header takes two steps over bytes: over an outer header of a newer version,
whose size is a 32-bit word, and over the padding. Neither leaves the address
space unless the blob nearly fills it, and no blob in memory does. -/

/-- A place in data that leaves room for 32-bit steps behind it. Readers of
blobs take the length of every step from a 32-bit field, so that this is all
the room they need. -/
structure Cursor.HasRoom (c : Cursor) : Prop where
  inside : c.pos ≤ c.data.size
  room : c.data.size + 2 ^ 32 < Reader.addressSpan

theorem Cursor.HasRoom.stays {c c' : Cursor} (hc : c.HasRoom)
    (h : c.Stays c') : c'.HasRoom :=
  ⟨h.pos_le, h.data ▸ hc.room⟩

namespace Reader

variable {α β : Type}

/-- Where there is room, `m` leaves room and does not overflow. Unlike
`Advances` this lets a reader seek, back as well as ahead. -/
def Safe (m : Reader α) : Prop :=
  ∀ c : Cursor, c.HasRoom → (m c).2.HasRoom ∧ (m c).1 ≠ .error .overflow

theorem Advances.safe {m : Reader α} (h : Advances m) : Safe m :=
  fun c hc => ⟨hc.stays ((h c).1.stays hc.inside), (h c).2⟩

theorem Safe.bind {m : Reader α} {f : α → Reader β} (hm : Safe m)
    (hf : ∀ a, Safe (f a)) : Safe (m >>= f) := by
  intro c hc
  obtain ⟨hroom, hgoesOn⟩ := hm c hc
  cases hmc : m c with
  | mk result c' =>
      rw [hmc] at hroom hgoesOn
      cases result with
      | error fault =>
          rw [bind_apply_of_error hmc]
          exact ⟨hroom, fun heq =>
            hgoesOn (congrArg Except.error (Except.error.inj heq))⟩
      | ok a =>
          rw [bind_apply_of_ok hmc]
          exact hf a c' hroom

theorem Safe.yield {m : Reader α} (hm : Safe m) (f : α → β) :
    Safe (m >>= fun a => pure (f a)) :=
  hm.bind fun a => (advances_pure (f a)).safe

theorem safe_position : Safe position := fun _ hc => ⟨hc, nofun⟩

theorem safe_total : Safe total := fun _ hc => ⟨hc, nofun⟩

theorem safe_remaining : Safe remaining := fun _ hc => ⟨hc, nofun⟩

theorem safe_require (holds : Bool) (reason : Flaw) :
    Safe (require holds reason) := by
  cases holds with
  | false => exact fun _ hc => ⟨hc, nofun⟩
  | true => exact fun _ hc => ⟨hc, nofun⟩

theorem safe_seek (target : Nat) : Safe (seek target) := by
  intro c hc
  unfold seek
  split
  · next hlt => exact ⟨hc.stays ⟨rfl, Nat.le_of_lt hlt⟩, nofun⟩
  · exact ⟨hc, nofun⟩

theorem safe_advance {n : Nat} (hn : n < 2 ^ 32) : Safe (advance n) := by
  intro c hc
  have hspan : c.pos + n < addressSpan := by
    have := hc.inside
    have := hc.room
    omega
  rcases passesAt_advance hspan with ⟨hle, a, hread⟩ | ⟨-, hread⟩
  · rw [hread]
    exact ⟨hc.stays ⟨rfl, hle⟩, nofun⟩
  · rw [hread]
    exact ⟨hc, nofun⟩

theorem safe_uint32 : Safe uint32 := (Scalar.advances_read .uint32).safe

theorem safe_each {m : α → Reader β} (hm : ∀ a, Safe (m a)) (as : List α) :
    Safe (each m as) := by
  induction as with
  | nil => exact (advances_pure []).safe
  | cons a as ih => exact (hm a).bind fun b => ih.yield fun bs => b :: bs

end Reader

namespace Resource

open Reader (Safe)

theorem advances_readName : Reader.Advances readName := by
  refine SevenBit.advances_read.bind fun length => ?_
  refine Reader.advances_position.bind fun offset => ?_
  refine Reader.Advances.bind ?_ fun _ => ?_
  · unfold Reader.require
    split
    · exact Reader.advances_pure ()
    · exact Reader.advances_fail nofun
  refine (Reader.advances_bytes _).bind fun bytes => ?_
  split
  · exact Reader.advances_pure _
  · exact Reader.advances_fail nofun

namespace Header

theorem safe_readClasses (version size : UInt32) :
    Safe (readClasses version size) := by
  unfold readClasses
  split
  · exact (Reader.safe_advance size.toNat_lt).yield _
  · exact (advances_readText.bind fun _ => advances_readText.yield _).safe

theorem safe_readFront (total : Nat) : Safe (readFront total) := by
  refine (Reader.safe_require _ _).bind fun _ => ?_
  refine Reader.safe_uint32.bind fun size => ?_
  refine (Reader.safe_require _ _).bind fun _ => ?_
  refine Reader.safe_uint32.bind fun word => ?_
  refine (Reader.safe_require _ _).bind fun _ => ?_
  refine Reader.safe_uint32.bind fun managerVersion => ?_
  refine Reader.safe_uint32.bind fun managerSize => ?_
  refine (safe_readClasses managerVersion managerSize).bind fun classes => ?_
  refine Reader.safe_position.bind fun readerOffset => ?_
  refine Reader.safe_uint32.bind fun version => ?_
  exact (Reader.safe_require _ _).yield _

theorem safe_readTables (total : Nat) (front : Front) (isDebug : Bool) :
    Safe (readTables total front isDebug) := by
  have hwords (n : Nat) : Safe (Reader.times Reader.uint32 n) :=
    (Reader.advances_times (Scalar.advances_read .uint32) n).safe
  refine Reader.safe_uint32.bind fun count => ?_
  refine Reader.safe_remaining.bind fun left => ?_
  refine (Reader.safe_require _ _).bind fun _ => ?_
  refine Reader.safe_uint32.bind fun typeCount => ?_
  refine Reader.safe_remaining.bind fun left => ?_
  refine (Reader.safe_require _ _).bind fun _ => ?_
  refine (Reader.advances_times advances_readText _).safe.bind
    fun typeNames => ?_
  refine Reader.safe_position.bind fun position => ?_
  have hpadding : paddingAt position < 2 ^ 32 := by
    unfold paddingAt
    omega
  refine (Reader.safe_advance hpadding).bind fun _ => ?_
  refine (hwords _).bind fun hashes => ?_
  refine (hwords _).bind fun positions => ?_
  refine Reader.safe_uint32.bind fun dataField => ?_
  refine Reader.safe_position.bind fun nameSection => ?_
  exact (Reader.safe_require _ _).yield _

theorem safe_read : Safe read := by
  refine Reader.safe_total.bind fun total => ?_
  refine (safe_readFront total).bind fun front => ?_
  refine (advances_readMarker front.version).safe.bind fun isDebug => ?_
  exact safe_readTables total front isDebug

theorem advances_readValue (h : Header) : Reader.Advances h.readValue := by
  refine SevenBit.advances_read.bind fun tag => ?_
  split
  · split
    · exact Reader.advances_pure _
    · split
      · exact Value.advances_readNamed _
      · exact Reader.advances_fail nofun
  · exact Value.advances_readCoded tag

theorem safe_readEntry (h : Header) (hash position : UInt32) :
    Safe (h.readEntry hash position) := by
  refine (Reader.safe_seek _).bind fun _ => ?_
  refine advances_readName.safe.bind fun name => ?_
  refine Reader.safe_uint32.bind fun place => ?_
  refine (Reader.safe_seek _).bind fun _ => ?_
  exact h.advances_readValue.safe.yield _

theorem safe_readEntries (h : Header) : Safe h.readEntries :=
  Reader.safe_each (fun (hash, position) => h.safe_readEntry hash position) _

end Header

theorem bind_ne_error {ε α β : Type} {x : Except ε α} {f : α → Except ε β}
    {e : ε} (hx : x ≠ .error e) (hf : ∀ a, f a ≠ .error e) :
    (x >>= f) ≠ .error e := by
  cases x with
  | error e' => exact fun h => hx (congrArg Except.error (Except.error.inj h))
  | ok a => exact hf a

/-- No blob of a size that memory can hold stops the program. What a look-up
makes of a blob may drop its fault, and this is why none of the dropped ones is
an overflow. -/
theorem stringTable_ne_overflow {blob : List UInt8}
    (hsize : blob.length < 2 ^ 63) : stringTable blob ≠ .error .overflow := by
  have hroom : (Cursor.ofBytes blob).HasRoom := by
    refine ⟨Nat.zero_le _, ?_⟩
    show blob.length + 2 ^ 32 < 0x10000000000000000
    omega
  have hentries : entriesOf blob ≠ .error .overflow := by
    refine bind_ne_error (Header.safe_read _ hroom).2 fun header => ?_
    exact bind_ne_error (header.safe_readEntries _ hroom).2 fun _ => nofun
  exact bind_ne_error hentries fun _ => nofun

end Resource

end CilAudit
