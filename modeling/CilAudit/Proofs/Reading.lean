import CilAudit.Bytes.SevenBit
import Mathlib.Algebra.Ring.Nat

/-!
# Readers that take what was written

A reader inverts a writer when it takes the written bytes, all of them and no
more, and yields what they were written for. `Reader.Takes m bs a` says so for
every place where the bytes may stand: any bytes in front, any bytes behind. It
composes as the readers do, so a record is read back field by field and no
proof counts offsets.

A `Cursor.between` carries the bytes on both sides of the position. The readers
that ask where they are, or how much is left, are answered by the lengths of
its two sides.
-/

namespace CilAudit

/-- The cursor behind the bytes `front` and in front of the bytes `rest`.
Proofs follow a reader by moving bytes from the one list to the other. -/
def Cursor.between (front rest : List UInt8) : Cursor :=
  ⟨(front ++ rest).toArray, front.length⟩

theorem Cursor.ofBytes_eq_between (bytes : List UInt8) :
    ofBytes bytes = between [] bytes := rfl

theorem Cursor.between_append (front bs rest : List UInt8) :
    (between front (bs ++ rest)).moveTo (front.length + bs.length) =
      between (front ++ bs) rest := by
  simp [between, moveTo]

theorem Cursor.window?_between (front bs rest : List UInt8) :
    (between front (bs ++ rest)).window? bs.length = some bs := by
  have hfits : (between front (bs ++ rest)).pos ≤
      (between front (bs ++ rest)).data.size := by
    simp [between]
  have hrest : (between front (bs ++ rest)).rest = bs ++ rest := by
    simp [Cursor.rest, between]
  rw [window?_eq _ _ hfits, hrest]
  simp

namespace Reader

/-- `m` yields `a` and takes exactly the bytes `bs`, wherever they stand. Such
facts compose with `Takes.bind`, and neither the bytes in front nor those
behind take part. -/
def Takes {α : Type} (m : Reader α) (bs : List UInt8) (a : α) : Prop :=
  ∀ front rest, m (.between front (bs ++ rest)) =
    (.ok a, .between (front ++ bs) rest)

variable {α β : Type}

/-! ## One step of a sequence -/

theorem bind_apply_of_ok {m : Reader α} {f : α → Reader β}
    {c c' : Cursor} {a : α} (h : m c = (.ok a, c')) : (m >>= f) c = f a c' := by
  simp only [bind, h]

theorem bind_apply_of_error {m : Reader α} {f : α → Reader β} {c c' : Cursor}
    {fault : Fault}
    (h : m c = (.error fault, c')) : (m >>= f) c = (.error fault, c') := by
  simp only [bind, h]

/-- The inversion of a sequence: what yields a value got one from its first
reader. -/
theorem exists_of_bind_eq_ok {m : Reader α} {f : α → Reader β}
    {c c'' : Cursor} {b : β}
    (h : (m >>= f) c = (.ok b, c'')) :
    ∃ a c', m c = (.ok a, c') ∧ f a c' = (.ok b, c'') := by
  cases hm : m c with
  | mk result c' =>
      cases result with
      | error fault =>
          rw [bind_apply_of_error hm] at h
          exact absurd (congrArg Prod.fst h) (by simp)
      | ok a =>
          rw [bind_apply_of_ok hm] at h
          exact ⟨a, c', rfl, h⟩

theorem ok_of_bind_ok {m : Reader α} {f : α → Reader β} {c : Cursor} {b : β}
    (h : ((m >>= f) c).1 = .ok b) :
    ∃ a c', m c = (.ok a, c') ∧ (f a c').1 = .ok b := by
  have hwhole : (m >>= f) c = (.ok b, ((m >>= f) c).2) := Prod.ext h rfl
  obtain ⟨a, c', hm, hf⟩ := exists_of_bind_eq_ok hwhole
  exact ⟨a, c', hm, congrArg Prod.fst hf⟩

theorem Takes.bind_apply {m : Reader α} {bs : List UInt8} {a : α}
    (h : Takes m bs a) (f : α → Reader β) (front rest : List UInt8) :
    (m >>= f) (.between front (bs ++ rest)) =
      f a (.between (front ++ bs) rest) :=
  bind_apply_of_ok (h front rest)

theorem total_bind_apply (f : Nat → Reader β) (front rest : List UInt8) :
    (total >>= f) (.between front rest) =
      f (front.length + rest.length) (.between front rest) := by
  apply bind_apply_of_ok
  simp [total, Cursor.size, Cursor.between]

theorem position_bind_apply (f : Nat → Reader β) (front rest : List UInt8) :
    (position >>= f) (.between front rest) =
      f front.length (.between front rest) := rfl

theorem remaining_bind_apply (f : Nat → Reader β) (front rest : List UInt8) :
    (remaining >>= f) (.between front rest) =
      f rest.length (.between front rest) := by
  apply bind_apply_of_ok
  simp [remaining, Cursor.remaining, Cursor.between]

theorem require_bind_apply {holds : Bool} (h : holds = true) (reason : Flaw)
    (f : Unit → Reader β) (c : Cursor) :
    (require holds reason >>= f) c = f () c := by
  subst h
  rfl

theorem peek_bind_apply (f : UInt8 → Reader β) (front rest : List UInt8)
    (b : UInt8) :
    (peek >>= f) (.between front (b :: rest)) =
      f b (.between front (b :: rest)) := by
  apply bind_apply_of_ok
  simp [peek, Cursor.between]

/-- A seek lands between the bytes before its target and those behind it. -/
theorem seek_bind_apply {c : Cursor} {front rest : List UInt8}
    (hdata : c.data = (front ++ rest).toArray) (hrest : rest ≠ [])
    (f : Unit → Reader β) :
    (seek front.length >>= f) c = f () (.between front rest) := by
  have hlt : front.length < c.data.size := by
    have := List.length_pos_iff.2 hrest
    simp only [hdata, List.size_toArray, List.length_append]
    omega
  apply bind_apply_of_ok
  rw [seek, if_pos hlt, Cursor.moveTo, hdata, Cursor.between]

/-- A step passes the bytes in front of it, wherever they stand in the address
space. Outside of it there is no such place, so this is not `Takes`. -/
theorem advance_bind_apply {front bs : List UInt8}
    (h : front.length + bs.length < addressSpan) (rest : List UInt8)
    (f : Unit → Reader β) :
    (advance bs.length >>= f) (.between front (bs ++ rest)) =
      f () (.between (front ++ bs) rest) := by
  have hspan : ¬addressSpan ≤
      (Cursor.between front (bs ++ rest)).pos + bs.length :=
    Nat.not_le_of_lt h
  have hfits : (Cursor.between front (bs ++ rest)).pos + bs.length ≤
      (Cursor.between front (bs ++ rest)).data.size := by
    simp [Cursor.between]
  apply bind_apply_of_ok
  rw [advance, if_neg hspan, if_pos hfits]
  exact congrArg (Prod.mk (Except.ok ())) (Cursor.between_append front bs rest)

/-! ## Composition -/

theorem takes_pure (a : α) : Takes (pure a) [] a := by
  intro front rest
  simp only [List.nil_append, List.append_nil]
  rfl

theorem Takes.bind {m : Reader α} {f : α → Reader β} {bs cs : List UInt8}
    {a : α} {b : β}
    (hm : Takes m bs a) (hf : Takes (f a) cs b) :
    Takes (m >>= f) (bs ++ cs) b := by
  intro front rest
  rw [List.append_assoc, hm.bind_apply, hf, List.append_assoc]

/-- A last step that takes nothing more. -/
theorem Takes.bind_nil {m : Reader α} {f : α → Reader β} {bs : List UInt8}
    {a : α} {b : β}
    (hm : Takes m bs a) (hf : Takes (f a) [] b) : Takes (m >>= f) bs b := by
  simpa using hm.bind hf

theorem Takes.yield {m : Reader α} {bs : List UInt8} {a : α} (hm : Takes m bs a)
    (f : α → β) :
    Takes (m >>= fun x => pure (f x)) bs (f a) :=
  hm.bind_nil (takes_pure (f a))

/-- The position only ever serves a refusal, so a reader that asks for it takes
what it takes without it. -/
theorem Takes.of_position {f : Nat → Reader β} {bs : List UInt8} {b : β}
    (h : ∀ offset, Takes (f offset) bs b) : Takes (position >>= f) bs b := by
  intro front rest
  rw [position_bind_apply]
  exact h front.length front rest

theorem Takes.of_require {holds : Bool} {reason : Flaw} {f : Unit → Reader β}
    {bs : List UInt8} {b : β} (hholds : holds = true) (h : Takes (f ()) bs b) :
    Takes (require holds reason >>= f) bs b := by
  intro front rest
  rw [require_bind_apply hholds]
  exact h front rest

theorem takes_times {γ : Type} {m : Reader α} {spell : γ → List UInt8}
    {view : γ → α} (xs : List γ) (h : ∀ x ∈ xs, Takes m (spell x) (view x)) :
    Takes (times m xs.length) (xs.flatMap spell) (xs.map view) := by
  induction xs with
  | nil => exact takes_pure []
  | cons x xs ih =>
      rw [List.flatMap_cons]
      have hrest := ih fun y hy => h y (List.mem_cons_of_mem x hy)
      exact (h x List.mem_cons_self).bind (hrest.yield fun ys => view x :: ys)

/-! ## Bytes and words -/

theorem takes_byte (b : UInt8) : Takes byte [b] b := by
  intro front rest
  have hb : (Cursor.between front ([b] ++ rest)).data[
      (Cursor.between front ([b] ++ rest)).pos]? = some b := by
    simp [Cursor.between]
  simp only [byte, hb]
  exact congrArg (Prod.mk (Except.ok b)) (Cursor.between_append front [b] rest)

theorem takes_bytes (bs : List UInt8) : Takes (bytes bs.length) bs bs := by
  intro front rest
  rw [bytes, Cursor.window?_between]
  exact congrArg (Prod.mk (Except.ok bs)) (Cursor.between_append front bs rest)

/-! ## Reading from anywhere -/

/-- `m` yields `a` from wherever it starts in `blob`, as readers do that seek
first. The cursor it ends at does not matter, since the next such reader seeks
again. -/
def Finds (m : Reader α) (blob : List UInt8) (a : α) : Prop :=
  ∀ c : Cursor, c.data = blob.toArray →
    ∃ c', c'.data = blob.toArray ∧ m c = (.ok a, c')

theorem Finds.on_eq {m : Reader α} {blob : List UInt8} {a : α}
    (h : Finds m blob a) :
    m.on blob = .ok a := by
  obtain ⟨c', -, hm⟩ := h (.ofBytes blob) rfl
  rw [on, hm]

theorem finds_each {γ : Type} {m : α → Reader β} {key : γ → α} {view : γ → β}
    {blob : List UInt8}
    (ys : List γ) (h : ∀ y ∈ ys, Finds (m (key y)) blob (view y)) :
    Finds (each m (ys.map key)) blob (ys.map view) := by
  induction ys with
  | nil => exact fun c hc => ⟨c, hc, rfl⟩
  | cons y ys ih =>
      intro c hc
      obtain ⟨c₁, hc₁, hy⟩ := h y List.mem_cons_self c hc
      obtain ⟨c₂, hc₂, hys⟩ :=
        ih (fun z hz => h z (List.mem_cons_of_mem y hz)) c₁ hc₁
      refine ⟨c₂, hc₂, ?_⟩
      rw [List.map_cons, each, bind_apply_of_ok hy, bind_apply_of_ok hys]
      rfl

end Reader

/-! ## Numbers -/

namespace LittleEndian

/-- How many numbers `width` bytes tell apart. -/
def span : Nat → Nat
  | 0 => 1
  | width + 1 => 256 * span width

theorem value_bytes (width n : Nat) :
    value (bytes width n) = n % span width := by
  induction width generalizing n with
  | zero => rw [bytes, value, span, Nat.mod_one]
  | succ width ih =>
      have hlow : (UInt8.ofNat n).toNat = n % 256 := UInt8.toNat_ofNat'
      rw [bytes, value, ih, hlow, span, Nat.mod_mul]

theorem value_bytes_of_lt {width n : Nat} (h : n < span width) :
    value (bytes width n) = n := by
  rw [value_bytes, Nat.mod_eq_of_lt h]

theorem toNat_lt_span_one (n : UInt8) : n.toNat < span 1 := by
  have := n.toNat_lt
  simp only [span]
  omega

theorem toNat_lt_span_two (n : UInt16) : n.toNat < span 2 := by
  have := n.toNat_lt
  simp only [span]
  omega

theorem toNat_lt_span_four (n : UInt32) : n.toNat < span 4 := by
  have := n.toNat_lt
  simp only [span]
  omega

theorem toNat_lt_span_eight (n : UInt64) : n.toNat < span 8 := by
  have := n.toNat_lt
  simp only [span]
  omega

end LittleEndian

namespace Reader

theorem takes_word {width n : Nat} (h : n < LittleEndian.span width) :
    Takes (word width) (LittleEndian.bytes width n) n := by
  have hword := (takes_bytes (LittleEndian.bytes width n)).yield
    LittleEndian.value
  rwa [LittleEndian.length_bytes, LittleEndian.value_bytes_of_lt h] at hword

theorem takes_uint8 (n : UInt8) : Takes uint8 [n] n := by
  have h := (takes_word (LittleEndian.toNat_lt_span_one n)).yield UInt8.ofNat
  rwa [LittleEndian.bytes, LittleEndian.bytes, UInt8.ofNat_toNat] at h

theorem takes_uint16 (n : UInt16) :
    Takes uint16 (LittleEndian.bytes 2 n.toNat) n := by
  have h := (takes_word (LittleEndian.toNat_lt_span_two n)).yield UInt16.ofNat
  rwa [UInt16.ofNat_toNat] at h

theorem takes_uint32 (n : UInt32) :
    Takes uint32 (LittleEndian.bytes 4 n.toNat) n := by
  have h := (takes_word (LittleEndian.toNat_lt_span_four n)).yield UInt32.ofNat
  rwa [UInt32.ofNat_toNat] at h

theorem takes_uint64 (n : UInt64) :
    Takes uint64 (LittleEndian.bytes 8 n.toNat) n := by
  have h := (takes_word (LittleEndian.toNat_lt_span_eight n)).yield UInt64.ofNat
  rwa [UInt64.ofNat_toNat] at h

theorem takes_int8 (n : Int8) : Takes int8 [n.toUInt8] n :=
  (takes_uint8 n.toUInt8).yield UInt8.toInt8

theorem takes_int16 (n : Int16) :
    Takes int16 (LittleEndian.bytes 2 n.toUInt16.toNat) n :=
  (takes_uint16 n.toUInt16).yield UInt16.toInt16

theorem takes_int32 (n : Int32) :
    Takes int32 (LittleEndian.bytes 4 n.toUInt32.toNat) n :=
  (takes_uint32 n.toUInt32).yield UInt32.toInt32

theorem takes_int64 (n : Int64) :
    Takes int64 (LittleEndian.bytes 8 n.toUInt64.toNat) n :=
  (takes_uint64 n.toUInt64).yield UInt64.toInt64

end Reader

/-! ## 7-bit integers -/

theorem toNat_byte {n : Nat} (h : n < 256) : (UInt8.ofNat n).toNat = n := by
  rw [UInt8.toNat_ofNat']
  omega

namespace SevenBit

theorem denoted_encodeNat (n : Nat) : denoted (encodeNat n) = n := by
  fun_induction encodeNat n with
  | case1 n hlt =>
      have hb : (UInt8.ofNat n).toNat = n := toNat_byte (by omega)
      simp only [denoted, hb]
      omega
  | case2 n hge ih =>
      have hb : (UInt8.ofNat (n % 128 + 128)).toNat = n % 128 + 128 :=
        toNat_byte (by omega)
      simp only [denoted, hb, ih]
      omega

theorem takes_groups_last {b : UInt8} (hb : b < 128) (left : Nat) :
    Reader.Takes (groups (left + 1)) [b] [b] := by
  refine (Reader.takes_byte b).bind_nil ?_
  rw [if_pos hb]
  exact Reader.takes_pure [b]

theorem takes_groups_more {b : UInt8} {bs : List UInt8} {left : Nat}
    (hb : ¬ b < 128) (hbs : Reader.Takes (groups left) bs bs) :
    Reader.Takes (groups (left + 1)) (b :: bs) (b :: bs) := by
  refine (Reader.takes_byte b).bind ?_
  rw [if_neg hb]
  exact hbs.yield fun more => b :: more

/-- Bytes of which the last is the first without the high bit. -/
def Closed (bs : List UInt8) : Prop :=
  ∃ cont last, bs = cont ++ [last] ∧ (∀ b ∈ cont, 128 ≤ b) ∧ last < 128

theorem closed_encodeNat (n : Nat) : Closed (encodeNat n) := by
  fun_induction encodeNat n with
  | case1 n hlt =>
      have hlast : UInt8.ofNat n < 128 := by
        rw [UInt8.lt_iff_toNat_lt, toNat_byte (by omega)]
        exact hlt
      exact ⟨[], UInt8.ofNat n, rfl, by simp, hlast⟩
  | case2 n hge ih =>
      obtain ⟨cont, last, hbs, hcont, hlast⟩ := ih
      have hfirst : 128 ≤ UInt8.ofNat (n % 128 + 128) := by
        rw [UInt8.le_iff_toNat_le, toNat_byte (by omega)]
        exact Nat.le_add_left _ _
      refine ⟨UInt8.ofNat (n % 128 + 128) :: cont, last,
        by rw [hbs]; rfl, ?_, hlast⟩
      exact List.forall_mem_cons.2 ⟨hfirst, hcont⟩

/-- The groups of a number are taken as long as there may be as many of them.
By induction on the bytes, of which the last one is told by its high bit. -/
theorem takes_groups {bs : List UInt8} {left : Nat} (h : Closed bs)
    (hlen : bs.length ≤ left) :
    Reader.Takes (groups left) bs bs := by
  obtain ⟨cont, last, rfl, hcont, hlast⟩ := h
  induction left generalizing cont with
  | zero => simp at hlen
  | succ left ih =>
      cases cont with
      | nil => exact takes_groups_last hlast left
      | cons b cont =>
          rw [List.forall_mem_cons] at hcont
          have hmore := ih cont (Nat.le_of_succ_le_succ hlen) hcont.2
          exact takes_groups_more (UInt8.not_lt.2 hcont.1) hmore

theorem encodeNat_ne_nil (n : Nat) : encodeNat n ≠ [] := by
  rw [encodeNat]
  split <;> simp

theorem length_encodeNat_of_lt {n : Nat} (h : n < 128) :
    (encodeNat n).length = 1 := by
  rw [encodeNat, if_pos h, List.length_singleton]

/-- So many bytes suffice for a number, and no fewer. The encoding has no
leading zero groups, which is all that least length means. -/
theorem length_encodeNat_le_iff {n k : Nat} (hk : 0 < k) :
    (encodeNat n).length ≤ k ↔ n < 128 ^ k := by
  induction k generalizing n with
  | zero => omega
  | succ k ih =>
      have hpos : 0 < 128 ^ k := Nat.pow_pos (by decide)
      rw [encodeNat, Nat.pow_succ]
      by_cases hlt : n < 128
      · rw [if_pos hlt, List.length_singleton]
        omega
      · rw [if_neg hlt, List.length_cons, Nat.add_le_add_iff_right]
        rcases Nat.eq_zero_or_pos k with rfl | hk
        · have hne := List.length_pos_iff.2 (encodeNat_ne_nil (n / 128))
          omega
        · rw [ih hk, Nat.div_lt_iff_lt_mul (by decide)]

theorem length_encode_le (v : UInt32) : (encode v).length ≤ maxBytes := by
  have hlt := v.toNat_lt
  exact (length_encodeNat_le_iff (by decide)).2 (by simp only [maxBytes]; omega)

theorem takes_read (v : UInt32) : Reader.Takes read (encode v) v := by
  have h := (takes_groups (closed_encodeNat _) (length_encode_le v)).yield
    fun bs => UInt32.ofNat (denoted bs)
  rwa [denoted_encodeNat, UInt32.ofNat_toNat] at h

end SevenBit

end CilAudit
