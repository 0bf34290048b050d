import CilAudit.Trace.Resolution

/-!
# Trails: what a trace does, its limits left aside

`producer` and `Route.origin` count steps and hops while they search, and every
limit only ever decides a refusal. What they search for can be said without
counting: `Produces` is the backward count of stack slots as a relation, and a
`Trail` is the row of hops from a query to the text it ends at. A trace that
answers has a trail (`trail_of_origin`), a trail is found as soon as the limits
cover its start (`origin_of_trail`), and there is at most one (`Trail.unique`).

The step between the two is `Route.follow`, what a trace makes of a producer
once it has found one. It knows nothing of limits, so `origin_eq` cuts `origin`
into a search, a `follow` and a hop.
-/

namespace CilAudit

open Code (Body Instruction StackEffect)

/-! ## Counting back to a producer -/

/-- `p` pushed the slot that lies `need` below the top before `start`: counting
back from `start` meets no stop and no unknown effect until the slot falls
among the pushes of `p`. -/
inductive Produces (body : Body) (halts : Nat → Bool) :
    (start need p : Nat) → Prop
  | here {index need : Nat} {i : Instruction} {e : StackEffect} :
      halts (index + 1) = false → body.get? index = some i →
      i.effect? = some e →
      need < e.pushes → Produces body halts (index + 1) need index
  | earlier {index need p : Nat} {i : Instruction} {e : StackEffect} :
      halts (index + 1) = false → body.get? index = some i →
      i.effect? = some e →
      e.pushes ≤ need → Produces body halts index (need - e.pushes + e.pops) p →
      Produces body halts (index + 1) need p

theorem Produces.lt {body : Body} {halts : Nat → Bool} {start need p : Nat}
    (h : Produces body halts start need p) : p < start := by
  induction h with
  | here => omega
  | earlier _ _ _ _ _ ih => omega

/-- A search that answers has counted back to a producer, one step for each
instruction. The number of steps comes out as the distance, which is how
ceilings are compared with places. -/
theorem produces_of_producer {body : Body} {halts : Nat → Bool}
    {maxSteps start need steps p steps' : Nat}
    (h : producer body halts maxSteps start need steps = .ok (p, steps')) :
    Produces body halts start need p ∧ steps' = steps + (start - p) := by
  induction start generalizing need steps with
  | zero =>
      rw [producer] at h
      split at h <;> simp at h
  | succ index ih =>
      rw [producer] at h
      split at h
      · simp at h
      · next hstop =>
          split at h
          · simp at h
          · next i hi =>
              split at h
              · simp at h
              · split at h
                · simp at h
                · next e he =>
                    split at h
                    · next hlt =>
                        simp only [Except.ok.injEq, Prod.mk.injEq] at h
                        obtain ⟨rfl, rfl⟩ := h
                        exact ⟨.here (by simpa using hstop) hi he hlt, by omega⟩
                    · next hge =>
                        obtain ⟨hp, hs⟩ := ih h
                        have hlt := hp.lt
                        exact ⟨.earlier (by simpa using hstop) hi he
                          (by omega) hp, by omega⟩

/-- A producer is found by every search that may take the steps back to it, and
that does not halt on the way. -/
theorem producer_of_produces {body : Body} {halts : Nat → Bool}
    {maxSteps start need steps p : Nat}
    (h : Produces body halts start need p)
    (hs : steps + (start - p) ≤ maxSteps) :
    producer body halts maxSteps start need steps =
      .ok (p, steps + (start - p)) := by
  induction h generalizing steps with
  | @here index need i e hstop hi he hlt =>
      rw [producer, if_neg (by simp [hstop]), hi]
      dsimp only
      rw [if_neg (by omega), he]
      dsimp only
      rw [if_pos hlt, show steps + (index + 1 - index) = steps + 1 by omega]
  | @earlier index need p i e hstop hi he hge hp ih =>
      have hlt := hp.lt
      rw [producer, if_neg (by simp [hstop]), hi]
      dsimp only
      rw [if_neg (by omega), he]
      dsimp only
      rw [if_neg (by omega), ih (by omega)]
      rw [show steps + 1 + (index - p) = steps + (index + 1 - p) by omega]

theorem Produces.unique {body : Body} {halts : Nat → Bool}
    {start need p q : Nat}
    (hp : Produces body halts start need p)
    (hq : Produces body halts start need q) : p = q := by
  have h1 : producer body halts start start need 0 = .ok (p, 0 + (start - p)) :=
    producer_of_produces hp (by omega)
  have h2 : producer body halts start start need 0 = .ok (q, 0 + (start - q)) :=
    producer_of_produces hq (by omega)
  rw [h1] at h2
  simp only [Except.ok.injEq, Prod.mk.injEq] at h2
  exact h2.1

/-! ## One hop at a time -/

inductive Hop where
  /-- From a load to the store that it sees. -/
  | stored (load store : Nat)
  /-- From a concatenation to its first operand. -/
  | joined (call : Nat)
deriving DecidableEq, Repr

/-- What a trace makes of a producer: it has the text, or it copies a slot of
which the text is asked next. -/
inductive Turn where
  /-- The text stands here. -/
  | found (origin : Origin)
  /-- The text is that of another slot, `need` below the top before `start`. -/
  | hop (hop : Hop) (start need : Nat)
deriving DecidableEq, Repr

namespace Route

/-- What the trace makes of the producer at `p`. It is the middle of
`Route.origin`, taken out so that it can be spoken of alone; `origin_eq` puts
it back. -/
def follow (r : Route) (p : Nat) : Except Reason Turn :=
  match r.body.get? p with
  | none => .error .exhausted
  | some i =>
    match i.op.category with
    | .pushLiteral =>
      match i.literal? with
      | some text => .ok (.found (.literal text))
      | none => .error .unsupported
    | .loadLocal =>
      match r.body.storeOf? p with
      | none => .error .noStore
      | some store =>
        if r.haltsBetween store p then .error .joinPoint
        else if i.localIndex?.any fun slot =>
            r.body.addressTaken slot (store + 1) p then
          .error .addressTaken
        else .ok (.hop (.stored p store) store 0)
    | .call =>
      match i.callTarget? with
      | none => .error .unsupported
      | some target =>
        match r.assembly.shapeOf .debugWriteLineIf target with
        | .concatenation =>
          match slotDepth? target.params.length 0 with
          | none => .error .badPosition
          | some first => .ok (.hop (.joined p) p first)
        | .resourceAccessor declaringType key =>
            .ok (.found (.resource declaringType key))
        | .diagnosticWrite | .unrecognized => .error .unsupported
    | .storeLocal | .loadField | .branch | .other => .error .unsupported

/-- A trace is a search for the producer, a look at it, and a hop if the limit
allows one. -/
theorem origin_eq (r : Route) (start need steps hops : Nat) :
    r.origin start need steps hops =
      match producer r.body r.halts r.maxSteps start need steps with
      | .error reason => .error reason
      | .ok (p, steps) =>
        match r.follow p with
        | .error reason => .error reason
        | .ok (.found origin) => .ok origin
        | .ok (.hop _ start need) =>
          if r.maxHops ≤ hops then .error .budget
          else r.origin start need steps (hops + 1) := by
  rw [origin]
  split
  · next hp => rw [hp]
  · next p steps hp =>
      rw [hp]
      dsimp only
      unfold follow
      repeat' split
      all_goals simp_all

/-- The four ways on from a producer, with all that was checked on each. Every
theorem about traces takes them from here and none looks at the categories of
instructions again. -/
inductive Follows (r : Route) (p : Nat) : Turn → Prop
  | literal {i : Instruction} {text : String} :
      r.body.get? p = some i → i.literal? = some text →
      Follows r p (.found (.literal text))
  | resource {i : Instruction} {target : Code.Target}
      {declaringType key : String} :
      r.body.get? p = some i → i.callTarget? = some target →
      r.assembly.shapeOf .debugWriteLineIf target =
        .resourceAccessor declaringType key →
      Follows r p (.found (.resource declaringType key))
  | stored {i : Instruction} {slot : UInt16} {store : Nat} :
      r.body.get? p = some i → i.loadedSlot? = some slot →
      r.body.lastStore? slot p = some store → r.haltsBetween store p = false →
      r.body.addressTaken slot (store + 1) p = false →
      Follows r p (.hop (.stored p store) store 0)
  | joined {i : Instruction} {target : Code.Target} :
      r.body.get? p = some i → i.callTarget? = some target →
      r.assembly.shapeOf .debugWriteLineIf target = .concatenation →
      Follows r p (.hop (.joined p) p (target.params.length - 1))

end Route

/-- A concatenation has a first operand. -/
theorem params_pos_of_concatenation {a : Assembly} {d : DiagnosticMethod}
    {t : Code.Target}
    (h : a.shapeOf d t = .concatenation) : 0 < t.params.length := by
  unfold Assembly.shapeOf at h
  split at h
  · next hc =>
      simp only [isConcatenation, Bool.and_eq_true, decide_eq_true_eq] at hc
      omega
  · split at h
    · simp at h
    · split at h <;> simp at h

namespace Code.Instruction

theorem category_of_literal? {i : Instruction} {text : String}
    (h : i.literal? = some text) :
    i.op.category = .pushLiteral := by
  unfold literal? at h
  split at h
  · assumption
  · simp at h

theorem category_of_callTarget? {i : Instruction} {target : Target}
    (h : i.callTarget? = some target) : i.op.category = .call := by
  unfold callTarget? at h
  split at h
  · assumption
  · simp at h

theorem literal?_eq_none {i : Instruction} (h : i.op.category ≠ .pushLiteral) :
    i.literal? = none := by
  unfold literal?
  split
  · contradiction
  · rfl

theorem loadedSlot?_eq_none {i : Instruction} (h : i.op.category ≠ .loadLocal) :
    i.loadedSlot? = none := if_neg h

theorem loadedSlot?_eq_some {i : Instruction} {slot : UInt16} :
    i.loadedSlot? = some slot ↔
    i.op.category = .loadLocal ∧ i.localIndex? = some slot := by
  unfold loadedSlot?
  split <;> simp_all

end Code.Instruction

theorem Code.Body.addressTaken_iff {body : Body} {slot : UInt16}
    {first stop : Nat} :
    body.addressTaken slot first stop = true ↔
      ∃ k i, first ≤ k ∧ k < stop ∧ body.get? k = some i ∧
        i.addressOf? = some slot := by
  simp only [addressTaken, Array.any_eq_true', Array.mem_iff_getElem?,
    Array.getElem?_extract, beq_iff_eq]
  constructor
  · rintro ⟨i, ⟨n, hn⟩, haddr⟩
    split at hn
    · exact ⟨first + n, i, by omega, by omega, hn, haddr⟩
    · cases hn
  · rintro ⟨k, i, hlo, hhi, hi, haddr⟩
    have hk : k < body.code.size := (Array.getElem?_eq_some_iff.1 hi).1
    refine ⟨i, ⟨k - first, ?_⟩, haddr⟩
    rw [if_pos (by omega), show first + (k - first) = k by omega]
    exact hi

namespace Route

theorem follows_of_follow {r : Route} {p : Nat} {turn : Turn}
    (h : r.follow p = .ok turn) :
    r.Follows p turn := by
  unfold follow at h
  split at h
  · simp at h
  · next i hi =>
      split at h
      · split at h
        · next text ht =>
            simp only [Except.ok.injEq] at h
            subst h
            exact .literal hi ht
        · simp at h
      · split at h
        · simp at h
        · next store hstore =>
            simp only [Body.storeOf?, hi, Option.bind_eq_bind, Option.bind_some,
              Option.bind_eq_some_iff] at hstore
            obtain ⟨slot, hslot, hstore⟩ := hstore
            have hindex := (Instruction.loadedSlot?_eq_some.1 hslot).2
            rw [hindex] at h
            split at h
            · simp at h
            · next hjoin =>
                split at h
                · simp at h
                · next htaken =>
                    simp only [Except.ok.injEq] at h
                    subst h
                    exact .stored hi hslot hstore (by simpa using hjoin)
                      (by simpa using htaken)
      · split at h
        · simp at h
        · next target ht =>
            split at h
            · next hs =>
                rw [slotDepth?, if_pos (params_pos_of_concatenation hs)] at h
                simp only [Except.ok.injEq] at h
                subst h
                exact .joined hi ht hs
            · next hs =>
                simp only [Except.ok.injEq] at h
                subst h
                exact .resource hi ht hs
            all_goals simp at h
      all_goals simp at h

theorem follow_of_follows {r : Route} {p : Nat} {turn : Turn}
    (h : r.Follows p turn) :
    r.follow p = .ok turn := by
  unfold follow
  cases h with
  | literal hi ht =>
      rw [hi]
      dsimp only
      rw [Instruction.category_of_literal? ht]
      dsimp only
      rw [ht]
  | resource hi ht hs =>
      rw [hi]
      dsimp only
      rw [Instruction.category_of_callTarget? ht]
      dsimp only
      rw [ht]
      dsimp only
      rw [hs]
  | @stored i slot store hi hslot hstore hjoin htaken =>
      obtain ⟨hcat, hindex⟩ := Instruction.loadedSlot?_eq_some.1 hslot
      have hstored : r.body.storeOf? p = some store := by
        simp only [Body.storeOf?, hi, Option.bind_eq_bind, Option.bind_some,
          hslot, hstore]
      rw [hi]
      dsimp only
      rw [hcat]
      dsimp only
      rw [hstored]
      dsimp only
      rw [if_neg (by simp [hjoin]), if_neg (by simp [hindex, htaken])]
  | joined hi ht hs =>
      rw [hi]
      dsimp only
      rw [Instruction.category_of_callTarget? ht]
      dsimp only
      rw [ht]
      dsimp only
      rw [hs]
      dsimp only
      rw [slotDepth?, if_pos (params_pos_of_concatenation hs)]
      rfl

/-- A hop goes on from a place at or before the producer. With `producer_lt`
this is why traces descend. -/
theorem Follows.le {r : Route} {p start need : Nat} {hop : Hop}
    (h : r.Follows p (.hop hop start need)) : start ≤ p := by
  cases h with
  | stored _ _ hstore _ _ => exact Nat.le_of_lt (Body.lastStore?_lt hstore)
  | joined => exact Nat.le_refl _

/-- The hops from a query to the text it ends at. A trail has no limits in it:
whether a trace may follow it is another question, and `origin_of_trail`
answers it. -/
inductive Trail (r : Route) : (start need : Nat) → List Hop → Origin → Prop
  | found {start need p : Nat} {origin : Origin} :
      Produces r.body r.halts start need p → r.Follows p (.found origin) →
      Trail r start need [] origin
  | hop {start need p start' need' : Nat} {hop : Hop} {path : List Hop}
      {origin : Origin} :
      Produces r.body r.halts start need p →
      r.Follows p (.hop hop start' need') →
      Trail r start' need' path origin → Trail r start need (hop :: path) origin

/-- A trace that answers has a trail. -/
theorem trail_of_origin {r : Route} {start need steps hops : Nat} {o : Origin}
    (h : r.origin start need steps hops = .ok o) :
    ∃ path, r.Trail start need path o := by
  induction start using Nat.strongRecOn generalizing need steps hops with
  | ind start ih =>
      rw [origin_eq] at h
      split at h
      · simp at h
      · next p steps' hp =>
          obtain ⟨hp, -⟩ := produces_of_producer hp
          split at h
          · simp at h
          · next origin hf =>
              simp only [Except.ok.injEq] at h
              subst h
              exact ⟨[], .found hp (follows_of_follow hf)⟩
          · next hop start' need' hf =>
              have hf := follows_of_follow hf
              split at h
              · simp at h
              · have hlt := hp.lt
                have hle := hf.le
                obtain ⟨path, ht⟩ := ih start' (by omega) h
                exact ⟨hop :: path, .hop hp hf ht⟩

/-- A trail is found by a trace whose limits cover the instructions before its
start. Neither the steps nor the hops of a trail can exceed them, because every
hop starts before the last one. -/
theorem origin_of_trail {r : Route} {start need steps hops : Nat}
    {path : List Hop} {o : Origin}
    (h : r.Trail start need path o) (hsteps : steps + start ≤ r.maxSteps)
    (hhops : hops + start ≤ r.maxHops) :
    r.origin start need steps hops = .ok o := by
  induction h generalizing steps hops with
  | found hp hf =>
      rw [origin_eq, producer_of_produces hp (by omega)]
      dsimp only
      rw [follow_of_follows hf]
  | hop hp hf _ ih =>
      have hlt := hp.lt
      have hle := hf.le
      rw [origin_eq, producer_of_produces hp (by omega)]
      dsimp only
      rw [follow_of_follows hf]
      dsimp only
      rw [if_neg (by omega)]
      exact ih (by omega) (by omega)

theorem Trail.unique {r : Route} {start need : Nat} {path path' : List Hop}
    {o o' : Origin}
    (h : r.Trail start need path o) (h' : r.Trail start need path' o') :
    path = path' ∧ o = o' := by
  induction h generalizing path' o' with
  | found hp hf =>
      cases h' with
      | found hq hg =>
          obtain rfl := hp.unique hq
          have hturn := (follow_of_follows hf).symm.trans (follow_of_follows hg)
          simp only [Except.ok.injEq, Turn.found.injEq] at hturn
          exact ⟨rfl, hturn⟩
      | hop hq hg _ =>
          obtain rfl := hp.unique hq
          have hturn := (follow_of_follows hf).symm.trans (follow_of_follows hg)
          simp at hturn
  | hop hp hf _ ih =>
      cases h' with
      | found hq hg =>
          obtain rfl := hp.unique hq
          have hturn := (follow_of_follows hf).symm.trans (follow_of_follows hg)
          simp at hturn
      | hop hq hg ht =>
          obtain rfl := hp.unique hq
          have hturn := (follow_of_follows hf).symm.trans (follow_of_follows hg)
          simp only [Except.ok.injEq, Turn.hop.injEq] at hturn
          obtain ⟨rfl, rfl, rfl⟩ := hturn
          obtain ⟨rfl, ho⟩ := ih ht
          exact ⟨rfl, ho⟩

end Route

end CilAudit
