import CilAudit.Proofs.Execution

/-!
# Tracing backwards is interpreting forwards

Where code runs straight on, what a trace asks for can be computed the other
way round: run the code once from the front and note of every stack slot and
every local whether it holds a known text. The trace looks at the few
instructions that matter and counts slots; the forward run carries a whole
stack and all locals. `known_of_trail` and `trail_of_known` say that they agree
on every slot of every stack on the way.

The two meet in three places. A slot that counting back finds no producer for
does not exist, and any other holds what its producer made of the ledger in
front of it (`forward_slot`). A local holds what its nearest store found on top
of the stack (`forward_local`). And an instruction that is known to push a text
has it or copies it from a slot that is known to hold it (`follows_of_known`),
which is one hop of the trail.
-/

namespace CilAudit

open Code (Body Instruction StackEffect Target)

/-! ## The forward run -/

inductive Provenance where
  | known (text : String)
  | unknown
deriving DecidableEq, Repr

/-- What is known of every stack slot, top first, and of every local. A forward
run keeps one, and this is what a backward trace is compared with. -/
structure Ledger where
  stack : List Provenance := []
  locals : UInt16 → Provenance := fun _ => .unknown

namespace Ledger

/-- What is known of the value that a call leaves: that of a concatenation is
known by its first operand, that of a getter by its key. -/
def ofCall (a : Assembly) (l : Ledger) (target : Target) : Provenance :=
  match a.shapeOf .debugWriteLineIf target with
  | .concatenation => l.stack[target.params.length - 1]?.getD .unknown
  | .resourceAccessor declaringType key =>
    match a.text? declaringType key with
    | some text => .known text
    | none => .unknown
  | .diagnosticWrite | .unrecognized => .unknown

/-- What is known of the values that an instruction pushes. -/
def pushed (a : Assembly) (l : Ledger) (i : Instruction) : Provenance :=
  match i.literal?, i.loadedSlot?, i.callTarget? with
  | some text, _, _ => .known text
  | none, some slot, _ => l.locals slot
  | none, none, some target => l.ofCall a target
  | none, none, none => .unknown

/-- The ledger after an instruction, if its effect is known and the stack holds
what it takes. There is none otherwise, so a forward run ends there. -/
def step (a : Assembly) (l : Ledger) (i : Instruction) : Option Ledger :=
  match i.effect? with
  | none => none
  | some e =>
    if l.stack.length < e.pops then none
    else some {
      stack := List.replicate e.pushes (l.pushed a i) ++ l.stack.drop e.pops
      locals := fun slot =>
        if i.storesTo slot then l.stack[0]?.getD .unknown else l.locals slot }

/-- The ledger before the instruction at an index, when control runs straight
on from the start. -/
def forward (a : Assembly) (body : Body) : Nat → Option Ledger
  | 0 => some {}
  | index + 1 => do
      let l ← forward a body index
      let i ← body.get? index
      l.step a i

end Ledger

/-- No branch goes to an index up to `site`, and no address of a local is taken
before it. Under these conditions the tracer has no guard left to refuse by. -/
structure StraightTo (body : Body) (site : Nat) : Prop where
  joins : ∀ k, k ≤ site → body.isJoinPoint k = false
  addresses : ∀ k i, k < site → body.get? k = some i → i.addressOf? = none

section

variable {a : Assembly} {body : Body} {l l' : Ledger} {i : Instruction}

open Ledger (forward)

/-! ## One step of the forward run -/

theorem step_eq_some (h : l.step a i = some l') :
    ∃ e, i.effect? = some e ∧ e.pops ≤ l.stack.length ∧
      l'.stack = List.replicate e.pushes (l.pushed a i) ++ l.stack.drop e.pops ∧
      l'.locals = fun slot =>
        if i.storesTo slot then l.stack[0]?.getD .unknown
        else l.locals slot := by
  unfold Ledger.step at h
  split at h
  · simp at h
  · next e he =>
      split at h
      · simp at h
      · next hlen =>
          simp only [Option.some.injEq] at h
          subst h
          exact ⟨e, he, by omega, rfl, rfl⟩

theorem forward_succ {index : Nat} (h : forward a body (index + 1) = some l') :
    ∃ l i, forward a body index = some l ∧ body.get? index = some i ∧
      l.step a i = some l' := by
  simp only [forward, Option.bind_eq_bind, Option.bind_eq_some_iff] at h
  obtain ⟨l, hl, i, hi, hs⟩ := h
  exact ⟨l, i, hl, hi, hs⟩

theorem pushed_of_literal? {text : String} (h : i.literal? = some text) :
    l.pushed a i = .known text := by
  rw [Ledger.pushed, h]

theorem pushed_of_loadedSlot? {slot : UInt16} (h : i.loadedSlot? = some slot) :
    l.pushed a i = l.locals slot := by
  have hcat := (Instruction.loadedSlot?_eq_some.1 h).1
  rw [Ledger.pushed, Instruction.literal?_eq_none (by rw [hcat]; decide), h]

theorem pushed_of_callTarget? {target : Target}
    (h : i.callTarget? = some target) :
    l.pushed a i = l.ofCall a target := by
  have hcat := Instruction.category_of_callTarget? h
  rw [Ledger.pushed, Instruction.literal?_eq_none (by rw [hcat]; decide),
    Instruction.loadedSlot?_eq_none (by rw [hcat]; decide), h]

/-! ## Where forward and backward meet -/

/-- A slot of the stack before `start` holds what its producer pushed, and a
slot without a producer is not there. By induction on `start`, a step of the
run against a step of the count. -/
theorem forward_slot {halts : Nat → Bool} {start need : Nat}
    (hstops : ∀ k, k ≤ start → halts k = false)
    (h : forward a body start = some l) :
    (l.stack[need]? = none ∧ ∀ p, ¬Produces body halts start need p) ∨
      ∃ p l₀ i, Produces body halts start need p ∧ forward a body p = some l₀ ∧
        body.get? p = some i ∧ l.stack[need]? = some (l₀.pushed a i) := by
  induction start generalizing need l with
  | zero =>
      simp only [forward, Option.some.injEq] at h
      subst h
      exact Or.inl ⟨by simp, fun p hp => nomatch hp⟩
  | succ index ih =>
      obtain ⟨l₀, i, hl₀, hi, hs⟩ := forward_succ h
      obtain ⟨e, he, -, hstack, -⟩ := step_eq_some hs
      have hstop := hstops (index + 1) (Nat.le_refl _)
      by_cases hneed : need < e.pushes
      · refine Or.inr ⟨index, l₀, i, .here hstop hi he hneed, hl₀, hi, ?_⟩
        rw [hstack, List.getElem?_append_left (by simpa using hneed),
          List.getElem?_replicate_of_lt hneed]
      · have hslot : l.stack[need]? = l₀.stack[need - e.pushes + e.pops]? := by
          rw [hstack, List.getElem?_append_right (by simpa using hneed),
            List.getElem?_drop, List.length_replicate, Nat.add_comm]
        rw [hslot]
        have hbefore : ∀ k, k ≤ index → halts k = false := fun k hk =>
          hstops k (by omega)
        rcases ih hbefore hl₀ with ⟨hnone, hno⟩ | ⟨p, l₁, j, hp, hl₁, hj, hv⟩
        · refine Or.inl ⟨hnone, fun p hp => ?_⟩
          cases hp with
          | here _ hi' he' hlt =>
              obtain rfl := Option.some.inj (hi.symm.trans hi')
              obtain rfl := Option.some.inj (he.symm.trans he')
              exact hneed hlt
          | earlier _ hi' he' _ hp =>
              obtain rfl := Option.some.inj (hi.symm.trans hi')
              obtain rfl := Option.some.inj (he.symm.trans he')
              exact hno p hp
        · exact Or.inr ⟨p, l₁, j, .earlier hstop hi he (by omega) hp,
            hl₁, hj, hv⟩

/-- A local holds what its nearest store took from the stack, or nothing is
known of it if there is none. -/
theorem forward_local {index : Nat} (h : forward a body index = some l)
    (slot : UInt16) :
    l.locals slot = ((body.lastStore? slot index).bind fun store =>
      (forward a body store).bind (·.stack[0]?)).getD .unknown := by
  induction index generalizing l with
  | zero =>
      simp only [forward, Option.some.injEq] at h
      subst h
      rfl
  | succ index ih =>
      obtain ⟨l₀, i, hl₀, hi, hs⟩ := forward_succ h
      obtain ⟨e, -, -, -, hlocals⟩ := step_eq_some hs
      rw [hlocals, Body.lastStore?, hi]
      by_cases hstore : i.storesTo slot = true
      · simp [hstore, hl₀]
      · simp [hstore, ih hl₀]

theorem forward_of_le {index earlier : Nat} (h : forward a body index = some l)
    (hle : earlier ≤ index) : ∃ l₀, forward a body earlier = some l₀ := by
  induction index generalizing l with
  | zero =>
      obtain rfl : earlier = 0 := by omega
      exact ⟨l, h⟩
  | succ index ih =>
      rcases Nat.lt_or_ge index earlier with hlt | hge
      · obtain rfl : earlier = index + 1 := by omega
        exact ⟨l, h⟩
      · obtain ⟨l₀, _, hl₀, _, _⟩ := forward_succ h
        exact ih hl₀ hge

theorem eq_some_of_getD_known {v : Option Provenance} {text : String}
    (h : v.getD .unknown = .known text) : v = some (.known text) := by
  cases v with
  | none => simp at h
  | some p => simpa using h

theorem addressTaken_eq_false {slot : UInt16} {first stop : Nat}
    (h : ∀ k i, k < stop → body.get? k = some i → i.addressOf? = none) :
    body.addressTaken slot first stop = false := by
  rw [Bool.eq_false_iff, ne_eq, Body.addressTaken_iff]
  rintro ⟨k, i, -, hlt, hi, haddr⟩
  rw [h k i hlt hi] at haddr
  cases haddr

end

theorem Route.halts_of_isJoinPoint {limits : Limits} {a : Assembly}
    {body : Body} {index : Nat}
    (h : body.isJoinPoint index = false) :
    (ofLimits limits a body).halts index = false := by
  unfold halts ofLimits
  dsimp only
  split
  · exact h
  · simp

section

variable {r : Route} {start need : Nat} {l : Ledger} {text : String}

open Ledger (forward)

/-- What stands at the end of a trail is known of its slot. By induction on the
trail, each hop of which is a copy that the forward run has made. -/
theorem known_of_trail {path : List Hop} {o : Origin}
    (ht : r.Trail start need path o)
    (hstops : ∀ k, k ≤ start → r.halts k = false)
    (hl : forward r.assembly r.body start = some l)
    (ho : o.text? r.assembly = some text) :
    l.stack[need]? = some (.known text) := by
  induction ht generalizing l with
  | found hp hf =>
      rcases forward_slot hstops hl with ⟨-, hno⟩ | ⟨q, l₀, i, hq, -, hi, hv⟩
      · exact absurd hp (hno _)
      obtain rfl := hp.unique hq
      rw [hv]
      cases hf with
      | literal hi' hlit =>
          obtain rfl := Option.some.inj (hi.symm.trans hi')
          obtain rfl := Option.some.inj ho
          rw [pushed_of_literal? hlit]
      | resource hi' hcall hshape =>
          obtain rfl := Option.some.inj (hi.symm.trans hi')
          rw [pushed_of_callTarget? hcall, Ledger.ofCall, hshape]
          dsimp only
          rw [show r.assembly.text? _ _ = some text from ho]
  | @hop start need p start' need' hop path o hp hf _ ih =>
      rcases forward_slot hstops hl with ⟨-, hno⟩ | ⟨q, l₀, i, hq, hl₀, hi, hv⟩
      · exact absurd hp (hno _)
      obtain rfl := hp.unique hq
      have hlt := hp.lt
      have hle := hf.le
      obtain ⟨l₁, hl₁⟩ := forward_of_le hl₀ hle
      have hslot := ih (fun k hk => hstops k (by omega)) hl₁ ho
      rw [hv]
      cases hf with
      | @stored _ slot _ hi' hload hstore _ _ =>
          obtain rfl := Option.some.inj (hi.symm.trans hi')
          rw [pushed_of_loadedSlot? hload, forward_local hl₀, hstore]
          simp [hl₁, hslot]
      | @joined _ target hi' hcall hshape =>
          obtain rfl := Option.some.inj (hi.symm.trans hi')
          obtain rfl := Option.some.inj (hl₀.symm.trans hl₁)
          rw [pushed_of_callTarget? hcall, Ledger.ofCall, hshape]
          dsimp only
          rw [hslot]
          rfl

/-- An instruction that pushes a known text is one that a trace can follow: it
has the text, or it copies a slot of which the text is known. -/
theorem follows_of_known {p : Nat} {i : Instruction}
    (hi : r.body.get? p = some i)
    (hl : forward r.assembly r.body p = some l)
    (hstops : ∀ k, k ≤ p → r.halts k = false)
    (haddr : ∀ k i, k < p → r.body.get? k = some i → i.addressOf? = none)
    (h : l.pushed r.assembly i = .known text) :
    (∃ o, r.Follows p (.found o) ∧ o.text? r.assembly = some text) ∨
      ∃ hop start need l₀, r.Follows p (.hop hop start need) ∧
        forward r.assembly r.body start = some l₀ ∧
        l₀.stack[need]? = some (.known text) := by
  cases hlit : i.literal? with
  | some t =>
      rw [pushed_of_literal? hlit, Provenance.known.injEq] at h
      subst h
      exact Or.inl ⟨.literal t, .literal hi hlit, rfl⟩
  | none =>
      cases hload : i.loadedSlot? with
      | some slot =>
          rw [pushed_of_loadedSlot? hload, forward_local hl] at h
          have hvalue := eq_some_of_getD_known h
          simp only [Option.bind_eq_some_iff] at hvalue
          obtain ⟨store, hstore, l₀, hl₀, htop⟩ := hvalue
          have hbetween : r.haltsBetween store p = false := by
            rw [Route.haltsBetween, List.any_eq_false]
            intro k hk
            rw [List.mem_range'_1] at hk
            simp [hstops k (by omega)]
          exact Or.inr ⟨_, store, 0, l₀,
            .stored hi hload hstore hbetween (addressTaken_eq_false haddr),
            hl₀, htop⟩
      | none =>
          cases hcall : i.callTarget? with
          | some target =>
              rw [pushed_of_callTarget? hcall] at h
              unfold Ledger.ofCall at h
              split at h
              · next hshape =>
                  exact Or.inr ⟨_, p, _, l, .joined hi hcall hshape, hl,
                    eq_some_of_getD_known h⟩
              · next declaringType key hshape =>
                  split at h
                  · next t ht =>
                      rw [Provenance.known.injEq] at h
                      subst h
                      exact Or.inl ⟨.resource declaringType key,
                        .resource hi hcall hshape, ht⟩
                  · simp at h
              all_goals simp at h
          | none => simp [Ledger.pushed, hlit, hload, hcall] at h

/-- A slot of which a text is known has a trail to it. By strong induction on
the place, since a copy may have been made any distance before. -/
theorem trail_of_known (hstops : ∀ k, k ≤ start → r.halts k = false)
    (haddr : ∀ k i, k < start → r.body.get? k = some i → i.addressOf? = none)
    (hl : forward r.assembly r.body start = some l)
    (h : l.stack[need]? = some (.known text)) :
    ∃ path o, r.Trail start need path o ∧ o.text? r.assembly = some text := by
  induction start using Nat.strongRecOn generalizing need l with
  | ind start ih =>
      rcases forward_slot hstops hl with
        ⟨hnone, -⟩ | ⟨p, l₀, i, hp, hl₀, hi, hv⟩
      · rw [hnone] at h
        simp at h
      have hlt := hp.lt
      rw [hv, Option.some.injEq] at h
      rcases follows_of_known hi hl₀ (fun k hk => hstops k (by omega))
          (fun k i hk => haddr k i (by omega)) h with
        ⟨o, hf, ho⟩ | ⟨hop, start', need', l₁, hf, hl₁, hslot⟩
      · exact ⟨[], o, .found hp hf, ho⟩
      · have hle := hf.le
        obtain ⟨path, o, ht, ho⟩ :=
          ih start' (by omega) (fun k hk => hstops k (by omega))
          (fun k i hk => haddr k i (by omega)) hl₁ hslot
        exact ⟨hop :: path, o, .hop hp hf ht, ho⟩

end

/-- On straight-line code the tracer finds a text exactly where the forward run
knows one. Neither direction needs the other's definitions: a trail on the one
side meets a ledger on the other. -/
theorem resolved_iff_forward_known (limits : Limits) (a : Assembly)
    (body : Body)
    (site position : Nat) (cache : Cache) (target : Target) (l : Ledger)
    (text : String)
    (hcache : cache.FilledFor a) (htarget : body.callTarget? site = some target)
    (hposition : position < target.params.length)
    (hstraight : StraightTo body site)
    (hforward : Ledger.forward a body site = some l)
    (hsteps : site ≤ limits.maxSteps) (hhops : site ≤ limits.maxHops) :
    (resolveArgument limits a body site position cache).1 = .resolved text ↔
      l.stack[target.params.length - 1 - position]? = some (.known text) := by
  have hstops : ∀ k, k ≤ site →
      (Route.ofLimits limits a body).halts k = false :=
    fun k hk => Route.halts_of_isJoinPoint (hstraight.joins k hk)
  rw [resolved_iff hcache]
  constructor
  · rintro ⟨target', o, htarget', -, horigin, ho⟩
    obtain rfl := Option.some.inj (htarget.symm.trans htarget')
    obtain ⟨path, ht⟩ := Route.trail_of_origin horigin
    exact known_of_trail ht hstops hforward ho
  · intro hknown
    have ⟨path, o, ht, ho⟩ :=
      @trail_of_known (Route.ofLimits limits a body) site _ l text hstops
        hstraight.addresses hforward hknown
    exact ⟨target, o, htarget, hposition,
      Route.origin_of_trail ht (show 0 + site ≤ limits.maxSteps by omega)
        (show 0 + site ≤ limits.maxHops by omega), ho⟩

theorem resolved_iff_forward_known_storedNotice :
    ∃ l, Ledger.forward ⟨"Sample", [], ∅⟩ storedNotice 5 = some l ∧
      StraightTo storedNotice 5 ∧
      l.stack[0]? = some (.known "missing dispose") ∧
      (resolveArgument {} ⟨"Sample", [], ∅⟩ storedNotice 5 0 {}).1 =
        .resolved "missing dispose" := by
  have hstraight : StraightTo storedNotice 5 := by
    refine ⟨by decide +kernel, fun k i _ hi => ?_⟩
    have hall : ∀ i ∈ storedNotice.code, i.addressOf? = none := by
      decide +kernel
    exact hall i (Array.mem_of_getElem? hi)
  refine ⟨_, rfl, hstraight, rfl, ?_⟩
  exact (resolved_iff_forward_known {} ⟨"Sample", [], ∅⟩ storedNotice 5 0
    {} _ _ _ .empty rfl (by decide) hstraight rfl (by decide) (by decide)).2 rfl

end CilAudit
