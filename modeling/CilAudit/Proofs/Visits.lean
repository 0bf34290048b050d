import CilAudit.Proofs.Loosening

/-!
# Traces end without their ceilings

A trace has two loops, the search for a producer and the hops from one search
to the next, and two counters that both loops share. Neither counter is what
ends it. Each step of a search visits the instruction right before the last
one, and a hop goes on from a place at or before the producer, which was
visited last. So the visits of a whole trace go down strictly, across its hops
too, and all of them lie before the call; and so do the places that the hops
start from.

To speak of visits, the search and the trace are written a second time with a
log of them. They answer as the first ones do (`search_answer`, `trace_answer`)
and count what they log. What one search logs is said exactly
(`visited_search`), a hop keeps the log of a trace descending (`Descends.hop`),
and so the log of every trace is. The ceilings then only matter where they lie
below the call, and any two that do not give one answer by the lockstep of
looser limits.
-/

namespace CilAudit

open Code (Body)

/-! ## Searches -/

namespace Logged

/-- A search for a producer, and the indices of the instructions that it
visited. -/
structure Search where
  answer : Except Reason (Nat × Nat)
  visited : List Nat

/-- `producer`, with a log: one visit for each step. `search_answer` says that
the log is all that was added. -/
def search (body : Body) (halts : Nat → Bool) (maxSteps : Nat) :
    (start need steps : Nat) → Search
  | 0, _, _ => ⟨if halts 0 then .error .joinPoint else .error .exhausted, []⟩
  | index + 1, need, steps =>
    if halts (index + 1) then ⟨.error .joinPoint, []⟩
    else
      match body.get? index with
      | none => ⟨.error .exhausted, []⟩
      | some i =>
        if maxSteps ≤ steps then ⟨.error .budget, []⟩
        else
          match i.effect? with
          | none => ⟨.error .unknownEffect, [index]⟩
          | some e =>
            if need < e.pushes then ⟨.ok (index, steps + 1), [index]⟩
            else
              let rest := search body halts maxSteps index
                (need - e.pushes + e.pops) (steps + 1)
              ⟨rest.answer, index :: rest.visited⟩

theorem search_answer (body : Body) (halts : Nat → Bool)
    (maxSteps start need steps : Nat) :
    (search body halts maxSteps start need steps).answer =
      producer body halts maxSteps start need steps := by
  induction start generalizing need steps with
  | zero => rfl
  | succ index ih =>
      rw [search, producer]
      split
      · rfl
      · cases body.get? index with
        | none => rfl
        | some i =>
            dsimp only
            split
            · rfl
            · cases i.effect? with
              | none => rfl
              | some e =>
                  dsimp only
                  split
                  · rfl
                  · exact ih _ _

def downTo (low start : Nat) : List Nat :=
  (List.range' low (start - low)).reverse

@[simp] theorem downTo_self (low : Nat) : downTo low low = [] := by
  simp [downTo]

theorem downTo_succ {low index : Nat} (h : low ≤ index) :
    downTo low (index + 1) = index :: downTo low index := by
  rw [downTo, show index + 1 - low =
    (index - low) + 1 by omega, List.range'_1_concat]
  simp [downTo, h]

@[simp] theorem mem_downTo {low start index : Nat} :
    index ∈ downTo low start ↔ low ≤ index ∧ index < start := by
  simp only [downTo, List.mem_reverse, List.mem_range'_1]
  omega

@[simp] theorem length_downTo (low start : Nat) :
    (downTo low start).length = start - low := by
  simp [downTo]

theorem pairwise_downTo (low start : Nat) :
    (downTo low start).Pairwise (· > ·) := by
  rw [downTo, List.pairwise_reverse]
  exact List.pairwise_lt_range'

/-- A search visits what lies before its start, one after the other, and ends
at the producer if it finds one. It has counted its visits then, and never
makes more than it may. -/
theorem visited_search (body : Body) (halts : Nat → Bool)
    (maxSteps start need steps : Nat) :
    ∃ low ≤ start, (search body halts maxSteps start need steps).visited =
      downTo low start ∧
      (steps ≤ maxSteps → steps + (start - low) ≤ maxSteps) ∧
      ∀ p steps', (search body halts maxSteps start need steps).answer =
        .ok (p, steps') →
        p = low ∧ steps' = steps + (start - low) := by
  fun_induction search body halts maxSteps start need steps with
  | case1 need steps =>
      refine ⟨0, Nat.le_refl _, (downTo_self 0).symm, by omega, ?_⟩
      intro p steps' h
      dsimp only at h
      split at h <;> cases h
  | case2 index need steps _ =>
      exact ⟨index + 1, by omega, by simp, by omega, by simp⟩
  | case3 index need steps _ _ =>
      exact ⟨index + 1, by omega, by simp, by omega, by simp⟩
  | case4 index need steps _ _ _ =>
      exact ⟨index + 1, by omega, by simp, by omega, by simp⟩
  | case5 index need steps _ i _ _ _ =>
      exact ⟨index, by omega, by simp [downTo_succ], by omega, by simp⟩
  | case6 index need steps _ i _ _ e _ _ =>
      refine ⟨index, by omega, by simp [downTo_succ], by omega, ?_⟩
      intro p steps' h
      simp only [Except.ok.injEq, Prod.mk.injEq] at h
      omega
  | case7 index need steps _ i _ _ e _ _ rest ih =>
      obtain ⟨low, hle, hvisited, hcount, hfound⟩ := ih
      refine ⟨low, by omega, ?_, by omega, ?_⟩
      · rw [downTo_succ hle]
        exact congrArg (index :: ·) hvisited
      · intro p steps' h
        have hfound := hfound p steps' h
        omega

end Logged

open Logged (downTo mem_downTo pairwise_downTo)

/-! ## Traces -/

/-- One search of a trace: where it started and what it visited. -/
structure Leg where
  start : Nat
  visited : List Nat
deriving DecidableEq, Repr

def visits (legs : List Leg) : List Nat := legs.flatMap Leg.visited

namespace Logged

/-- A trace and its legs. Each leg but the first was begun by a hop, so there
is one leg more than there were hops. -/
structure Trace where
  answer : Except Reason Origin
  legs : List Leg

/-- `Route.origin`, with a log of its legs. The log is not read by anything but
theorems. -/
def trace (r : Route) (start need steps hops : Nat) : Trace :=
  let found := search r.body r.halts r.maxSteps start need steps
  let leg : Leg := ⟨start, found.visited⟩
  match _hp : found.answer with
  | .error reason => ⟨.error reason, [leg]⟩
  | .ok (p, steps) =>
    match _hf : r.follow p with
    | .error reason => ⟨.error reason, [leg]⟩
    | .ok (.found origin) => ⟨.ok origin, [leg]⟩
    | .ok (.hop _ start need) =>
      if r.maxHops ≤ hops then ⟨.error .budget, [leg]⟩
      else
        let rest := trace r start need steps (hops + 1)
        ⟨rest.answer, leg :: rest.legs⟩
termination_by start
decreasing_by
  have hlt := producer_lt ((search_answer ..).symm.trans _hp)
  have hle := (Route.follows_of_follow _hf).le
  omega

theorem trace_answer (r : Route) (start need steps hops : Nat) :
    (trace r start need steps hops).answer =
      r.origin start need steps hops := by
  fun_induction trace r start need steps hops with
  | case1 start need steps hops found leg reason hp =>
      rw [Route.origin_eq, ← search_answer, hp]
  | case2 start need steps hops found leg p steps' hp reason hf =>
      rw [Route.origin_eq, ← search_answer, hp]
      dsimp only
      rw [hf]
  | case3 start need steps hops found leg p steps' hp origin hf =>
      rw [Route.origin_eq, ← search_answer, hp]
      dsimp only
      rw [hf]
  | case4 start need steps hops found leg p steps' hp hop start' need' hf
      hout =>
      rw [Route.origin_eq, ← search_answer, hp]
      dsimp only
      rw [hf]
      dsimp only
      rw [if_pos hout]
  | case5 start need steps hops found leg p steps' hp hop start' need' hf hleft
      rest ih =>
      rw [Route.origin_eq, ← search_answer, hp]
      dsimp only
      rw [hf]
      dsimp only
      rw [if_neg hleft]
      exact ih

end Logged

/-! ## Logs descend -/

/-- Every visit and every start of a leg lies below the one before it, and all
of them below `start`, where the first leg may start itself. -/
structure Descends (start : Nat) (legs : List Leg) : Prop where
  visits : (visits legs).Pairwise (· > ·)
  below : ∀ index ∈ CilAudit.visits legs, index < start
  starts : (legs.map Leg.start).Pairwise (· > ·)
  within : ∀ leg ∈ legs, leg.start ≤ start

namespace Descends

variable {start start' low : Nat} {legs : List Leg}

theorem single (low start : Nat) :
    Descends start [⟨start, downTo low start⟩] where
  visits := by simpa [CilAudit.visits] using pairwise_downTo low start
  below := by simp [CilAudit.visits]
  starts := by simp
  within := by simp

theorem hop (h : Descends start' legs) (hle : start' ≤ low)
    (hlt : low < start) :
    Descends start (⟨start, downTo low start⟩ :: legs) where
  visits := by
    rw [CilAudit.visits, List.flatMap_cons, List.pairwise_append]
    refine ⟨pairwise_downTo low start, h.visits, ?_⟩
    -- The hop goes on at or below `low`, the last visit of the leg in front.
    intro index hindex later hlater
    have hlater := h.below later hlater
    rw [mem_downTo] at hindex
    omega
  below := by
    intro index hindex
    rcases List.mem_append.1 hindex with hindex | hindex
    · exact (mem_downTo.1 hindex).2
    · have hindex := h.below index hindex
      omega
  starts := by
    rw [List.map_cons, List.pairwise_cons]
    refine ⟨?_, h.starts⟩
    intro later hlater
    obtain ⟨leg, hleg, rfl⟩ := List.mem_map.1 hlater
    have hleg := h.within leg hleg
    dsimp only
    omega
  within := by
    intro leg hleg
    rcases List.mem_cons.1 hleg with rfl | hleg
    · exact Nat.le_refl _
    · have hleg := h.within leg hleg
      omega

/-- A strictly descending list has at most as many members as there are numbers
below its bound. All bounds on traces come from this. -/
theorem length_le {l : List Nat} {bound : Nat} (h : l.Pairwise (· > ·))
    (hbelow : ∀ index ∈ l, index < bound) : l.length ≤ bound := by
  have hnodup : l.Nodup := h.imp fun hgt => Nat.ne_of_gt hgt
  have hsubset : l ⊆ List.range bound := by
    intro index hindex
    exact List.mem_range.2 (hbelow index hindex)
  simpa using (List.subperm_of_subset hnodup hsubset).length_le

theorem length_visits (h : Descends start legs) :
    (CilAudit.visits legs).length ≤ start :=
  length_le h.visits h.below

theorem length_tail (h : Descends start legs) : legs.tail.length ≤ start := by
  have hlength : (legs.map Leg.start).length ≤ start + 1 := by
    refine length_le h.starts ?_
    intro place hplace
    obtain ⟨leg, hleg, rfl⟩ := List.mem_map.1 hplace
    have hleg := h.within leg hleg
    omega
  rw [List.length_map] at hlength
  rw [List.length_tail]
  omega

end Descends

/-- What the log of a trace is like that had `steps` and `hops` behind it: it
descends, and it keeps to the ceilings. -/
structure Route.Accounts (r : Route) (start steps hops : Nat)
    (legs : List Leg) : Prop where
  descends : Descends start legs
  visits : steps ≤ r.maxSteps → steps + (visits legs).length ≤ r.maxSteps
  legs : hops ≤ r.maxHops → hops + legs.length ≤ r.maxHops + 1

namespace Logged

theorem accounts_leg (r : Route) (start need steps hops : Nat) :
    r.Accounts start steps hops
      [⟨start, (search r.body r.halts r.maxSteps start need steps).visited⟩] :=
  by
  obtain ⟨low, -, hvisited, hcount, -⟩ :=
    visited_search r.body r.halts r.maxSteps start need steps
  rw [hvisited]
  refine ⟨.single low start, ?_, by simp⟩
  intro hsteps
  simpa [visits] using hcount hsteps

theorem accounts_trace (r : Route) (start need steps hops : Nat) :
    r.Accounts start steps hops (trace r start need steps hops).legs := by
  fun_induction trace r start need steps hops with
  | case1 | case2 | case3 | case4 => exact accounts_leg ..
  | case5 start need steps hops found leg p steps' hp hop start' need' hf hleft
      rest ih =>
      obtain ⟨low, -, hvisited, hcount, hfound⟩ :=
        visited_search r.body r.halts r.maxSteps start need steps
      obtain ⟨rfl, rfl⟩ := hfound p steps' hp
      have hlt := producer_lt ((search_answer ..).symm.trans hp)
      have hle := (Route.follows_of_follow hf).le
      have hleg : leg = ⟨start, downTo p start⟩ :=
        congrArg (Leg.mk start) hvisited
      rw [hleg]
      refine ⟨ih.descends.hop hle hlt, ?_, ?_⟩
      · intro hsteps
        have hrest : steps + (start - p) + (visits rest.legs).length ≤
            r.maxSteps :=
          ih.visits (hcount hsteps)
        rw [visits, List.flatMap_cons, List.length_append, length_downTo]
        rw [visits] at hrest
        omega
      · intro hhops
        have hrest : hops + 1 + rest.legs.length ≤ r.maxHops + 1 :=
          ih.legs (by omega)
        rw [List.length_cons]
        omega

/-- The trace from an argument of a call, with a log of its legs; none where it
does not begin. -/
def argument (r : Route) (site position : Nat) : Trace :=
  match r.body.callTarget? site with
  | none => ⟨.error .notACall, []⟩
  | some target =>
    match slotDepth? target.params.length position with
    | none => ⟨.error .badPosition, []⟩
    | some depth => trace r site depth 0 0

theorem argument_answer (r : Route) (site position : Nat) :
    (argument r site position).answer = r.argumentOrigin site position := by
  unfold argument Route.argumentOrigin
  cases r.body.callTarget? site with
  | none => rfl
  | some target =>
      dsimp only
      cases slotDepth? target.params.length position with
      | none => rfl
      | some depth => exact trace_answer r site depth 0 0

theorem accounts_argument (r : Route) (site position : Nat) :
    r.Accounts site 0 0 (argument r site position).legs := by
  have hnone : r.Accounts site 0 0 [] :=
    ⟨⟨by simp [visits], by simp [visits], by simp, by simp⟩,
      by simp [visits], by simp⟩
  unfold argument
  cases r.body.callTarget? site with
  | none => exact hnone
  | some target =>
      dsimp only
      cases slotDepth? target.params.length position with
      | none => exact hnone
      | some depth => exact accounts_trace r site depth 0 0

end Logged

/-! ## Budgets -/

theorem maxSteps_lt_of_producer {body : Body} {halts : Nat → Bool}
    {maxSteps start need steps : Nat}
    (h : producer body halts maxSteps start need steps = .error .budget) :
    maxSteps < steps + start := by
  induction start generalizing need steps with
  | zero =>
      rw [producer] at h
      split at h <;> simp at h
  | succ index ih =>
      rw [producer] at h
      split at h
      · simp at h
      · split at h
        · simp at h
        · split at h
          · omega
          · split at h
            · simp at h
            · split at h
              · simp at h
              · have hlt := ih h
                omega

namespace Route

variable {r : Route}

theorem follow_ne_budget (r : Route) (p : Nat) :
    r.follow p ≠ .error .budget := by
  unfold follow
  repeat' split
  all_goals simp

/-- A trace is refused for its budget only if a ceiling lies below where it
starts. Since it descends, it has no other use for its steps and hops. -/
theorem ceiling_lt_of_origin {start need steps hops : Nat}
    (h : r.origin start need steps hops = .error .budget) :
    r.maxSteps < steps + start ∨ r.maxHops < hops + start := by
  induction start using Nat.strongRecOn generalizing need steps hops with
  | ind start ih =>
      rw [origin_eq] at h
      split at h
      · next reason hp =>
          rw [Except.error.injEq] at h
          subst h
          exact Or.inl (maxSteps_lt_of_producer hp)
      · next p steps' hp =>
          obtain ⟨hproduces, rfl⟩ := produces_of_producer hp
          have hlt := hproduces.lt
          split at h
          · next reason hf =>
              rw [Except.error.injEq] at h
              subst h
              exact absurd hf (r.follow_ne_budget p)
          · simp at h
          · next hop start' need' hf =>
              have hle := (follows_of_follow hf).le
              split at h
              · omega
              · have hbelow := ih start' (by omega) h
                omega

end Route

theorem resolution_ne_budget {limits : Limits} {a : Assembly} {body : Body}
    {site position : Nat}
    {cache : Cache} (hsteps : site ≤ limits.maxSteps)
    (hhops : site ≤ limits.maxHops) :
    (resolveArgument limits a body site position cache).1 ≠
      .unresolved .budget := by
  have horigin : ∀ depth,
      (Route.ofLimits limits a body).origin site depth 0 0 ≠
        .error .budget := by
    intro depth h
    have hlt := Route.ceiling_lt_of_origin h
    rw [Nat.zero_add] at hlt
    rcases hlt with hlt | hlt
    · exact absurd hsteps (Nat.not_le.2 hlt)
    · exact absurd hhops (Nat.not_le.2 hlt)
  have hargument : (Route.ofLimits limits a body).argumentOrigin site position ≠
      .error .budget := by
    unfold Route.argumentOrigin
    split
    · simp
    · split
      · simp
      · exact horigin _
  unfold resolveArgument
  split
  · next reason h =>
      intro hbudget
      obtain rfl : reason = .budget := by simpa using hbudget
      exact hargument h
  · simp
  · split <;> simp

/-- Ceilings that cover the call can be raised without any change, and so two
pairs of such ceilings give one answer. -/
theorem resolution_raised {limits limits' : Limits} {a : Assembly} {body : Body}
    {site position : Nat} {cache cache' : Cache} (hcache : cache.FilledFor a)
    (hcache' : cache'.FilledFor a) (hsteps : site ≤ limits.maxSteps)
    (hhops : site ≤ limits.maxHops)
    (hraise : limits.maxSteps ≤ limits'.maxSteps)
    (hraise' : limits.maxHops ≤ limits'.maxHops)
    (hhalt : limits'.haltAtJoins = limits.haltAtJoins) :
    (resolveArgument limits' a body site position cache').1 =
      (resolveArgument limits a body site position cache).1 := by
  by_contra hne
  rcases refused_of_changed hcache hcache' rfl rfl hraise hraise'
    (fun h => hhalt ▸ h) hne with
    ⟨hbudget, -⟩ | ⟨-, hother⟩
  · exact resolution_ne_budget hsteps hhops hbudget
  · exact hother hhalt

/-- The ceilings are not what ends a trace. Whatever they are, it visits each
instruction before the call once at most, one after the other downwards, and
starts every hop before the last one, so that neither the visits nor the hops
are more than the index of the call; the ceilings bound these numbers only
further. Ceilings of at least that index refuse nothing, and any two such pairs
of ceilings give the same answer. -/
theorem trace_ends_without_ceilings (a : Assembly) (body : Body)
    (site position : Nat) :
    (∀ limits : Limits,
      let log := Logged.argument (Route.ofLimits limits a body) site position
      log.answer = (Route.ofLimits limits a body).argumentOrigin site position ∧
        (visits log.legs).Pairwise (· > ·) ∧
        (∀ index ∈ visits log.legs, index < site) ∧
        (visits log.legs).length ≤ min site limits.maxSteps ∧
        (log.legs.map Leg.start).Pairwise (· > ·) ∧
        (∀ leg ∈ log.legs, leg.start ≤ site) ∧
        log.legs.tail.length ≤ min site limits.maxHops) ∧
    (∀ (limits : Limits) (cache : Cache), site ≤ limits.maxSteps →
      site ≤ limits.maxHops →
      (resolveArgument limits a body site position cache).1 ≠
        .unresolved .budget) ∧
    ∀ (limits limits' : Limits) (cache cache' : Cache), cache.FilledFor a →
      cache'.FilledFor a →
      site ≤ limits.maxSteps → site ≤ limits.maxHops → site ≤ limits'.maxSteps →
      site ≤ limits'.maxHops → limits'.haltAtJoins = limits.haltAtJoins →
      (resolveArgument limits' a body site position cache').1 =
        (resolveArgument limits a body site position cache).1 := by
  refine ⟨?_, fun limits cache => resolution_ne_budget, ?_⟩
  · intro limits log
    have haccounts :=
      Logged.accounts_argument (Route.ofLimits limits a body) site position
    have hvisits : 0 + (visits log.legs).length ≤ limits.maxSteps :=
      haccounts.visits (Nat.zero_le _)
    have hlegs : 0 + log.legs.length ≤ limits.maxHops + 1 :=
      haccounts.legs (Nat.zero_le _)
    have hdescends : Descends site log.legs := haccounts.descends
    have hall := hdescends.length_visits
    have hhops := hdescends.length_tail
    refine ⟨Logged.argument_answer _ site position, hdescends.visits,
      hdescends.below, ?_, hdescends.starts, hdescends.within, ?_⟩
    · omega
    · rw [List.length_tail] at hhops ⊢
      omega
  · intro limits limits' cache cache' hcache hcache' hsteps hhops hsteps'
      hhops' hhalt
    -- Neither pair of ceilings need be the higher one, but both can be raised
    -- to a third.
    let high : Limits :=
      { limits with
        maxSteps := max limits.maxSteps limits'.maxSteps
        maxHops := max limits.maxHops limits'.maxHops }
    have hhigh : high.haltAtJoins = limits'.haltAtJoins := hhalt.symm
    calc (resolveArgument limits' a body site position cache').1
      _ = (resolveArgument high a body site position {}).1 :=
          (resolution_raised hcache' .empty hsteps' hhops' (Nat.le_max_right ..)
            (Nat.le_max_right ..) hhigh).symm
      _ = (resolveArgument limits a body site position cache).1 :=
          resolution_raised hcache .empty hsteps hhops (Nat.le_max_left ..)
            (Nat.le_max_left ..) rfl

/-- Across the join the trace visits two instructions on two legs. Ceilings of
seven, the index of the call, refuse nothing, and give the answer that the
widest ones do. -/
theorem trace_ends_without_ceilings_branchedNotice :
    (Logged.argument
      (Route.ofLimits .permissive ⟨"Sample", [], ∅⟩ branchedNotice) 7 0).legs =
        [⟨7, [6]⟩, ⟨1, [0]⟩] ∧
      (resolveArgument ⟨7, 7, false, true⟩ ⟨"Sample", [], ∅⟩ branchedNotice
        7 0 {}).1 ≠
        .unresolved .budget ∧
      (resolveArgument .permissive ⟨"Sample", [], ∅⟩ branchedNotice 7 0 {}).1 =
        (resolveArgument ⟨7, 7, false, true⟩ ⟨"Sample", [], ∅⟩ branchedNotice 7
          0 {}).1 := by
  obtain ⟨-, hbudget, hsame⟩ :=
    trace_ends_without_ceilings ⟨"Sample", [], ∅⟩ branchedNotice 7 0
  refine ⟨by decide +kernel,
    hbudget ⟨7, 7, false, true⟩ {} (by decide) (by decide), ?_⟩
  exact hsame ⟨7, 7, false, true⟩ .permissive {} {} .empty .empty (by decide)
    (by decide) (by decide) (by decide) rfl

end CilAudit
