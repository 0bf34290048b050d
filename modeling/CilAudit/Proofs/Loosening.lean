import CilAudit.Proofs.CacheTransparency

/-!
# Looser limits never change a definite answer

A route has three limits, and each of them only ever decides a refusal: the two
ceilings answer `budget`, the stops answer `joinPoint`. So two traces through
the same body, the second with ceilings at least as high and stops at no other
places, look at the same instructions and make the same hops until one of those
guards refuses the first and lets the second pass. That refusal is then the
first trace's answer, and the reason it gives is one that the second route is
looser about (`Route.Excuses`). Every other answer, the other refusals
included, is the second trace's too.

The guards are all alike, so `Route.Keeps.guard` is stated for any of them and
the traces are walked in lockstep around it: the search for a producer, the
look at it, the hops, the argument, and last the text that is looked up.
-/

namespace CilAudit

open Code (Body)

/-! ## Guards -/

namespace Route

/-- The second route goes through the same code with no ceiling lower and no
stop added. -/
structure Loosens (r r' : Route) : Prop where
  body : r'.body = r.body
  assembly : r'.assembly = r.assembly
  steps : r.maxSteps ≤ r'.maxSteps
  hops : r.maxHops ≤ r'.maxHops
  halts : ∀ index, r'.halts index = true → r.halts index = true

/-- The refusals for which the second route may have another answer: those of a
guard that it has really loosened. A refusal for any other reason must come
again. -/
def Excuses (r r' : Route) : Reason → Prop
  | .budget => r.maxSteps < r'.maxSteps ∨ r.maxHops < r'.maxHops
  | .joinPoint => ∃ index, r.halts index = true ∧ r'.halts index = false
  | _ => False

/-- The second answer is the first, unless the first is an excused refusal. All
parts of a trace keep answers in this sense, from the search for a producer up
to the whole. -/
def Keeps {α : Type} (r r' : Route) (x x' : Except Reason α) : Prop :=
  x' = x ∨ ∃ reason, r.Excuses r' reason ∧ x = .error reason

variable {α : Type} {r r' : Route} {x x' : Except Reason α}

theorem Keeps.refl (x : Except Reason α) : r.Keeps r' x x := Or.inl rfl

theorem Keeps.refused {reason : Reason} (h : r.Excuses r' reason)
    (x' : Except Reason α) :
    r.Keeps r' (.error reason) x' := Or.inr ⟨reason, h, rfl⟩

/-- A guard that refuses the second trace refuses the first one too, and one
that refuses the first alone is loosened; behind a guard that both pass the
traces go on. -/
theorem Keeps.guard {reason : Reason} {c c' : Prop} [Decidable c] [Decidable c']
    (hc : c' → c)
    (hloose : c → ¬c' → r.Excuses r' reason) (hrest : ¬c → r.Keeps r' x x') :
    r.Keeps r' (if c then .error reason else x)
      (if c' then .error reason else x') := by
  by_cases h : c
  · by_cases h' : c'
    · rw [if_pos h, if_pos h']
      exact .refl _
    · rw [if_pos h]
      exact .refused (hloose h h') _
  · rw [if_neg h, if_neg (fun h' => h (hc h'))]
    exact hrest h

/-! ## Two traces in lockstep -/

theorem keeps_producer (h : r.Loosens r') (start need steps : Nat) :
    r.Keeps r' (producer r.body r.halts r.maxSteps start need steps)
      (producer r'.body r'.halts r'.maxSteps start need steps) := by
  have hsteps := h.steps
  rw [h.body]
  induction start generalizing need steps with
  | zero =>
      rw [producer, producer]
      refine .guard (h.halts 0) ?_ (fun _ => .refl _)
      intro hstop hpass
      exact ⟨0, hstop, by simpa using hpass⟩
  | succ index ih =>
      rw [producer, producer]
      refine .guard (h.halts (index + 1)) ?_ ?_
      · intro hstop hpass
        exact ⟨index + 1, hstop, by simpa using hpass⟩
      · intro _
        cases r.body.get? index with
        | none => exact .refl _
        | some i =>
            refine .guard (by omega) ?_ ?_
            · intro hout hleft
              exact Or.inl (by omega)
            · intro _
              cases i.effect? with
              | none => exact .refl _
              | some e =>
                  dsimp only
                  split
                  · exact .refl _
                  · exact ih _ _

theorem haltsBetween_iff {store load : Nat} :
    r.haltsBetween store load = true ↔
      ∃ index ∈ List.range' (store + 1) (load - store), r.halts index = true :=
  List.any_eq_true

theorem keeps_follow (h : r.Loosens r') (p : Nat) :
    r.Keeps r' (r.follow p) (r'.follow p) := by
  unfold follow
  rw [h.body, h.assembly]
  cases r.body.get? p with
  | none => exact .refl _
  | some i =>
      dsimp only
      cases i.op.category
      -- Only a local load is looked at through the limits.
      case loadLocal =>
        cases r.body.storeOf? p with
        | none => exact .refl _
        | some store =>
            refine .guard ?_ ?_ (fun _ => .refl _)
            · intro hstop
              obtain ⟨index, hmem, hstop⟩ := haltsBetween_iff.1 hstop
              exact haltsBetween_iff.2 ⟨index, hmem, h.halts index hstop⟩
            · intro hstop hpass
              obtain ⟨index, hmem, hstop⟩ := haltsBetween_iff.1 hstop
              refine ⟨index, hstop, ?_⟩
              cases hpass' : r'.halts index with
              | false => rfl
              | true =>
                  exact absurd (haltsBetween_iff.2 ⟨index, hmem, hpass'⟩) hpass
      all_goals exact .refl _

theorem keeps_origin (h : r.Loosens r') (start need steps hops : Nat) :
    r.Keeps r' (r.origin start need steps hops)
      (r'.origin start need steps hops) := by
  have hhops := h.hops
  -- Each hop starts before the last one, so the lockstep is an induction on
  -- where the trace starts.
  induction start using Nat.strongRecOn generalizing need steps hops with
  | ind start ih =>
      rw [origin_eq, origin_eq]
      rcases keeps_producer h start need steps with
        hsame | ⟨reason, hexcuse, hrefuse⟩
      · rw [hsame]
        cases hp : producer r.body r.halts r.maxSteps start need steps with
        | error reason => exact .refl _
        | ok found =>
            obtain ⟨p, steps'⟩ := found
            dsimp only
            rcases keeps_follow h p with hsame | ⟨reason, hexcuse, hrefuse⟩
            · rw [hsame]
              cases hf : r.follow p with
              | error reason => exact .refl _
              | ok turn =>
                  cases turn with
                  | found origin => exact .refl _
                  | hop hop start' need' =>
                      have hlt := producer_lt hp
                      have hle := (follows_of_follow hf).le
                      refine .guard (by omega) ?_
                        (fun _ => ih start' (by omega) _ _ _)
                      intro hout hleft
                      exact Or.inr (by omega)
            · rw [hrefuse]
              exact .refused hexcuse _
      · rw [hrefuse]
        exact .refused hexcuse _

theorem keeps_argumentOrigin (h : r.Loosens r') (site position : Nat) :
    r.Keeps r' (r.argumentOrigin site position)
      (r'.argumentOrigin site position) := by
  unfold argumentOrigin
  rw [h.body]
  cases r.body.callTarget? site with
  | none => exact .refl _
  | some target =>
      dsimp only
      cases slotDepth? target.params.length position with
      | none => exact .refl _
      | some depth => exact keeps_origin h site depth 0 0

/-! ## Limits -/

section

variable {limits limits' : Limits} {a : Assembly} {body : Body}
  {cache cache' : Cache}

theorem halts_ofLimits_iff {index : Nat} :
    (ofLimits limits a body).halts index = true ↔
      limits.haltAtJoins = true ∧ body.isJoinPoint index = true := by
  unfold halts ofLimits
  cases limits.haltAtJoins <;> simp [Body.isJoinPoint]

theorem loosens_ofLimits (hsteps : limits.maxSteps ≤ limits'.maxSteps)
    (hhops : limits.maxHops ≤ limits'.maxHops)
    (hhalt : limits'.haltAtJoins = true → limits.haltAtJoins = true) :
    (ofLimits limits a body).Loosens (ofLimits limits' a body) where
  body := rfl
  assembly := rfl
  steps := hsteps
  hops := hhops
  halts index hstop := by
    rw [halts_ofLimits_iff] at hstop ⊢
    exact ⟨hhalt hstop.1, hstop.2⟩

theorem excuses_ofLimits {reason : Reason}
    (h : (ofLimits limits a body).Excuses (ofLimits limits' a body) reason) :
    reason = .budget ∧
    (limits.maxSteps < limits'.maxSteps ∨ limits.maxHops < limits'.maxHops) ∨
      reason = .joinPoint ∧ limits'.haltAtJoins ≠ limits.haltAtJoins := by
  cases reason
  case budget => exact Or.inl ⟨rfl, h⟩
  case joinPoint =>
    obtain ⟨index, hstop, hpass⟩ := h
    refine Or.inr ⟨rfl, ?_⟩
    intro hsame
    obtain ⟨hhalt, hjoin⟩ := halts_ofLimits_iff.1 hstop
    have hstop' := (halts_ofLimits_iff (a := a)).2 ⟨hsame.trans hhalt, hjoin⟩
    rw [hpass] at hstop'
    cases hstop'
  all_goals exact False.elim h

theorem resolution_kept (hcache : cache.FilledFor a)
    (hcache' : cache'.FilledFor a)
    (h : (ofLimits limits a body).Loosens (ofLimits limits' a body))
    (site position : Nat) :
    (resolveArgument limits' a body site position cache').1 =
        (resolveArgument limits a body site position cache).1 ∨
      ∃ reason, (ofLimits limits a body).Excuses
        (ofLimits limits' a body) reason ∧
        (resolveArgument limits a body site position cache).1 =
          .unresolved reason := by
  -- What is looked up at the end depends on the trace alone.
  rw [resolution_eq hcache, resolution_eq hcache']
  rcases keeps_argumentOrigin h site position with
    hsame | ⟨reason, hexcuse, hrefuse⟩
  · exact Or.inl (by rw [hsame])
  · exact Or.inr ⟨reason, hexcuse, by rw [hrefuse]; rfl⟩

end

end Route

/-- An answer that changes under looser limits was a refusal, for a budget that
was raised or at a join that is no longer halted at. -/
theorem refused_of_changed {limits limits' : Limits} {a : Assembly}
    {body : Body}
    {site position : Nat} {cache cache' : Cache} {x x' : Resolution}
    (hcache : cache.FilledFor a) (hcache' : cache'.FilledFor a)
    (hx : (resolveArgument limits a body site position cache).1 = x)
    (hx' : (resolveArgument limits' a body site position cache').1 = x')
    (hsteps : limits.maxSteps ≤ limits'.maxSteps)
    (hhops : limits.maxHops ≤ limits'.maxHops)
    (hhalt : limits'.haltAtJoins = true → limits.haltAtJoins = true)
    (hne : x' ≠ x) :
    x = .unresolved .budget ∧
        (limits.maxSteps < limits'.maxSteps ∨
          limits.maxHops < limits'.maxHops) ∨
      x = .unresolved .joinPoint ∧
      limits'.haltAtJoins ≠ limits.haltAtJoins := by
  subst hx hx'
  obtain ⟨reason, hexcuse, hrefuse⟩ := (Route.resolution_kept hcache hcache'
    (Route.loosens_ofLimits hsteps hhops hhalt) site position).resolve_left hne
  rcases Route.excuses_ofLimits hexcuse with ⟨rfl, hraised⟩ | ⟨rfl, hother⟩
  · exact Or.inl ⟨hrefuse, hraised⟩
  · exact Or.inr ⟨hrefuse, hother⟩

/-- Loosening the limits never changes a definite answer. With no ceiling
lowered and no halting added, an answer that is no refusal for the budget or at
a join is the same again. Raising the ceilings alone changes only budget
refusals, and no longer halting at joins changes only refusals there. So a text
that is found under the strict limits is found under the default and the
permissive ones. -/
theorem looser_limits_agree (a : Assembly) (body : Body) (site position : Nat)
    (cache cache' : Cache) (hcache : cache.FilledFor a)
    (hcache' : cache'.FilledFor a) :
    (∀ (limits limits' : Limits) (x x' : Resolution),
      (resolveArgument limits a body site position cache).1 = x →
      (resolveArgument limits' a body site position cache').1 = x' →
      limits.maxSteps ≤ limits'.maxSteps → limits.maxHops ≤ limits'.maxHops →
      (limits'.haltAtJoins = true → limits.haltAtJoins = true) →
      (x ≠ .unresolved .budget → x ≠ .unresolved .joinPoint → x' = x) ∧
      (limits'.haltAtJoins = limits.haltAtJoins → x' ≠ x →
        x = .unresolved .budget) ∧
      (limits'.maxSteps = limits.maxSteps → limits'.maxHops = limits.maxHops →
        x' ≠ x →
        x = .unresolved .joinPoint)) ∧
    ∀ text, (resolveArgument .strict a body site position cache).1 =
      .resolved text →
      (resolveArgument {} a body site position cache').1 = .resolved text ∧
        (resolveArgument .permissive a body site position cache').1 =
          .resolved text := by
  refine ⟨?_, ?_⟩
  · intro limits limits' x x' hx hx' hsteps hhops hhalt
    have hchange := refused_of_changed hcache hcache' hx hx' hsteps hhops hhalt
    refine ⟨?_, ?_, ?_⟩
    · intro hbudget hjoin
      by_contra hne
      rcases hchange hne with ⟨hrefuse, -⟩ | ⟨hrefuse, -⟩
      · exact hbudget hrefuse
      · exact hjoin hrefuse
    · intro hsame hne
      rcases hchange hne with ⟨hrefuse, -⟩ | ⟨-, hother⟩
      · exact hrefuse
      · exact absurd hsame hother
    · intro hsteps' hhops' hne
      rcases hchange hne with ⟨-, hraised⟩ | ⟨hrefuse, -⟩
      · omega
      · exact hrefuse
  · intro text hfound
    have hfinds : ∀ limits' : Limits,
        Limits.strict.maxSteps ≤ limits'.maxSteps →
        Limits.strict.maxHops ≤ limits'.maxHops →
        (resolveArgument limits' a body site position cache').1 =
          .resolved text := by
      intro limits' hsteps hhops
      by_contra hne
      rcases refused_of_changed hcache hcache' hfound rfl hsteps hhops
        (fun _ => rfl) hne with
        ⟨hrefuse, -⟩ | ⟨hrefuse, -⟩
      · cases hrefuse
      · cases hrefuse
    exact ⟨hfinds {} (by decide) (by decide),
      hfinds .permissive (by decide) (by decide)⟩

/-- A body that writes a stored text twice, the second time where a branch
joins. -/
def branchedNotice : Body where
  code := #[
    ⟨0, 5, .literal 0 0x72 "ldstr" .token, .string "missing dispose"⟩,
    ⟨5, 1, .store 0 0x0A "stloc.0" .none, .slot 0⟩,
    ⟨6, 1, .load 0 0x06 "ldloc.0" .none, .slot 0⟩,
    ⟨7, 5, .call 0 0x28 "call",
      .call ⟨"System.Console", "WriteLine", ["System.String"],
        "System.Void", false⟩⟩,
    ⟨12, 1, .plain 0 0x02 "ldarg.0" .none 0 1, .argument 0⟩,
    ⟨13, 5, .branch 0 0x39 "brfalse" .target 1, .target 6⟩,
    ⟨18, 1, .load 0 0x06 "ldloc.0" .none, .slot 0⟩,
    ⟨19, 5, .call 0 0x28 "call",
      .call ⟨"System.Console", "WriteLine", ["System.String"],
        "System.Void", false⟩⟩]
  locals := #[]

/-- The first text is found under strict limits, so under permissive ones. At
the second, a trace that halts at the join has another answer than one that
does not, so its answer was the join. -/
theorem looser_limits_agree_branchedNotice :
    (resolveArgument .strict ⟨"Sample", [], ∅⟩ branchedNotice 3 0 {}).1 =
        .resolved "missing dispose" ∧
      (resolveArgument .permissive ⟨"Sample", [], ∅⟩ branchedNotice 3 0 {}).1 =
        .resolved "missing dispose" ∧
      (resolveArgument { haltAtJoins := false } ⟨"Sample", [], ∅⟩ branchedNotice
        7 0 {}).1 =
        .resolved "missing dispose" ∧
      (resolveArgument {} ⟨"Sample", [], ∅⟩ branchedNotice 7 0 {}).1 =
        .unresolved .joinPoint := by
  have hstrict :
      (resolveArgument .strict ⟨"Sample", [], ∅⟩ branchedNotice 3 0 {}).1 =
      .resolved "missing dispose" := by decide +kernel
  have hacross :
      (resolveArgument { haltAtJoins := false } ⟨"Sample", [], ∅⟩
        branchedNotice 7 0 {}).1 = .resolved "missing dispose" := by
    decide +kernel
  have hother : Resolution.resolved "missing dispose" ≠
      (resolveArgument {} ⟨"Sample", [], ∅⟩ branchedNotice 7 0 {}).1 := by
    decide +kernel
  have hfirst := looser_limits_agree ⟨"Sample", [], ∅⟩ branchedNotice 3 0 {}
    {} .empty .empty
  have hsecond := looser_limits_agree ⟨"Sample", [], ∅⟩ branchedNotice 7 0 {}
    {} .empty .empty
  refine ⟨hstrict, (hfirst.2 _ hstrict).2, hacross, ?_⟩
  exact (hsecond.1 {} { haltAtJoins := false } _ _ rfl hacross (by decide)
    (by decide) (fun _ => rfl)).2.2 rfl rfl hother

end CilAudit
