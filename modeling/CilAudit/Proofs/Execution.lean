import CilAudit.Code.Assembler
import CilAudit.Proofs.Answer

/-!
# Runs of a body, and why a trace can be believed

A machine runs a body one instruction at a time. It is deliberately loose:
control goes to the next index or to any target the operand names, an
instruction of unknown effect leaves any stack it likes, and whatever the
tracer does not look into is pushed as an arbitrary value. What is fixed is
only what the tracer relies on: how many slots come and go, what a literal, a
load, a concatenation and a resource getter push, and that a local keeps its
value until it is stored again or written through an address that was taken of
it.

A trace reads the code backwards and never follows a branch. That is enough,
because at an index that no branch names control can only have come from the
index before it: `Reached.pred` turns one step of the backward count into the
last step of the run. From there the argument is the same for every segment a
trace walks over. `Reached.produced` carries a stack slot back to the
instruction that pushed it, `Reached.stored` carries a local back to the store
it was set by, and `Route.Trail.sound` strings them together along the hops of
a trail.
-/

namespace CilAudit

open Code (Body Instruction Target)

/-! ## The machine -/

/-- A value at run time: a text, or anything else. What else there is does not
matter to the tracer, so it is a parameter. -/
inductive Datum (ω : Type) where
  | text (s : String)
  | other (x : ω)

/-- How long an address can be used to write the local it was taken of. The
tracer looks for addresses behind the store only, so it is right about one way
of use, and `Aliasing` names both. -/
inductive Aliasing where
  /-- Until the local is stored again. -/
  | untilStore
  /-- For the rest of the run. -/
  | forever
deriving DecidableEq, Repr

structure Machine (ω : Type) where
  /-- The index of the instruction. -/
  pc : Nat
  /-- The evaluation stack, its top first. -/
  stack : List (Datum ω)
  locals : UInt16 → Datum ω
  /-- The locals that may be written through an address. -/
  exposed : UInt16 → Prop

variable {ω : Type}

/-- What a call may push: a concatenation makes a text that starts with its
first operand if that is one, and the getter of a resource class the text of
its key. The last argument of a call is on top of the stack, so the first
operand lies below all others. -/
def CallYields (a : Assembly) (target : Target) (stack : List (Datum ω))
    (v : Datum ω) : Prop :=
  match a.shapeOf .debugWriteLineIf target with
  | .concatenation =>
    ∃ s, v = .text s ∧
      ∀ t, stack[target.params.length - 1]? = some (.text t) → ∃ u, s = t ++ u
  | .resourceAccessor declaringType key =>
      ∀ t, a.text? declaringType key = some t → v = .text t
  | .diagnosticWrite | .unrecognized => True

/-- What an instruction may push. What it is and which slot, text or target it
is about is said by its category and its operand; an instruction of no category
that is followed may push anything. -/
structure CanPush (a : Assembly) (i : Instruction) (m : Machine ω)
    (v : Datum ω) : Prop where
  literal : ∀ t, i.literal? = some t → v = .text t
  loaded : ∀ slot, i.loadedSlot? = some slot → v = m.locals slot
  called : ∀ target, i.callTarget? = some target → CallYields a target m.stack v

/-- The stack after an instruction: as many slots go and come as its effect
says, if that is known. Otherwise the stack may be any, so a trace must not
step over such an instruction. -/
def StackAfter (a : Assembly) (i : Instruction) (m : Machine ω)
    (stack : List (Datum ω)) : Prop :=
  match i.effect? with
  | none => True
  | some e =>
    e.pops ≤ m.stack.length ∧
      ∃ pushed, pushed.length = e.pushes ∧ (∀ v ∈ pushed, CanPush a i m v) ∧
        stack = pushed ++ m.stack.drop e.pops

/-- Whether a local may be written through an address after an instruction: its
address has been taken, and no store has ended that. -/
def ExposedAfter (al : Aliasing) (i : Instruction) (m : Machine ω)
    (slot : UInt16) : Prop :=
  (m.exposed slot ∨ i.addressOf? = some slot) ∧
    (al = .untilStore → i.storesTo slot = false)

/-- An instruction takes a machine to another. Control runs on or goes to a
target; a local that is not exposed changes only where it is stored. This is
all that is assumed about execution. -/
structure Performs (al : Aliasing) (a : Assembly) (i : Instruction)
    (m m' : Machine ω) : Prop where
  control : m'.pc = m.pc + 1 ∨ m'.pc ∈ i.targets
  stack : StackAfter a i m m'.stack
  /-- A store sets its local to the top of the stack; any other local is kept
  unless exposed. -/
  locals : ∀ slot, if i.storesTo slot then m.stack[0]? = some (m'.locals slot)
    else m'.exposed slot ∨ m'.locals slot = m.locals slot
  exposed : ∀ slot, m'.exposed slot ↔ ExposedAfter al i m slot

/-- The machines that some run of the body comes by. A run starts at the first
instruction with an empty stack and locals that may hold anything. -/
inductive Reached (al : Aliasing) (a : Assembly) (body : Body) :
    Machine ω → Prop
  | start (locals : UInt16 → Datum ω) :
      Reached al a body ⟨0, [], locals, fun _ => False⟩
  | step {m m' : Machine ω} {i : Instruction} :
      Reached al a body m → body.get? m.pc = some i → Performs al a i m m' →
      Reached al a body m'

/-! ## What the positional checks say -/

namespace Code.Body

variable {body : Body} {slot : UInt16} {limit store : Nat} {i : Instruction}

theorem storesTo_of_lastStore? (h : body.lastStore? slot limit = some store)
    (hi : body.get? store = some i) : i.storesTo slot = true := by
  induction limit with
  | zero => simp [lastStore?] at h
  | succ index ih =>
      rw [lastStore?] at h
      split at h
      · next hs =>
          obtain rfl : index = store := by simpa using h
          simpa [hi] using hs
      · exact ih h

theorem not_storesTo_of_lastStore? {k : Nat}
    (h : body.lastStore? slot limit = some store)
    (hlo : store < k) (hhi : k < limit) (hi : body.get? k = some i) :
    i.storesTo slot = false := by
  induction limit with
  | zero => omega
  | succ index ih =>
      rw [lastStore?] at h
      split at h
      · simp only [Option.some.injEq] at h
        omega
      · next hs =>
          rcases Nat.lt_or_ge k index with hk | hk
          · exact ih h hk
          · obtain rfl : k = index := by omega
            simpa [hi] using hs

theorem addressOf?_ne_of_addressTaken {first stop k : Nat}
    (h : body.addressTaken slot first stop = false) (hlo : first ≤ k)
    (hhi : k < stop)
    (hi : body.get? k = some i) : i.addressOf? ≠ some slot := by
  intro haddr
  rw [addressTaken_iff.2 ⟨k, i, hlo, hhi, hi, haddr⟩] at h
  cases h

end Code.Body

namespace Route

theorem halts_ofLimits {limits : Limits} {a : Assembly} {body : Body}
    (h : limits.haltAtJoins = true) :
    (ofLimits limits a body).halts = body.isJoinPoint := by
  funext index
  simp [halts, ofLimits, h, Body.isJoinPoint]

theorem halts_of_haltsBetween {r : Route} {store load k : Nat}
    (h : r.haltsBetween store load = false) (hlo : store < k) (hhi : k ≤ load) :
    r.halts k = false := by
  rw [haltsBetween, List.any_eq_false] at h
  have hk := h k (by rw [List.mem_range'_1]; omega)
  simpa using hk

end Route

section

variable {al : Aliasing} {a : Assembly} {body : Body} {i : Instruction}
  {m m' : Machine ω}

/-! ## Building runs

A category is one of several, so an instruction answers to at most one of the
three rules for what it may push. -/

theorem CanPush.of_literal? {t : String} (h : i.literal? = some t) :
    CanPush a i m (.text t) where
  literal t' ht' := by rw [Option.some.inj (h.symm.trans ht')]
  loaded slot hs := by
    have hcat := (Instruction.loadedSlot?_eq_some.1 hs).1
    rw [Instruction.category_of_literal? h] at hcat
    cases hcat
  called target ht := by
    have hcat := Instruction.category_of_callTarget? ht
    rw [Instruction.category_of_literal? h] at hcat
    cases hcat

theorem CanPush.of_loadedSlot? {slot : UInt16} (h : i.loadedSlot? = some slot) :
    CanPush a i m (m.locals slot) where
  literal t ht := by
    have hcat := Instruction.category_of_literal? ht
    rw [(Instruction.loadedSlot?_eq_some.1 h).1] at hcat
    cases hcat
  loaded slot' hs := by rw [Option.some.inj (h.symm.trans hs)]
  called target ht := by
    have hcat := Instruction.category_of_callTarget? ht
    rw [(Instruction.loadedSlot?_eq_some.1 h).1] at hcat
    cases hcat

theorem CanPush.of_callTarget? {target : Target} {v : Datum ω}
    (h : i.callTarget? = some target)
    (hy : CallYields a target m.stack v) : CanPush a i m v where
  literal t ht := by
    have hcat := Instruction.category_of_literal? ht
    rw [Instruction.category_of_callTarget? h] at hcat
    cases hcat
  loaded slot hs := by
    have hcat := (Instruction.loadedSlot?_eq_some.1 hs).1
    rw [Instruction.category_of_callTarget? h] at hcat
    cases hcat
  called target' ht := by rwa [← Option.some.inj (h.symm.trans ht)]

theorem CanPush.of_other {v : Datum ω} (h : i.op.category = .other) :
    CanPush a i m v where
  literal t ht := by
    have hcat := Instruction.category_of_literal? ht
    rw [h] at hcat
    cases hcat
  loaded slot hs := by
    have hcat := (Instruction.loadedSlot?_eq_some.1 hs).1
    rw [h] at hcat
    cases hcat
  called target ht := by
    have hcat := Instruction.category_of_callTarget? ht
    rw [h] at hcat
    cases hcat

/-- A run goes on behind an instruction of known effect, with any values that
it may push. Runs of fixed bodies are put together from this. -/
theorem Reached.advance {e : Code.StackEffect} (h : Reached al a body m)
    (hi : body.get? m.pc = some i) (he : i.effect? = some e)
    (hpops : e.pops ≤ m.stack.length)
    (pushed : List (Datum ω)) (hlen : pushed.length = e.pushes)
    (hcan : ∀ v ∈ pushed, CanPush a i m v) (locals : UInt16 → Datum ω)
    (hlocals : ∀ slot, if i.storesTo slot then m.stack[0]? = some (locals slot)
      else locals slot = m.locals slot) :
    Reached al a body
      ⟨m.pc + 1, pushed ++ m.stack.drop e.pops, locals,
        ExposedAfter al i m⟩ := by
  refine .step h hi ⟨Or.inl rfl, ?_, ?_, fun slot => Iff.rfl⟩
  · rw [StackAfter, he]
    exact ⟨hpops, pushed, hlen, hcan, rfl⟩
  · intro slot
    have hslot := hlocals slot
    split at hslot
    · next hs => rw [if_pos hs]; exact hslot
    · next hs => rw [if_neg hs]; exact Or.inr hslot

/-! ## One step back -/

/-- Where no branch goes, control came from the instruction before. This is
what halting at join points is for. -/
theorem Performs.pc_eq_of_not_isJoinPoint {index : Nat}
    (h : Performs al a i m m')
    (hi : body.get? m.pc = some i) (hpc : m'.pc = index + 1)
    (hjoin : body.isJoinPoint (index + 1) = false) : m.pc = index := by
  rcases h.control with hnext | hbranch
  · omega
  · have hmem : i ∈ body.code := Array.mem_of_getElem? hi
    have hj := (body.isJoinPoint_iff (index + 1)).2 ⟨i, hmem, hpc ▸ hbranch⟩
    rw [hjoin] at hj
    cases hj

theorem Reached.pred {index : Nat} (h : Reached al a body m)
    (hpc : m.pc = index + 1) (hjoin : body.isJoinPoint (index + 1) = false) :
    ∃ m₀ i, Reached al a body m₀ ∧ m₀.pc = index ∧ body.get? index = some i ∧
      Performs al a i m₀ m := by
  cases h with
  | start => simp at hpc
  | @step m₀ _ i h₀ hi hp =>
      have hindex := hp.pc_eq_of_not_isJoinPoint hi hpc hjoin
      exact ⟨m₀, i, h₀, hindex, hindex ▸ hi, hp⟩

/-- A slot among those that were pushed holds what may be pushed. -/
theorem Performs.pushed {e : Code.StackEffect} {need : Nat}
    (h : Performs al a i m m')
    (he : i.effect? = some e) (hneed : need < e.pushes) :
    ∃ v, m'.stack[need]? = some v ∧ CanPush a i m v := by
  have hstack := h.stack
  simp only [StackAfter, he] at hstack
  obtain ⟨-, pushed, hlen, hcan, hs⟩ := hstack
  have hlt : need < pushed.length := by omega
  refine ⟨pushed[need], ?_, hcan _ (List.getElem_mem hlt)⟩
  rw [hs, List.getElem?_append_left hlt, List.getElem?_eq_getElem hlt]

/-- Any other slot was there before, as much deeper or shallower as the
instruction took or left. -/
theorem Performs.kept {e : Code.StackEffect} {need : Nat}
    (h : Performs al a i m m')
    (he : i.effect? = some e) (hneed : e.pushes ≤ need) :
    m'.stack[need]? = m.stack[need - e.pushes + e.pops]? := by
  have hstack := h.stack
  simp only [StackAfter, he] at hstack
  obtain ⟨-, pushed, hlen, -, hs⟩ := hstack
  rw [hs, List.getElem?_append_right (by omega), List.getElem?_drop, hlen,
    Nat.add_comm]

/-! ## Whole segments back -/

/-- The slot that a backward count finds a producer for was filled by that
producer, in the last step of the run that stood there. By induction on the
count, each step of which undoes one of the run. -/
theorem Reached.produced {start need p : Nat}
    (hp : Produces body body.isJoinPoint start need p)
    (h : Reached al a body m) (hpc : m.pc = start) :
    ∃ m₀ i v, Reached al a body m₀ ∧ m₀.pc = p ∧ body.get? p = some i ∧
      m.stack[need]? = some v ∧ CanPush a i m₀ v := by
  induction hp generalizing m with
  | @here index need i e hjoin hi he hlt =>
      obtain ⟨m₀, i', h₀, hpc₀, hi', hperf⟩ := h.pred hpc hjoin
      obtain rfl : i = i' := by simpa [hi] using hi'
      obtain ⟨v, hv, hcan⟩ := hperf.pushed he hlt
      exact ⟨m₀, i, v, h₀, hpc₀, hi, hv, hcan⟩
  | @earlier index need p i e hjoin hi he hge _ ih =>
      obtain ⟨m₀, i', h₀, hpc₀, hi', hperf⟩ := h.pred hpc hjoin
      obtain rfl : i = i' := by simpa [hi] using hi'
      rw [hperf.kept he hge]
      exact ih h₀ hpc₀

/-- A local that is neither stored nor exposed on the way from `first` to the
machine has kept its value. -/
theorem Reached.unchanged {slot : UInt16} {first : Nat} (distance : Nat)
    (h : Reached al a body m) (hpc : m.pc = first + distance)
    (hjoin : ∀ k, first < k → k ≤ first + distance → body.isJoinPoint k = false)
    (hquiet : ∀ k i, first ≤ k → k < first + distance → body.get? k = some i →
      i.storesTo slot = false ∧ i.addressOf? ≠ some slot) :
    ∃ m₀, Reached al a body m₀ ∧ m₀.pc = first ∧
      (¬m₀.exposed slot →
        ¬m.exposed slot ∧ m.locals slot = m₀.locals slot) := by
  induction distance generalizing m with
  | zero => exact ⟨m, h, hpc, fun hne => ⟨hne, rfl⟩⟩
  | succ distance ih =>
      have hlast : m.pc = first + distance + 1 := hpc
      obtain ⟨m₁, i, h₁, hpc₁, hi, hperf⟩ :=
        h.pred hlast (hjoin (first + distance + 1) (by omega) (by omega))
      obtain ⟨m₀, h₀, hpc₀, hsame⟩ :=
        ih h₁ hpc₁ (fun k hk hk' => hjoin k hk (by omega))
        (fun k j hk hk' => hquiet k j hk (by omega))
      obtain ⟨hstore, haddr⟩ :=
        hquiet (first + distance) i (by omega) (by omega) hi
      refine ⟨m₀, h₀, hpc₀, fun hne => ?_⟩
      obtain ⟨hne₁, hval₁⟩ := hsame hne
      have hexposed : ¬m.exposed slot := by
        rw [hperf.exposed]
        rintro ⟨hexp | haddr', -⟩
        · exact hne₁ hexp
        · exact haddr haddr'
      have hlocal := hperf.locals slot
      rw [if_neg (by simp [hstore])] at hlocal
      exact ⟨hexposed, (hlocal.resolve_left hexposed).trans hval₁⟩

/-- The store that a load is believed to see is the one that set its local: no
other store and no address came in between. -/
theorem Reached.stored {slot : UInt16} {store load : Nat}
    (hstore : body.lastStore? slot load = some store)
    (hjoin : ∀ k, store < k → k ≤ load → body.isJoinPoint k = false)
    (htaken : body.addressTaken slot (store + 1) load = false)
    (h : Reached .untilStore a body m) (hpc : m.pc = load) :
    ∃ m₀, Reached .untilStore a body m₀ ∧ m₀.pc = store ∧
      m₀.stack[0]? = some (m.locals slot) := by
  have hlt := Body.lastStore?_lt hstore
  obtain ⟨m₁, h₁, hpc₁, hsame⟩ := h.unchanged (load - (store + 1))
    (show m.pc = store + 1 + (load - (store + 1)) by omega)
    (fun k hk hk' => hjoin k (by omega) (by omega))
    (fun k i hk hk' hi =>
      ⟨Body.not_storesTo_of_lastStore? hstore (by omega) (by omega) hi,
        Body.addressOf?_ne_of_addressTaken htaken hk (by omega) hi⟩)
  obtain ⟨m₀, i, h₀, hpc₀, hi, hperf⟩ :=
    h₁.pred hpc₁ (hjoin (store + 1) (by omega) (by omega))
  have hstores : i.storesTo slot = true := Body.storesTo_of_lastStore? hstore hi
  have hexposed : ¬m₁.exposed slot := by
    rw [hperf.exposed]
    rintro ⟨-, hclear⟩
    rw [hclear rfl] at hstores
    simp at hstores
  have hlocal := hperf.locals slot
  rw [if_pos hstores] at hlocal
  exact ⟨m₀, h₀, hpc₀, by rw [hlocal, (hsame hexposed).2]⟩

/-! ## Along a trail -/

/-- A slot holds a text that starts with another one; it is that text if
`exact` holds. Both halves of the theorem are carried along together, since a
trail need not know which it is about until it ends. -/
def HoldsText (exact : Prop) (text : String) (v : Option (Datum ω)) : Prop :=
  ∃ s, v = some (.text s) ∧ (∃ rest, s = text ++ rest) ∧ (exact → s = text)

/-- Whoever comes to the start of a trail holds the text at its end in the
traced slot: as it is if the trail passes through no concatenation, and at the
front of a text in any case. -/
theorem Route.Trail.sound {limits : Limits} {start need : Nat} {path : List Hop}
    {o : Origin} {text : String} (hhalt : limits.haltAtJoins = true)
    (ht : (Route.ofLimits limits a body).Trail start need path o)
    (ho : o.text? a = some text)
    (h : Reached .untilStore a body m) (hpc : m.pc = start) :
    HoldsText (∀ call, Hop.joined call ∉ path) text m.stack[need]? := by
  have hhalts : (Route.ofLimits limits a body).halts = body.isJoinPoint :=
    Route.halts_ofLimits hhalt
  induction ht generalizing m with
  | found hp hf =>
      rw [hhalts] at hp
      obtain ⟨m₀, i, v, -, -, hi, hv, hcan⟩ := h.produced hp hpc
      rw [hv]
      cases hf with
      | literal hi' hlit =>
          obtain rfl := Option.some.inj (hi.symm.trans hi')
          obtain rfl := Option.some.inj ho
          exact ⟨_, by rw [hcan.literal _ hlit], ⟨"", by simp⟩, fun _ => rfl⟩
      | resource hi' hcall hshape =>
          obtain rfl := Option.some.inj (hi.symm.trans hi')
          have hyields := hcan.called _ hcall
          rw [CallYields, show a.shapeOf .debugWriteLineIf _ = _ from hshape]
            at hyields
          exact ⟨_, by rw [hyields _ ho], ⟨"", by simp⟩, fun _ => rfl⟩
  | @hop start need p start' need' hop path o hp hf ht ih =>
      rw [hhalts] at hp
      obtain ⟨m₀, i, v, h₀, hpc₀, hi, hv, hcan⟩ := h.produced hp hpc
      rw [hv]
      cases hf with
      | @stored i' slot store hi' hslot hstore hjoin htaken =>
          obtain rfl := Option.some.inj (hi.symm.trans hi')
          obtain ⟨m₁, h₁, hpc₁, htop⟩ := h₀.stored hstore
            (fun k hk hk' => hhalts ▸ Route.halts_of_haltsBetween hjoin hk hk')
              htaken hpc₀
          obtain ⟨s, hs, hfront, hexact⟩ := ih ho h₁ hpc₁
          refine ⟨s,
            by rw [hcan.loaded slot hslot, ← htop, hs], hfront,
            fun hpath => hexact ?_⟩
          intro call hmem
          exact hpath call (List.mem_cons_of_mem _ hmem)
      | @joined i' target hi' hcall hshape =>
          obtain rfl := Option.some.inj (hi.symm.trans hi')
          obtain ⟨s, hs, ⟨rest, rfl⟩, -⟩ := ih ho h₀ hpc₀
          have hyields := hcan.called target hcall
          rw [CallYields, show a.shapeOf .debugWriteLineIf target =
            _ from hshape] at hyields
          obtain ⟨s', rfl, hfront⟩ := hyields
          obtain ⟨more, rfl⟩ := hfront _ hs
          exact ⟨_, rfl, ⟨rest ++ more, by rw [String.append_assoc]⟩,
            fun hpath => absurd (List.mem_cons_self ..) (hpath p)⟩

end

/-- A resolved argument can be believed. In every run that comes to the call,
the slot of the argument holds a text that starts with the resolved one, and
exactly that text unless the one trail that the tracer can take passes through
a concatenation. -/
theorem resolved_argument_sound (limits : Limits) (a : Assembly) (body : Body)
    (site position : Nat) (cache : Cache) (text : String)
    (hhalt : limits.haltAtJoins = true) (hcache : cache.FilledFor a)
    (h : (resolveArgument limits a body site position cache).1 =
      .resolved text) :
    ∃ target path o, body.callTarget? site = some target ∧
      position < target.params.length ∧
      (Route.ofLimits limits a body).Trail site
        (target.params.length - 1 - position) path o ∧
      (∀ path' o', (Route.ofLimits limits a body).Trail site
        (target.params.length - 1 - position) path' o' → path' = path) ∧
      ∀ (ω : Type) (m : Machine ω), Reached .untilStore a body m → m.pc = site →
        HoldsText (∀ call, Hop.joined call ∉ path) text
          m.stack[target.params.length - 1 - position]? := by
  obtain ⟨target, o, htarget, hposition, horigin, ho⟩ :=
    (resolved_iff hcache).1 h
  obtain ⟨path, htrail⟩ := Route.trail_of_origin horigin
  refine ⟨target, path, o, htarget, hposition, htrail, ?_, ?_⟩
  · intro path' o' htrail'
    exact (htrail'.unique htrail).1
  · intro ω m hm hpc
    exact htrail.sound hhalt ho hm hpc

/-- A body that stores a text, appends its first argument and writes the
result. -/
def storedNotice : Body where
  code := #[
    ⟨0, 5, .literal 0 0x72 "ldstr" .token, .string "missing dispose"⟩,
    ⟨5, 1, .store 0 0x0A "stloc.0" .none, .slot 0⟩,
    ⟨6, 1, .load 0 0x06 "ldloc.0" .none, .slot 0⟩,
    ⟨7, 1, .plain 0 0x02 "ldarg.0" .none 0 1, .argument 0⟩,
    ⟨8, 5, .call 0 0x28 "call", .call ⟨"System.String", "Concat",
      ["System.String", "System.Object"], "System.String", false⟩⟩,
    ⟨13, 5, .call 0 0x28 "call",
      .call ⟨"System.Console", "WriteLine", ["System.String"],
        "System.Void", false⟩⟩]
  locals := #[]

/-- The text is stored in a local before the argument is appended, and the
trace finds it. -/
theorem resolved_argument_sound_storedNotice :
    Body.assemble
        [.ldstr "missing dispose", .stloc 0, .ldloc 0, .ldarg 0,
          .call ⟨"System.String", "Concat", ["System.String", "System.Object"],
            "System.String", false⟩,
          .call ⟨"System.Console", "WriteLine", ["System.String"],
            "System.Void", false⟩] =
        .ok storedNotice ∧
      (resolveArgument {} ⟨"Sample", [], ∅⟩ storedNotice 5 0 {}).1 =
        .resolved "missing dispose" ∧
      ∃ m : Machine Unit, Reached .untilStore ⟨"Sample", [], ∅⟩ storedNotice m ∧
        m.pc = 5 ∧
        ∃ rest, m.stack[0]? = some (.text ("missing dispose" ++ rest)) := by
  have hres : (resolveArgument {} ⟨"Sample", [], ∅⟩ storedNotice 5 0 {}).1 =
      .resolved "missing dispose" := by decide +kernel
  let blank : UInt16 → Datum Unit := fun _ => .other ()
  let filled : UInt16 → Datum Unit := fun slot =>
    if slot = 0 then .text "missing dispose" else .other ()
  have h0 : Reached .untilStore ⟨"Sample", [], ∅⟩ storedNotice
      (⟨0, [], blank, fun _ => False⟩ : Machine Unit) := .start blank
  have h1 := h0.advance (e := ⟨0, 1⟩) rfl rfl (by decide)
    [.text "missing dispose"] rfl
      (List.forall_mem_singleton.2 (.of_literal? rfl)) blank (fun _ => rfl)
  have h2 := h1.advance (e := ⟨1, 0⟩) rfl rfl (by decide) [] rfl
    (List.forall_mem_nil _) filled (fun slot => by
      by_cases hslot : slot = 0
      · subst hslot; rfl
      · have hother : ¬(some 0 == some slot) = true := by
          simpa using Ne.symm hslot
        exact (if_neg hother).mpr (if_neg hslot))
  have h3 := h2.advance (e := ⟨0, 1⟩) rfl rfl (by decide) [filled 0] rfl
    (List.forall_mem_singleton.2 (@CanPush.of_loadedSlot? _ _ _ _ 0 rfl)) filled
      (fun _ => rfl)
  have h4 := h3.advance (e := ⟨0, 1⟩) rfl rfl (by decide) [.other ()] rfl
    (List.forall_mem_singleton.2 (.of_other rfl)) filled (fun _ => rfl)
  have h5 := h4.advance (e := ⟨2, 1⟩) rfl rfl (by decide)
    [.text "missing dispose: a"] rfl
      (List.forall_mem_singleton.2 (.of_callTarget? rfl
      ⟨_, rfl, fun t ht => ⟨": a", by cases ht; rfl⟩⟩)) filled (fun _ => rfl)
  obtain ⟨target, path, o, htarget, -, -, -, hsound⟩ :=
    resolved_argument_sound {} ⟨"Sample", [], ∅⟩ storedNotice 5 0
      {} "missing dispose" rfl .empty hres
  obtain rfl : target = _ := Option.some.inj (htarget.symm.trans rfl)
  obtain ⟨s, hs, ⟨rest, rfl⟩, -⟩ := hsound Unit _ h5 rfl
  exact ⟨rfl, hres, _, h5, rfl, rest, hs⟩

end CilAudit
