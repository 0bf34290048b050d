import CilAudit.Proofs.Execution
import Mathlib.Logic.Function.Basic

/-!
# Addresses that outlive a store

A trace goes from a load to the nearest store of the local and looks for
addresses taken between the two. An address can also be taken before the store,
be kept on the stack or in another local, and be written through after the
store; nothing between store and load shows it. So how far the hop can be
trusted is a question about the whole run up to the store, and runs are kept
here as histories, with every machine they came by, the latest first.

In a history, a local is exposed exactly if its address was taken somewhere
(`History.exposed_iff`), and where nothing joins the last machines went
straight through the code (`History.back`). Together: between a store and a
load that a trace follows, no address of the local is taken, and the local
keeps what the store put there unless its address had been taken by then
(`traced_local_kept`). That exception is real: `alias_outlives_store` is a run
that writes through an earlier address, and the trace answers with the text
that is gone.
-/

namespace CilAudit

open Code (Body Instruction)

variable {ω : Type}

/-! ## Histories -/

/-- The machines that a run has come by, the latest first. Unlike `Reached`
this keeps all of them, since what may happen to a local depends on addresses
that were taken at any time before. -/
inductive History (body : Body)
    (step : Instruction → Machine ω → Machine ω → Prop) :
    List (Machine ω) → Prop
  | start (locals : UInt16 → Datum ω) :
      History body step [⟨0, [], locals, fun _ => False⟩]
  | next {m m' : Machine ω} {past : List (Machine ω)} {i : Instruction} :
      History body step (m :: past) → body.get? m.pc = some i → step i m m' →
      History body step (m' :: m :: past)

/-- The machine is about to take the address of a local: it stands before an
instruction that pushes it. -/
def TakesAddress (body : Body) (slot : UInt16) (m : Machine ω) : Prop :=
  ∃ i, body.get? m.pc = some i ∧ i.addressOf? = some slot

section

variable {a : Assembly} {body : Body} {slot : UInt16} {m : Machine ω}
  {past : List (Machine ω)}

theorem exposedAfter_forever {i : Instruction} :
    ExposedAfter .forever i m slot ↔
    m.exposed slot ∨ i.addressOf? = some slot := by
  simp [ExposedAfter]

/-- Where addresses live on, a local is exposed if its address was ever taken,
and only then. So nothing but the history decides what a run may do to it. -/
theorem History.exposed_iff
    (h : History body (Performs .forever a) (m :: past)) :
    m.exposed slot ↔ ∃ e ∈ past, TakesAddress body slot e := by
  generalize hrun : m :: past = run at h
  induction h generalizing m past with
  | start locals =>
      obtain ⟨rfl, rfl⟩ := List.cons.inj hrun
      simp
  | @next m₀ m' past₀ i h₀ hi hperf ih =>
      obtain ⟨rfl, rfl⟩ := List.cons.inj hrun
      rw [hperf.exposed, exposedAfter_forever, ih rfl]
      constructor
      · rintro (⟨e, he, htakes⟩ | haddr)
        · exact ⟨e, List.mem_cons_of_mem _ he, htakes⟩
        · exact ⟨m₀, List.mem_cons_self .., i, hi, haddr⟩
      · rintro ⟨e, he, htakes⟩
        rcases List.mem_cons.1 he with rfl | he
        · obtain ⟨i', hi', haddr⟩ := htakes
          rw [Option.some.inj (hi.symm.trans hi')]
          exact .inr haddr
        · exact .inl ⟨e, he, htakes⟩

theorem History.pred {index : Nat}
    (h : History body (Performs .forever a) (m :: past))
    (hpc : m.pc = index + 1) (hjoin : body.isJoinPoint (index + 1) = false) :
    ∃ m₀ before i, past = m₀ :: before ∧ m₀.pc = index ∧
      body.get? index = some i ∧
      Performs .forever a i m₀ m ∧
      History body (Performs .forever a) (m₀ :: before) := by
  cases h with
  | start => simp at hpc
  | @next m₀ _ before i h₀ hi hperf =>
      have hindex := hperf.pc_eq_of_not_isJoinPoint hi hpc hjoin
      exact ⟨m₀, before, i, rfl, hindex, hindex ▸ hi, hperf, h₀⟩

/-- A run over instructions that no branch goes to went through them one by
one. By induction on their number: each was reached from the one in front of
it. -/
theorem History.back {first : Nat} (distance : Nat)
    (h : History body (Performs .forever a) (m :: past))
    (hpc : m.pc = first + distance + 1)
    (hjoin : ∀ k, first < k → k ≤ first + distance + 1 →
      body.isJoinPoint k = false) :
    ∃ between m₀ before, past = between ++ m₀ :: before ∧ m₀.pc = first ∧
      between.map Machine.pc = (List.range' (first + 1) distance).reverse := by
  induction distance generalizing m past with
  | zero =>
      obtain ⟨m₁, past₁, -, rfl, hpc₁, -⟩ :=
        h.pred hpc (hjoin _ (by omega) (by omega))
      exact ⟨[], m₁, past₁, rfl, hpc₁, rfl⟩
  | succ distance ih =>
      obtain ⟨m₁, past₁, -, rfl, hpc₁, -, -, h₁⟩ :=
        h.pred hpc (hjoin _ (by omega) (by omega))
      have hlast : m₁.pc = first + distance + 1 := hpc₁
      obtain ⟨between, m₀, before, hsplit, hpc₀, hpcs⟩ :=
        ih h₁ hlast fun k hk hk' => hjoin k hk (by omega)
      refine ⟨m₁ :: between, m₀, before,
        by rw [hsplit, List.cons_append], hpc₀, ?_⟩
      rw [List.map_cons, hpcs, hlast, List.range'_concat, List.reverse_append,
        Nat.one_mul, show first + distance + 1 = first + 1 + distance by omega]
      rfl

/-- A local holds what a store put there for as long as it is not stored again,
if its address was never taken, neither before the store nor behind it. -/
theorem History.kept {between before : List (Machine ω)} {s : Machine ω}
    {j : Instruction}
    (h : History body (Performs .forever a) (m :: between ++ s :: before))
    (hj : body.get? s.pc = some j) (hstores : j.storesTo slot = true)
    (hquiet : ∀ e ∈ between, ∀ i, body.get? e.pc = some i →
      i.storesTo slot = false)
    (hfree : ∀ e ∈ between ++ s :: before, ¬TakesAddress body slot e) :
    ∀ e ∈ m :: between, s.stack[0]? = some (e.locals slot) := by
  induction between generalizing m with
  | nil =>
      rw [List.forall_mem_singleton]
      cases h with
      | next _ hi hperf =>
          have hlocal := hperf.locals slot
          rw [← Option.some.inj (hj.symm.trans hi), if_pos hstores] at hlocal
          exact hlocal
  | cons e rest ih =>
      -- The last step may have written the local through any address taken so
      -- far, so that there is none has to be known of the whole run and not
      -- only of its last part.
      have hunexposed : ¬m.exposed slot := by
        rw [History.exposed_iff h]
        rintro ⟨e', he', htakes⟩
        exact hfree e' he' htakes
      cases h with
      | @next _ _ _ i h₀ hi hperf =>
          have hrest :=
            ih h₀ (fun e' he' => hquiet e' (List.mem_cons_of_mem _ he'))
            (fun e' he' => hfree e' (List.mem_cons_of_mem _ he'))
          have hlocal := hperf.locals slot
          rw [if_neg (by simp [hquiet e (List.mem_cons_self ..) i hi])]
            at hlocal
          rw [List.forall_mem_cons]
          refine ⟨?_, hrest⟩
          rw [hlocal.resolve_left hunexposed]
          exact hrest e (List.mem_cons_self ..)

end

/-! ## Hops from a load to its store -/

theorem Code.Body.exists_of_lastStore? {body : Body} {slot : UInt16}
    {limit store : Nat} (h : body.lastStore? slot limit = some store) :
    ∃ j, body.get? store = some j ∧ j.storesTo slot = true := by
  induction limit with
  | zero => cases h
  | succ index ih =>
      rw [Body.lastStore?] at h
      split at h
      · next hany =>
          obtain rfl := Option.some.inj h
          exact (Option.any_eq_true ..).1 hany
      · exact ih h

theorem Route.Trail.stored_of_mem {r : Route} {start need load store : Nat}
    {path : List Hop}
    {o : Origin} (h : r.Trail start need path o)
    (hmem : Hop.stored load store ∈ path) :
    ∃ i slot, r.body.get? load = some i ∧ i.loadedSlot? = some slot ∧
      r.body.lastStore? slot load = some store ∧
      r.haltsBetween store load = false ∧
      r.body.addressTaken slot (store + 1) load = false := by
  induction h with
  | found => cases hmem
  | hop _ hf _ ih =>
      rcases List.mem_cons.1 hmem with rfl | hmem
      · cases hf with
        | @stored i slot _ hi hslot hstore hjoin htaken =>
            exact ⟨i, slot, hi, hslot, hstore, hjoin, htaken⟩
      · exact ih hmem

/-- An answer has a trail, whatever the cache says: the cache is asked only
when the trace has come to its end. -/
theorem trail_of_resolved {limits : Limits} {a : Assembly} {body : Body}
    {site position : Nat} {cache : Cache} {text : String}
    (h : (resolveArgument limits a body site position cache).1 =
      .resolved text) :
    ∃ target path o, body.callTarget? site = some target ∧
      position < target.params.length ∧
      (Route.ofLimits limits a body).Trail site
        (target.params.length - 1 - position) path o := by
  obtain ⟨o, ho⟩ : ∃ o,
    (Route.ofLimits limits a body).argumentOrigin site position = .ok o := by
    unfold resolveArgument at h
    split at h
    · cases h
    · next text ho => exact ⟨_, ho⟩
    · next declaringType key ho => exact ⟨_, ho⟩
  unfold Route.argumentOrigin slotDepth? at ho
  split at ho
  · cases ho
  · next target htarget =>
      by_cases hposition : position < target.params.length
      · rw [if_pos hposition] at ho
        obtain ⟨path, htrail⟩ := Route.trail_of_origin ho
        exact ⟨target, path, o, htarget, hposition, htrail⟩
      · rw [if_neg hposition] at ho
        cases ho

/-! ## Writing through an address -/

theorem History.mono {body : Body}
    {step step' : Instruction → Machine ω → Machine ω → Prop}
    (hstep : ∀ i m m', step i m m' → step' i m m') {run : List (Machine ω)}
    (h : History body step run) : History body step' run := by
  induction h with
  | start locals => exact .start locals
  | next _ hi hperf ih => exact .next ih hi (hstep _ _ _ hperf)

/-- A step of a machine whose other values may be addresses of locals. An
address is pushed where it is taken, and a local that is not stored is written
only by an instruction that takes its address off the stack. -/
structure PerformsByAddress (a : Assembly) (i : Instruction)
    (m m' : Machine (Option UInt16)) : Prop
    extends Performs .forever a i m m' where
  taken : ∀ slot, i.addressOf? = some slot →
    m'.stack[0]? = some (.other (some slot))
  written : ∀ slot, i.storesTo slot = false → m'.locals slot ≠ m.locals slot →
    ∃ e, i.effect? = some e ∧ Datum.other (some slot) ∈ m.stack.take e.pops

section

variable {a : Assembly} {body : Body} {i : Instruction} {pc : Nat}
  {stack : List (Datum (Option UInt16))}
  {locals : UInt16 → Datum (Option UInt16)}
  {exposed : UInt16 → Prop} {past : List (Machine (Option UInt16))}

/-- A run goes on behind an instruction of known effect, with any values that
it may push and any locals that it may leave. -/
theorem History.advance {e : Code.StackEffect} {m : Machine (Option UInt16)}
    (h : History body (PerformsByAddress a) (m :: past))
    (hi : body.get? m.pc = some i)
    (he : i.effect? = some e) (hpops : e.pops ≤ m.stack.length)
    (pushed : List (Datum (Option UInt16))) (hlen : pushed.length = e.pushes)
    (hcan : ∀ v ∈ pushed, CanPush a i m v)
    (locals : UInt16 → Datum (Option UInt16))
    (hstored : ∀ slot, i.storesTo slot = true →
      m.stack[0]? = some (locals slot))
    (hwritten : ∀ slot, i.storesTo slot = false → locals slot ≠ m.locals slot →
      (∃ e ∈ past, TakesAddress body slot e) ∧ Datum.other
      (some slot) ∈ m.stack.take e.pops)
    (htaken : ∀ slot, i.addressOf? = some slot →
      pushed[0]? = some (.other (some slot))) :
    ∃ exposed, History body (PerformsByAddress a)
      (⟨m.pc + 1, pushed ++ m.stack.drop e.pops, locals, exposed⟩ :: m ::
        past) := by
  have hexposed : ∀ slot, m.exposed slot ↔
      ∃ e ∈ past, TakesAddress body slot e :=
    fun slot => (h.mono fun _ _ _ hperf => hperf.toPerforms).exposed_iff
  refine ⟨ExposedAfter .forever i m,
    .next h hi ⟨⟨.inl rfl, ?_, ?_, fun slot => Iff.rfl⟩, ?_, ?_⟩⟩
  · rw [StackAfter, he]
    exact ⟨hpops, pushed, hlen, hcan, rfl⟩
  · intro slot
    cases hs : i.storesTo slot with
    | true => exact hstored slot hs
    | false =>
        by_cases hsame : locals slot = m.locals slot
        · exact .inr hsame
        · have htaken := (hexposed slot).2 (hwritten slot hs hsame).1
          exact .inl (exposedAfter_forever.2 (.inl htaken))
  · intro slot hslot
    have hfirst := htaken slot hslot
    obtain ⟨hpos, -⟩ := List.getElem?_eq_some_iff.1 hfirst
    rw [List.getElem?_append_left hpos]
    exact hfirst
  · intro slot hs hne
    exact ⟨e, he, (hwritten slot hs hne).2⟩

theorem History.push
    (h : History body (PerformsByAddress a)
      (⟨pc, stack, locals, exposed⟩ :: past))
    (v : Datum (Option UInt16)) (hi : body.get? pc = some i)
    (he : i.effect? = some ⟨0, 1⟩)
    (hcan : CanPush a i ⟨pc, stack, locals, exposed⟩ v)
    (hstores : ∀ slot, i.storesTo slot = false)
    (htaken : ∀ slot, i.addressOf? = some slot → v = .other (some slot)) :
    ∃ exposed', History body (PerformsByAddress a)
      (⟨pc + 1, v :: stack, locals, exposed'⟩ :: ⟨pc, stack, locals, exposed⟩ ::
        past) := by
  refine h.advance hi he (Nat.zero_le _) [v] rfl
    (List.forall_mem_singleton.2 hcan) locals ?_ ?_ ?_
  · intro slot hslot
    rw [hstores slot] at hslot
    cases hslot
  · intro slot _ hne
    exact absurd rfl hne
  · intro slot hslot
    rw [htaken slot hslot]
    rfl

theorem Code.Instruction.eq_of_storesTo {slot other : UInt16}
    (h : i.storesTo slot = true)
    (h' : i.storesTo other = true) : slot = other := by
  rw [Instruction.storesTo, Bool.and_eq_true, beq_iff_eq, beq_iff_eq] at h h'
  exact Option.some.inj (h.2.symm.trans h'.2)

theorem History.store {v : Datum (Option UInt16)} (slot : UInt16)
    (h : History body (PerformsByAddress a)
      (⟨pc, v :: stack, locals, exposed⟩ :: past))
    (hi : body.get? pc = some i) (he : i.effect? = some ⟨1, 0⟩)
    (hstores : i.storesTo slot = true) (htaken : i.addressOf? = none) :
    ∃ exposed', History body (PerformsByAddress a)
      (⟨pc + 1, stack, Function.update locals slot v, exposed'⟩ ::
        ⟨pc, v :: stack, locals, exposed⟩ :: past) := by
  refine h.advance hi he (Nat.le_add_left ..) [] rfl (List.forall_mem_nil _)
    _ ?_ ?_ ?_
  · intro other hother
    rw [Instruction.eq_of_storesTo hother hstores, Function.update_self]
    rfl
  · intro other hother hne
    have hdiffers : other ≠ slot := by
      rintro rfl
      rw [hstores] at hother
      cases hother
    exact absurd (Function.update_of_ne hdiffers v locals) hne
  · intro other hother
    rw [htaken] at hother
    cases hother

/-- An instruction takes a value and an address off the stack and writes the
local behind it. -/
theorem History.write {v : Datum (Option UInt16)} {slot : UInt16}
    (h : History body (PerformsByAddress a)
      (⟨pc, v :: .other (some slot) :: stack, locals, exposed⟩ :: past))
    (hi : body.get? pc = some i) (he : i.effect? = some ⟨2, 0⟩)
    (hstores : ∀ other, i.storesTo other = false) (htaken : i.addressOf? = none)
    (hpast : ∃ e ∈ past, TakesAddress body slot e) :
    ∃ exposed', History body (PerformsByAddress a)
      (⟨pc + 1, stack, Function.update locals slot v, exposed'⟩ ::
        ⟨pc, v :: .other (some slot) :: stack, locals, exposed⟩ :: past) := by
  refine h.advance hi he (Nat.le_add_left ..) [] rfl (List.forall_mem_nil _)
    _ ?_ ?_ ?_
  · intro other hother
    rw [hstores other] at hother
    cases hother
  · intro other _ hne
    have hsame : other = slot := by
      by_contra hdiffers
      exact hne (Function.update_of_ne hdiffers v locals)
    rw [hsame]
    exact ⟨hpast, by simp⟩
  · intro other hother
    rw [htaken] at hother
    cases hother

end

/-- A body that keeps the address of a local, stores a text in the first one,
then writes through the address, and passes the first local on. -/
def aliasedNotice (slot : UInt16) : Body where
  code := #[
    ⟨0, 2, .plain 0 0x12 "ldloca.s" .uint8 0 1, .slot slot⟩,
    ⟨2, 1, .store 0 0x0B "stloc.1" .none, .slot 1⟩,
    ⟨3, 5, .literal 0 0x72 "ldstr" .token, .string "missing dispose"⟩,
    ⟨8, 1, .store 0 0x0A "stloc.0" .none, .slot 0⟩,
    ⟨9, 1, .load 0 0x07 "ldloc.1" .none, .slot 1⟩,
    ⟨10, 5, .literal 0 0x72 "ldstr" .token, .string "done"⟩,
    ⟨15, 1, .plain 0 0x51 "stind.ref" .none 2 0, .none⟩,
    ⟨16, 1, .plain 0 0x03 "ldarg.1" .none 0 1, .argument 1⟩,
    ⟨17, 1, .load 0 0x06 "ldloc.0" .none, .slot 0⟩,
    ⟨18, 5, .call 0 0x28 "call",
      .call ⟨"System.Diagnostics.Debug", "WriteLineIf",
        ["System.Boolean", "System.String"], "System.Void", false⟩⟩]
  locals := #[]

theorem aliasedNotice_trail (slot : UInt16) :
    (Route.ofLimits {} ⟨"Sample", [], ∅⟩ (aliasedNotice slot)).Trail 9 0
      [.stored 8 3]
      (.literal "missing dispose") := by
  refine .hop (.here rfl rfl rfl (by decide)) (.stored rfl rfl rfl rfl ?_)
    (.found (.here rfl rfl rfl (by decide)) (.literal rfl rfl))
  simp [Body.addressTaken, Route.ofLimits, aliasedNotice,
    Instruction.addressOf?]

theorem eq_of_takesAddress_aliasedNotice {slot other : UInt16} {m : Machine ω}
    (h : TakesAddress (aliasedNotice slot) other m) : other = slot := by
  obtain ⟨i, hi, haddr⟩ := h
  have hmem := Array.mem_of_getElem? hi
  simp only [aliasedNotice, List.mem_toArray, List.mem_cons, List.not_mem_nil,
    or_false] at hmem
  rcases hmem with rfl | rfl | rfl | rfl | rfl | rfl | rfl | rfl | rfl | rfl <;>
    cases haddr
  rfl

/-- The run of such a body up to its last load. The address it took of the
local is in another one when the text is stored, and the local is written after
that. -/
theorem aliasedNotice_run (a : Assembly) (slot : UInt16) :
    ∃ (m s : Machine (Option UInt16))
      (between before : List (Machine (Option UInt16))),
      History (aliasedNotice slot) (PerformsByAddress a)
        (m :: between ++ s :: before) ∧
        m.pc = 8 ∧ s.pc = 3 ∧ s.stack[0]? = some (.text "missing dispose") ∧
        m.locals slot = .text "done" := by
  have h₀ : History (aliasedNotice slot) (PerformsByAddress a)
      [⟨0, [], fun _ => .other none, fun _ => False⟩] := .start _
  -- The address is taken and kept in the second local.
  obtain ⟨_, h₁⟩ := h₀.push (.other (some slot)) rfl rfl (.of_other rfl)
    (fun _ => rfl) (fun _ h => by cases h; rfl)
  obtain ⟨_, h₂⟩ := h₁.store 1 rfl rfl rfl rfl
  -- The text is stored in the first one.
  obtain ⟨_, h₃⟩ := h₂.push (.text "missing dispose") rfl rfl (.of_literal? rfl)
    (fun _ => rfl) (fun _ h => nomatch h)
  obtain ⟨_, h₄⟩ := h₃.store 0 rfl rfl rfl rfl
  -- The address comes back and is written through.
  obtain ⟨_, h₅⟩ :=
    h₄.push (.other (some slot)) rfl rfl (@CanPush.of_loadedSlot? _ _ _ _ 1 rfl)
    (fun _ => rfl) (fun _ h => nomatch h)
  obtain ⟨_, h₆⟩ :=
    h₅.push (.text "done") rfl rfl (.of_literal? rfl) (fun _ => rfl)
    (fun _ h => nomatch h)
  obtain ⟨_, h₇⟩ := h₆.write rfl rfl (fun _ => rfl) rfl
    ⟨_, List.getLast_mem (List.cons_ne_nil _ _), _, rfl, rfl⟩
  obtain ⟨_, h₈⟩ := h₇.push (.other none) rfl rfl (.of_other rfl) (fun _ => rfl)
    (fun _ h => nomatch h)
  exact ⟨_, _, [_, _, _, _], _, h₈, rfl, rfl, rfl, Function.update_self ..⟩

/-! ## How far a hop can be trusted -/

/-- A hop from a load to its store is trustworthy but for addresses taken
before the store. Every run that comes to the load went straight there from the
store, and on that way it took no address of the local. Unless it had taken one
by then, the local holds what the store put there at every step, although an
address could be used by any instruction for the rest of the run. -/
theorem traced_local_kept (limits : Limits) (a : Assembly) (body : Body)
    (site position : Nat)
    (cache : Cache) (text : String) (hhalt : limits.haltAtJoins = true)
    (h : (resolveArgument limits a body site position cache).1 =
      .resolved text) :
    ∃ target, body.callTarget? site = some target ∧
      position < target.params.length ∧
      (∃ path o, (Route.ofLimits limits a body).Trail site
        (target.params.length - 1 - position) path o) ∧
      ∀ path o, (Route.ofLimits limits a body).Trail site
        (target.params.length - 1 - position) path o →
      ∀ load store, Hop.stored load store ∈ path →
        ∃ i j slot, body.get? load = some i ∧ i.loadedSlot? = some slot ∧
          body.get? store = some j ∧ j.storesTo slot = true ∧
          ∀ (ω : Type) (m : Machine ω) (past : List (Machine ω)),
            History body (Performs .forever a) (m :: past) → m.pc = load →
            ∃ between s before, past = between ++ s :: before ∧ s.pc = store ∧
              between.map Machine.pc =
                (List.range' (store + 1) (load - store - 1)).reverse ∧
              (∀ e ∈ between, ¬TakesAddress body slot e) ∧
              ((∀ e ∈ s :: before, ¬TakesAddress body slot e) →
                ∀ e ∈ m :: between, s.stack[0]? = some (e.locals slot)) := by
  obtain ⟨target, path, o, htarget, hposition, htrail⟩ := trail_of_resolved h
  refine ⟨target, htarget, hposition, ⟨path, o, htrail⟩, ?_⟩
  intro path' o' htrail' load store hmem
  obtain ⟨i, slot, hi, hslot, hstore, hbetween, htaken⟩ :=
    htrail'.stored_of_mem hmem
  obtain ⟨j, hj, hstores⟩ := Body.exists_of_lastStore? hstore
  refine ⟨i, j, slot, hi, hslot, hj, hstores, ?_⟩
  intro ω m past hrun hpc
  have hlt := Body.lastStore?_lt hstore
  have hjoin : ∀ k, store < k → k ≤ store + (load - store - 1) + 1 →
      body.isJoinPoint k = false := by
    intro k hk hk'
    have hhalts := Route.halts_of_haltsBetween hbetween hk (by omega)
    rwa [Route.halts_ofLimits hhalt] at hhalts
  obtain ⟨between, s, before, rfl, hspc, hpcs⟩ :=
    hrun.back (load - store - 1) (by omega) hjoin
  have hplace : ∀ e ∈ between, store < e.pc ∧ e.pc < load := by
    intro e he
    have hmem : e.pc ∈ (List.range' (store + 1) (load - store - 1)).reverse :=
      hpcs ▸ List.mem_map_of_mem he
    rw [List.mem_reverse, List.mem_range'_1] at hmem
    omega
  have hfree : ∀ e ∈ between, ¬TakesAddress body slot e := by
    rintro e he ⟨i', hi', haddr⟩
    obtain ⟨hlo, hhi⟩ := hplace e he
    exact Body.addressOf?_ne_of_addressTaken htaken hlo hhi hi' haddr
  refine ⟨between, s, before, rfl, hspc, hpcs, hfree, ?_⟩
  intro hearlier
  refine History.kept hrun (hspc ▸ hj) hstores ?_ ?_
  · intro e he i' hi'
    obtain ⟨hlo, hhi⟩ := hplace e he
    exact Body.not_storesTo_of_lastStore? hstore hlo hhi hi'
  · intro e he
    rcases List.mem_append.1 he with he | he
    · exact hfree e he
    · exact hearlier e he

/-- With the address of another local, that one is overwritten and the first
keeps its text. The theorem is applied to the run that does this, so its
condition can be met by code that uses addresses. -/
theorem traced_local_kept_aliasedNotice :
    (resolveArgument {} ⟨"Sample", [], ∅⟩ (aliasedNotice 2) 9 1 {}).1 =
        .resolved "missing dispose" ∧
      (∀ e : Machine (Option UInt16), ¬TakesAddress (aliasedNotice 2) 0 e) ∧
      ∃ (m s : Machine (Option UInt16)) (past : List (Machine (Option UInt16))),
        History (aliasedNotice 2) (Performs .forever ⟨"Sample", [], ∅⟩)
          (m :: past) ∧
          m.pc = 8 ∧ m.locals 2 = .text "done" ∧
          s ∈ past ∧ s.pc = 3 ∧ s.stack[0]? = some (m.locals 0) := by
  have hres :
      (resolveArgument {} ⟨"Sample", [], ∅⟩ (aliasedNotice 2) 9 1 {}).1 =
      .resolved "missing dispose" := by decide +kernel
  have hfree : ∀ e : Machine (Option UInt16),
      ¬TakesAddress (aliasedNotice 2) 0 e :=
    fun e h => absurd (eq_of_takesAddress_aliasedNotice h) (by decide)
  obtain ⟨m, s, between, before, hrun, hpc, -, -, hwritten⟩ :=
    aliasedNotice_run ⟨"Sample", [], ∅⟩ 2
  obtain ⟨target, htarget, -, -, hhops⟩ :=
    traced_local_kept {} ⟨"Sample", [], ∅⟩ (aliasedNotice 2) 9 1
      {} "missing dispose" rfl hres
  obtain rfl : target = _ := Option.some.inj (htarget.symm.trans rfl)
  obtain ⟨i, j, slot, hi, hslot, -, -, hkept⟩ :=
    hhops _ _ (aliasedNotice_trail 2) 8 3 (List.mem_cons_self ..)
  obtain rfl := Option.some.inj (hi.symm.trans rfl)
  obtain rfl : slot = 0 := Option.some.inj (hslot.symm.trans rfl)
  have hrun' := hrun.mono fun _ _ _ hperf => hperf.toPerforms
  obtain ⟨between', s', before', hpast, hspc, -, -, hsame⟩ :=
    hkept _ m _ hrun' hpc
  refine ⟨hres, hfree, m, s', _, hrun', hpc, hwritten, ?_, hspc, ?_⟩
  · rw [hpast]
    exact List.mem_append_right _ (List.mem_cons_self ..)
  · exact hsame (fun e _ => hfree e) m (List.mem_cons_self ..)

/-- With the address of the first local, its text is overwritten. Where the
local is loaded, the trace answers with the text that was stored, and the run
has another. -/
theorem alias_outlives_store :
    Body.assemble
        [.ldloca 0, .stloc 1, .ldstr "missing dispose", .stloc 0, .ldloc 1,
          .ldstr "done", .raw 0 0x51 .none, .ldarg 1, .ldloc 0,
          .call ⟨"System.Diagnostics.Debug", "WriteLineIf",
            ["System.Boolean", "System.String"], "System.Void",
              false⟩] = .ok (aliasedNotice 0) ∧
      (resolveArgument {} ⟨"Sample", [], ∅⟩ (aliasedNotice 0) 9 1 {}).1 =
        .resolved "missing dispose" ∧
      (Route.ofLimits {} ⟨"Sample", [], ∅⟩ (aliasedNotice 0)).Trail 9 0
        [.stored 8 3]
        (.literal "missing dispose") ∧
      ∃ (m s : Machine (Option UInt16))
        (between before : List (Machine (Option UInt16))),
        History (aliasedNotice 0) (PerformsByAddress ⟨"Sample", [], ∅⟩)
            (m :: between ++ s :: before) ∧
          m.pc = 8 ∧ s.pc = 3 ∧ s.stack[0]? = some (.text "missing dispose") ∧
          m.locals 0 = .text "done" :=
  ⟨rfl,
    by decide +kernel, aliasedNotice_trail 0,
    aliasedNotice_run ⟨"Sample", [], ∅⟩ 0⟩

end CilAudit
