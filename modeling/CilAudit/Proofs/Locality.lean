import CilAudit.Proofs.Concatenation
import CilAudit.Proofs.Loosening

/-!
# Traces are local

A trace goes back from its call and never forward, and what it asks of an index
it asks of the one instruction there or of the joins on the way. So code that
is put in front of a body or behind it can show in an answer in few ways only.
It may branch into the way, which is ruled out here. It may stand where the
trace was asked to begin, behind the end of the body. Or the trace may come to
the start of the body and find that there is more: only then was the answer
that the start was reached, or that no store came before a load.

`Route.Hosts` says that the code of one route stands in another one, some
places further on, as far as a trace can see. The two traces are walked in
lockstep from there. All that the second one finds lies as many places further
on, unless the first one came to the start and there are such places.
-/

namespace CilAudit

open Code (Body Instruction Operand)

/-! ## Moved instructions

A place in the code shows in an instruction only through the targets of a
branch, and none of the questions that a trace asks is about those. -/

namespace Code.Instruction

variable (i : Instruction) (bytes places : Nat)

@[simp] theorem op_moved : (i.moved bytes places).op = i.op := rfl

@[simp] theorem literal?_moved :
    (i.moved bytes places).literal? = i.literal? := by
  obtain ⟨offset, size, op, operand⟩ := i
  cases hc : op.category <;> cases operand <;>
    simp [moved, Operand.moved, literal?, hc]

@[simp] theorem callTarget?_moved :
    (i.moved bytes places).callTarget? = i.callTarget? := by
  obtain ⟨offset, size, op, operand⟩ := i
  cases hc : op.category <;> cases operand <;>
    simp [moved, Operand.moved, callTarget?, hc]

@[simp] theorem localIndex?_moved :
    (i.moved bytes places).localIndex? = i.localIndex? := by
  obtain ⟨offset, size, op, operand⟩ := i
  cases hc : op.category <;> cases operand <;>
    simp [moved, Operand.moved, localIndex?, hc]

@[simp] theorem addressOf?_moved :
    (i.moved bytes places).addressOf? = i.addressOf? := by
  obtain ⟨offset, size, op, operand⟩ := i
  cases operand <;> rfl

@[simp] theorem effect?_moved : (i.moved bytes places).effect? = i.effect? := by
  simp [effect?, isConstructorCall]

@[simp] theorem storesTo_moved (slot : UInt16) :
    (i.moved bytes places).storesTo slot = i.storesTo slot := by
  simp [storesTo]

@[simp] theorem loadedSlot?_moved :
    (i.moved bytes places).loadedSlot? = i.loadedSlot? := by
  simp [loadedSlot?]

theorem targets_moved :
    (i.moved bytes places).targets = i.targets.map (places + ·) := by
  obtain ⟨offset, size, op, operand⟩ := i
  cases operand <;> rfl

theorem moved_zero : i.moved 0 0 = i := by
  obtain ⟨offset, size, op, operand⟩ := i
  cases operand <;> simp [moved, Operand.moved]

end Code.Instruction

/-! ## Two traces in lockstep -/

def Hop.moved (places : Nat) : Hop → Hop
  | .stored load store => .stored (places + load) (places + store)
  | .joined call => .joined (places + call)

def Turn.moved (places : Nat) : Turn → Turn
  | .found origin => .found origin
  | .hop way start need => .hop (way.moved places) (places + start) need

/-- The refusals that depend on what stands in front of the code. Where
something does stand there, a trace may go on into it and answer otherwise. -/
def CameToStart {α : Type} (x : Except Reason α) : Prop :=
  x = .error .exhausted ∨ x = .error .noStore

namespace Route

/-- The code of the second route up to `reach` stands in the first one,
`places` further on, with the same limits and the same stops. One proof about
this serves bodies with code around them as well as bodies that differ only
behind a call. -/
structure Hosts (r' r : Route) (bytes places reach : Nat) : Prop where
  assembly : r'.assembly = r.assembly
  steps : r'.maxSteps = r.maxSteps
  hops : r'.maxHops = r.maxHops
  code : ∀ index < reach,
    r'.body.get? (places + index) =
      (r.body.get? index).map (Instruction.moved bytes places)
  halts : ∀ index ≤ reach, r'.halts (places + index) = r.halts index

variable {r r' : Route} {bytes places reach : Nat}

theorem hosts_producer (h : r'.Hosts r bytes places reach) {start : Nat}
    (hstart : start ≤ reach) (need steps : Nat) :
    producer r'.body r'.halts r'.maxSteps (places + start) need steps =
        (producer r.body r.halts r.maxSteps start need steps).map
          (fun q => (places + q.1, q.2)) ∨
      0 < places ∧ CameToStart
        (producer r.body r.halts r.maxSteps start need steps) := by
  induction start generalizing need steps with
  | zero =>
      have hhalts := h.halts 0 (Nat.zero_le _)
      cases places with
      | zero =>
          left
          rw [producer, producer, hhalts]
          split <;> rfl
      | succ before =>
          rw [Nat.add_zero] at hhalts ⊢
          rw [producer, producer, hhalts]
          split
          · exact .inl rfl
          · exact .inr ⟨Nat.succ_pos _, .inl rfl⟩
  | succ index ih =>
      have hhalts : r'.halts (places + index + 1) = r.halts (index + 1) :=
        h.halts _ hstart
      show producer _ _ _ (places + index + 1) need steps = _ ∨ _
      rw [producer, producer, hhalts, h.code index (by omega), h.steps]
      split
      · exact .inl rfl
      · cases r.body.get? index with
        | none => exact .inl rfl
        | some i =>
            simp only [Option.map_some, Instruction.effect?_moved]
            split
            · exact .inl rfl
            · cases i.effect? with
              | none => exact .inl rfl
              | some e =>
                  dsimp only
                  split
                  · exact .inl rfl
                  · have hrest := ih (by omega) (need - e.pushes + e.pops)
                      (steps + 1)
                    rwa [h.steps] at hrest

theorem hosts_lastStore? (h : r'.Hosts r bytes places reach) {limit : Nat}
    (hlimit : limit ≤ reach) (slot : UInt16) :
    r'.body.lastStore? slot (places + limit) =
        (r.body.lastStore? slot limit).map (places + ·) ∨
      0 < places ∧ r.body.lastStore? slot limit = none := by
  induction limit with
  | zero =>
      cases places with
      | zero => exact .inl rfl
      | succ before => exact .inr ⟨Nat.succ_pos _, rfl⟩
  | succ index ih =>
      show r'.body.lastStore? slot (places + index + 1) = _ ∨ _
      rw [Body.lastStore?, Body.lastStore?, h.code index (by omega),
        Option.any_map]
      simp only [Instruction.storesTo_moved]
      split
      · exact .inl rfl
      · exact ih (by omega)

theorem hosts_storeOf? (h : r'.Hosts r bytes places reach) {load : Nat}
    (hload : load < reach) :
    r'.body.storeOf? (places + load) = (r.body.storeOf? load).map (places + ·) ∨
      0 < places ∧ r.body.storeOf? load = none := by
  unfold Body.storeOf?
  rw [h.code load hload]
  cases r.body.get? load with
  | none => exact .inl rfl
  | some i =>
      simp only [Option.map_some, Option.bind_eq_bind, Option.bind_some,
        Instruction.loadedSlot?_moved]
      cases i.loadedSlot? with
      | none => exact .inl rfl
      | some slot => exact hosts_lastStore? h (Nat.le_of_lt hload) slot

theorem hosts_haltsBetween (h : r'.Hosts r bytes places reach)
    {store load : Nat} (hload : load ≤ reach) :
    r'.haltsBetween (places + store) (places + load) =
      r.haltsBetween store load := by
  unfold haltsBetween
  have hrange : List.range' (places + store + 1)
      (places + load - (places + store)) =
      (List.range' (store + 1) (load - store)).map (places + ·) := by
    rw [List.map_add_range', show places + load - (places + store) =
      load - store by omega,
      Nat.add_assoc]
  rw [hrange, List.any_map, Bool.eq_iff_iff, List.any_eq_true, List.any_eq_true]
  refine exists_congr fun index => and_congr_right fun hindex => ?_
  have hle : index ≤ reach := by
    have := List.mem_range'_1.1 hindex
    omega
  rw [Function.comp_apply, h.halts index hle]

theorem hosts_addressTaken (h : r'.Hosts r bytes places reach) (slot : UInt16)
    (first : Nat) {stop : Nat} (hstop : stop ≤ reach) :
    r'.body.addressTaken slot (places + first) (places + stop) =
      r.body.addressTaken slot first stop := by
  rw [Bool.eq_iff_iff, Body.addressTaken_iff, Body.addressTaken_iff]
  constructor
  · rintro ⟨k, i, hlo, hhi, hi, haddr⟩
    obtain ⟨index, rfl⟩ : ∃ index, k = places + index := ⟨k - places, by omega⟩
    rw [h.code index (by omega), Option.map_eq_some_iff] at hi
    obtain ⟨j, hj, rfl⟩ := hi
    exact ⟨index, j,
      by omega, by omega, hj, by rwa [Instruction.addressOf?_moved] at haddr⟩
  · rintro ⟨k, i, hlo, hhi, hi, haddr⟩
    refine ⟨places + k, i.moved bytes places, by omega, by omega, ?_, ?_⟩
    · rw [h.code k (by omega), hi, Option.map_some]
    · rwa [Instruction.addressOf?_moved]

theorem hosts_follow (h : r'.Hosts r bytes places reach) {p : Nat}
    (hp : p < reach) :
    r'.follow (places + p) = (r.follow p).map (Turn.moved places) ∨
      0 < places ∧ CameToStart (r.follow p) := by
  unfold follow
  rw [h.code p hp, h.assembly]
  cases r.body.get? p with
  | none => exact .inl rfl
  | some i =>
      simp only [Option.map_some, Instruction.op_moved,
        Instruction.literal?_moved, Instruction.callTarget?_moved,
        Instruction.localIndex?_moved]
      cases i.op.category
      case loadLocal =>
        -- Only the look for a store can go past the start.
        rcases hosts_storeOf? h hp with hstore | ⟨hpos, hnone⟩
        · rw [hstore]
          cases hstored : r.body.storeOf? p with
          | none => exact .inl rfl
          | some store =>
              have hlt := Body.storeOf?_lt hstored
              have htaken (slot : UInt16) :
                  r'.body.addressTaken slot (places + store + 1) (places + p) =
                    r.body.addressTaken slot (store + 1) p :=
                hosts_addressTaken h slot (store + 1) (Nat.le_of_lt hp)
              simp only [Option.map_some,
                hosts_haltsBetween h (Nat.le_of_lt hp), htaken]
              left
              split
              · rfl
              · split <;> rfl
        · rw [hnone]
          exact .inr ⟨hpos, .inr rfl⟩
      case pushLiteral => cases i.literal? <;> exact .inl rfl
      case call =>
        cases i.callTarget? with
        | none => exact .inl rfl
        | some target =>
            dsimp only
            cases r.assembly.shapeOf .debugWriteLineIf target with
            | concatenation =>
                dsimp only
                cases slotDepth? target.params.length 0 <;> exact .inl rfl
            | _ => exact .inl rfl
      all_goals exact .inl rfl

theorem hosts_origin (h : r'.Hosts r bytes places reach) {start : Nat}
    (hstart : start ≤ reach) (need steps hops : Nat) :
    r'.origin (places + start) need steps hops =
      r.origin start need steps hops ∨
      0 < places ∧ CameToStart (r.origin start need steps hops) := by
  induction start using Nat.strongRecOn generalizing need steps hops with
  | ind start ih =>
      rw [origin_eq, origin_eq]
      rcases hosts_producer h hstart need steps with hsame | ⟨hpos, hcame⟩
      · rw [hsame]
        cases hp : producer r.body r.halts r.maxSteps start need steps with
        | error reason => exact .inl rfl
        | ok found =>
            obtain ⟨p, steps'⟩ := found
            have hlt := producer_lt hp
            dsimp only [Except.map]
            rcases hosts_follow h (show p < reach by omega)
              with hsame | ⟨hpos, hcame⟩
            · rw [hsame]
              cases hf : r.follow p with
              | error reason => exact .inl rfl
              | ok turn =>
                  cases turn with
                  | found origin => exact .inl rfl
                  | hop hop start' need' =>
                      have hle := (follows_of_follow hf).le
                      dsimp only [Except.map, Turn.moved]
                      rw [h.hops]
                      split
                      · exact .inl rfl
                      · exact ih start' (by omega) (by omega) _ _ _
            · refine .inr ⟨hpos, ?_⟩
              rcases hcame with hcame | hcame <;> rw [hcame]
              · exact .inl rfl
              · exact .inr rfl
      · refine .inr ⟨hpos, ?_⟩
        rcases hcame with hcame | hcame <;> rw [hcame]
        · exact .inl rfl
        · exact .inr rfl

theorem hosts_argumentOrigin {site : Nat} (h : r'.Hosts r bytes places site)
    (hcall : r'.body.callTarget? (places + site) = r.body.callTarget? site)
    (position : Nat) :
    r'.argumentOrigin (places + site) position =
      r.argumentOrigin site position ∨
      0 < places ∧ CameToStart (r.argumentOrigin site position) := by
  unfold argumentOrigin
  rw [hcall]
  cases r.body.callTarget? site with
  | none => exact .inl rfl
  | some target =>
      dsimp only
      cases slotDepth? target.params.length position with
      | none => exact .inl rfl
      | some depth => exact hosts_origin h (Nat.le_refl site) depth 0 0

end Route

/-! ## A body amid other code -/

namespace Code.Body

/-- The body with code in front of it and behind it. Its own branches keep
their aims: they are moved with the instructions they go to. -/
def amid (b : Body) (bytes : Nat) (front back : List Instruction) : Body where
  code :=
    (front ++
      (b.code.toList.map (Instruction.moved bytes front.length) ++
        back)).toArray
  locals := b.locals

variable {b : Body} {bytes index : Nat} {front back : List Instruction}

theorem get?_amid (hindex : index < b.size) :
    (b.amid bytes front back).get? (front.length + index) =
      (b.get? index).map (Instruction.moved bytes front.length) := by
  rw [get?, amid, List.getElem?_toArray, List.getElem?_append_right (by omega),
    Nat.add_sub_cancel_left,
    List.getElem?_append_left (by simpa [size] using hindex), List.getElem?_map,
    Array.getElem?_toList, get?]

theorem get?_amid_behind (hindex : b.size ≤ index) :
    (b.amid bytes front back).get? (front.length + index) =
      back[index - b.size]? := by
  rw [get?, amid, List.getElem?_toArray, List.getElem?_append_right (by omega),
    Nat.add_sub_cancel_left,
    List.getElem?_append_right (by simpa [size] using hindex)]
  simp [size]

theorem callTarget?_amid (hindex : index < b.size) :
    (b.amid bytes front back).callTarget? (front.length + index) =
      b.callTarget? index := by
  rw [callTarget?, callTarget?, get?_amid hindex]
  cases b.get? index <;> simp

theorem isJoinPoint_amid {site : Nat} (hindex : index ≤ site)
    (hclear : ∀ i ∈ front ++ back, ∀ target ∈ i.targets,
      target < front.length ∨ front.length + site < target) :
    (b.amid bytes front back).isJoinPoint (front.length + index) =
      b.isJoinPoint index := by
  have houter : ∀ i ∈ front ++ back, front.length + index ∉ i.targets := by
    intro i hi htarget
    have := hclear i hi _ htarget
    omega
  rw [Bool.eq_iff_iff, isJoinPoint_iff, isJoinPoint_iff]
  simp only [amid, List.mem_toArray, List.mem_append, List.mem_map,
    Array.mem_toList_iff]
  constructor
  · rintro ⟨i, hi | ⟨j, hj, rfl⟩ | hi, htarget⟩
    · exact absurd htarget (houter i (List.mem_append_left _ hi))
    · rw [Instruction.targets_moved, List.mem_map] at htarget
      obtain ⟨target, htarget, heq⟩ := htarget
      exact ⟨j, hj, Nat.add_left_cancel heq ▸ htarget⟩
    · exact absurd htarget (houter i (List.mem_append_right _ hi))
  · rintro ⟨i, hi, htarget⟩
    refine ⟨i.moved bytes front.length, .inr (.inl ⟨i, hi, rfl⟩), ?_⟩
    rw [Instruction.targets_moved]
    exact List.mem_map_of_mem htarget

end Code.Body

section

variable {limits : Limits} {a : Assembly} {b b' : Body}
  {bytes places site : Nat}

theorem Route.halts_ofLimits_eq {index index' : Nat}
    (h : b'.isJoinPoint index' = b.isJoinPoint index) :
    (Route.ofLimits limits a b').halts index' =
      (Route.ofLimits limits a b).halts index := by
  rw [Bool.eq_iff_iff, halts_ofLimits_iff, halts_ofLimits_iff, h]

theorem Route.hosts_ofLimits
    (hcode : ∀ index < site,
      b'.get? (places + index) = (b.get? index).map
      (Instruction.moved bytes places))
    (hjoins : ∀ index ≤ site, b'.isJoinPoint (places + index) =
      b.isJoinPoint index) :
    (Route.ofLimits limits a b').Hosts (Route.ofLimits limits a b) bytes places
      site where
  assembly := rfl
  steps := rfl
  hops := rfl
  code := hcode
  halts index hindex := halts_ofLimits_eq (hjoins index hindex)

end

theorem resolution_of_cameToStart {a : Assembly} {x : Except Reason Origin}
    (h : CameToStart x) :
    Resolution.ofOrigin a x = .unresolved .exhausted ∨
      Resolution.ofOrigin a x = .unresolved .noStore := by
  rcases h with rfl | rfl
  · exact .inl rfl
  · exact .inr rfl

/-- Traces are local. A trace in a body has the same answer when other code
stands in front of the body and behind it, provided that this code does not
branch to an index of the body up to the call. Two answers are about what
stands in front, and may change if anything does: that the start was reached,
and that no store was found. And a trace that starts behind the body has no
call there, while the other code may have one. -/
theorem resolution_amid (limits : Limits) (a : Assembly) (b : Body)
    (bytes : Nat)
    (front back : List Instruction) (site position : Nat) (cache cache' : Cache)
    (hcache : cache.FilledFor a) (hcache' : cache'.FilledFor a)
    (hclear : ∀ i ∈ front ++ back, ∀ target ∈ i.targets,
      target < front.length ∨ front.length + site < target) :
    (resolveArgument limits a (b.amid bytes front back) (front.length + site)
      position cache').1 =
        (resolveArgument limits a b site position cache).1 ∨
      (front ≠ [] ∧
        ((resolveArgument limits a b site position cache).1 =
          .unresolved .exhausted ∨
          (resolveArgument limits a b site position cache).1 =
            .unresolved .noStore)) ∨
      (b.size ≤ site ∧
        (resolveArgument limits a b site position cache).1 =
          .unresolved .notACall ∧
        ∃ call target, back[site - b.size]? = some call ∧
          call.callTarget? = some target) := by
  rw [resolution_eq hcache, resolution_eq hcache']
  rcases Nat.lt_or_ge site b.size with hsite | hsite
  · have hhosts : (Route.ofLimits limits a (b.amid bytes front back)).Hosts
        (Route.ofLimits limits a b) bytes front.length site :=
      Route.hosts_ofLimits (fun index hindex => Body.get?_amid (by omega))
        (fun index hindex => Body.isJoinPoint_amid hindex hclear)
    rcases Route.hosts_argumentOrigin hhosts (Body.callTarget?_amid hsite)
      position with
      hsame | ⟨hpos, hcame⟩
    · exact .inl (by rw [hsame])
    · exact .inr (.inl ⟨List.ne_nil_of_length_pos hpos,
        resolution_of_cameToStart hcame⟩)
  · have hnone : b.callTarget? site = none := by
      rw [Body.callTarget?, Body.get?, Array.getElem?_eq_none hsite]
      rfl
    have hanswer : (Route.ofLimits limits a b).argumentOrigin site position =
        .error .notACall := by
      simp only [Route.argumentOrigin, Route.ofLimits, hnone]
    rw [hanswer]
    cases hcall : (b.amid bytes front back).callTarget?
      (front.length + site) with
    | none =>
        left
        simp only [Route.argumentOrigin, Route.ofLimits, hcall]
    | some target =>
        rw [Body.callTarget?, Body.get?_amid_behind hsite,
          Option.bind_eq_some_iff] at hcall
        obtain ⟨call, hback, htarget⟩ := hcall
        exact .inr (.inr ⟨hsite, rfl, call, target, hback, htarget⟩)

/-- A jump to a return, with room for a body between the two. -/
def jumpAhead : List Instruction := [
  ⟨0, 1, .plain 0 0x00 "nop" .none 0 0, .none⟩,
  ⟨1, 5, .branch 0 0x38 "br" .target 0, .target 10⟩]

def returning : List Instruction := [
  ⟨30, 1, ⟨0, 0x2A, "ret", .none, .other, .return, .unknown⟩, .none⟩]

/-- Where the body has a join, the larger one has one, and a trace across it
finds the same text. The code around it branches from its front to its back,
over the body. -/
theorem resolution_amid_branchedNotice :
    (∀ i ∈ jumpAhead ++ returning, ∀ target ∈ i.targets, target < 2 ∨
      2 + 7 < target) ∧
      (resolveArgument {} ⟨"Sample", [], ∅⟩
        (branchedNotice.amid 6 jumpAhead returning) 9 0 {}).1 =
        .unresolved .joinPoint ∧
      (resolveArgument { haltAtJoins := false } ⟨"Sample", [], ∅⟩
        (branchedNotice.amid 6 jumpAhead returning) 9 0 {}).1 =
          .resolved "missing dispose" := by
  have hclear : ∀ i ∈ jumpAhead ++ returning, ∀ target ∈ i.targets,
      target < jumpAhead.length ∨ jumpAhead.length + 7 < target := by decide
  have hlocal (limits : Limits) :=
    resolution_amid limits ⟨"Sample", [], ∅⟩ branchedNotice 6
      jumpAhead returning 7 0 {} {} .empty .empty hclear
  have hhalted :
      (resolveArgument {} ⟨"Sample", [], ∅⟩ branchedNotice 7 0 {}).1 =
      .unresolved .joinPoint := by decide +kernel
  have hacross :
      (resolveArgument { haltAtJoins := false } ⟨"Sample", [], ∅⟩
        branchedNotice 7 0 {}).1 = .resolved "missing dispose" := by
    decide +kernel
  refine ⟨hclear, ?_, ?_⟩
  · have h := hlocal {}
    rw [hhalted] at h
    exact h.resolve_right (by simp)
  · have h := hlocal { haltAtJoins := false }
    rw [hacross] at h
    exact h.resolve_right (by simp)

/-- A body that pushes a text and ends. -/
def loneText : Body where
  code := #[⟨0, 5, .literal 0 0x72 "ldstr" .token, .string "missing dispose"⟩]
  locals := #[]

def writeLine : Instruction :=
  ⟨5, 5, .call 0 0x28 "call",
    .call ⟨"System.Console", "WriteLine", ["System.String"],
      "System.Void", false⟩⟩

/-- Behind the end of a body there is no call, until code with a call is put
there. -/
theorem resolution_behind_the_end :
    (∀ i ∈ [writeLine], i.targets = []) ∧
      (resolveArgument {} ⟨"Sample", [], ∅⟩ loneText 1 0 {}).1 =
        .unresolved .notACall ∧
      (resolveArgument {} ⟨"Sample", [], ∅⟩ (loneText.amid 0 [] [writeLine])
        1 0 {}).1 =
        .resolved "missing dispose" := by
  decide +kernel

end CilAudit
