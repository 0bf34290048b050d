import CilAudit.Proofs.BaseChain
import Mathlib.Algebra.Order.BigOperators.Group.List
import Mathlib.Algebra.Order.Group.Nat
import Mathlib.Algebra.Ring.Nat
import Mathlib.Data.List.Chain

/-!
# The interface search, turn by turn

`implements_iff` says what the interface search finds and takes for granted
that it ends, since `Assembly.search` is defined on a measure of names. A
search that is not given that measure remembers the names it has met, takes the
next pending type, and goes on until none is left (`Assembly.turn`). Pending
types may repeat, and a type met for the first time pushes as many as it lists,
so neither the pending types nor the names alone get fewer. What pays for a
turn is the sum of the pending types and of the interfaces listed by types
whose names were not met yet: a type met again costs its own place, and a type
met for the first time pays for what it pushes with what it lists.

The order in which interfaces are listed decides which type is looked at next,
and nothing else. Being reachable does not depend on it, so neither does the
answer.
-/

namespace CilAudit

namespace Assembly

variable {a : Assembly} {interface : String} {unseen visited : List String}
  {t u b : TypeDef} {pending known : List TypeDef}

/-! ## Turns -/

structure Sweep where
  visited : List String
  pending : List TypeDef

/-- One turn of a search: its answer, or where it stands after the next pending
type. This is the loop that a search is usually written as, with a list of the
names it has met. -/
def turn (a : Assembly) (interface : String) (s : Sweep) : Bool ⊕ Sweep :=
  match s.pending with
  | [] => .inl false
  | t :: pending =>
    if t.fullName ∈ s.visited then .inr ⟨s.visited, pending⟩
    else if t.lists interface then .inl true
    else .inr ⟨t.fullName :: s.visited,
      (a.declaredInterfaces t).reverse ++ pending⟩

/-- What a search answers within so many turns, if it has answered by then.
Nothing makes it end here but the number of turns. -/
def answerWithin (a : Assembly) (interface : String) : Nat → Sweep → Option Bool
  | 0, _ => none
  | turns + 1, s =>
    match a.turn interface s with
    | .inl answer => some answer
    | .inr next => a.answerWithin interface turns next

/-- A search that has not begun: the farthest base is looked at first. -/
def sweepStart (a : Assembly) (t : TypeDef) : Sweep :=
  ⟨[], (t :: a.baseTypes t).reverse⟩

/-- How many turns a search can need: one for each type it starts with, one for
each interface that is listed anywhere, and one to find that nothing is
left. -/
def turnsNeeded (a : Assembly) (t : TypeDef) : Nat :=
  (t :: a.baseTypes t).length +
    ((t :: a.types).map (·.interfaces.length)).sum + 1

/-- How many interfaces are listed by types whose names were not met yet. Each
turn either takes a pending type away or pays for those it adds with these. -/
def unmetListings (known : List TypeDef) (visited : List String) : Nat :=
  (known.map fun u =>
    if u.fullName ∈ visited then 0 else u.interfaces.length).sum

theorem unmetListings_cons_le (known : List TypeDef) (name : String)
    (visited : List String) :
    unmetListings known (name :: visited) ≤ unmetListings known visited := by
  refine List.sum_le_sum fun u _ => ?_
  by_cases hmet : u.fullName ∈ visited
  · simp [hmet]
  · by_cases hname : u.fullName = name
    · simp [hname]
    · simp [hmet, hname]

/-- The listings of a type are paid off when its name is met for the first
time. -/
theorem unmetListings_paid (hu : u ∈ known) (hfresh : u.fullName ∉ visited) :
    unmetListings known (u.fullName :: visited) + u.interfaces.length ≤
      unmetListings known visited := by
  induction known with
  | nil => cases hu
  | cons v rest ih =>
      simp only [unmetListings, List.map_cons, List.sum_cons] at ih ⊢
      have hrest := unmetListings_cons_le rest u.fullName visited
      simp only [unmetListings] at hrest
      rcases List.mem_cons.1 hu with rfl | hmem
      · simp only [List.mem_cons_self, if_true, hfresh, if_false]
        omega
      · have hpaid := ih hmem
        by_cases hmet : v.fullName ∈ visited
        · simp only [hmet, List.mem_cons_of_mem, if_true]
          omega
        · simp only [hmet, if_false]
          split <;> omega

theorem length_declaredInterfaces_le (a : Assembly) (t : TypeDef) :
    (a.declaredInterfaces t).length ≤ t.interfaces.length :=
  List.length_filterMap_le ..

/-- With enough turns the answer is that of the search which steps to unseen
names only. The two keep opposite books, of the names met and of those not met,
and the induction keeps these in step. -/
theorem answerWithin_eq_search {turns : Nat} (hknown : a.types ⊆ known)
    (hpending : pending ⊆ known)
    (hunseen : ∀ u ∈ known, u.fullName ∈ unseen ↔ u.fullName ∉ visited)
    (hturns : pending.length + unmetListings known visited < turns) :
    a.answerWithin interface turns ⟨visited, pending⟩ =
      some (a.search interface unseen pending) := by
  induction turns generalizing unseen visited pending with
  | zero => exact absurd hturns (Nat.not_lt_zero _)
  | succ turns ih =>
      cases pending with
      | nil => rw [search]; rfl
      | cons u rest =>
          have hu : u ∈ known := hpending List.mem_cons_self
          have hrest : rest ⊆ known := fun v hv =>
            hpending (List.mem_cons_of_mem u hv)
          rw [answerWithin, turn, search]
          dsimp only
          rw [List.length_cons] at hturns
          by_cases hmet : u.fullName ∈ visited
          · -- The name was met before: the pending type pays for the turn.
            have hgone : u.fullName ∉ unseen := fun h => (hunseen u hu).1 h hmet
            rw [if_pos hmet, dif_neg hgone]
            exact ih hrest hunseen (by omega)
          · have hfresh : u.fullName ∈ unseen := (hunseen u hu).2 hmet
            rw [if_neg hmet, dif_pos hfresh]
            by_cases hlists : u.lists interface = true
            · rw [if_pos hlists, if_pos hlists]
            · -- A new name: what its type lists pays for what it pushes.
              rw [if_neg hlists, if_neg hlists]
              have hpaid := unmetListings_paid hu hmet
              have hpushed := a.length_declaredInterfaces_le u
              refine ih ?_ ?_ ?_
              · refine List.append_subset.2 ⟨fun v hv => ?_, hrest⟩
                obtain ⟨name, -, hname⟩ :=
                  List.mem_filterMap.1 (List.mem_reverse.1 hv)
                exact hknown (mem_of_type? hname)
              · intro v hv
                rw [mem_without, hunseen v hv, List.mem_cons, not_or, and_comm]
              · rw [List.length_append, List.length_reverse]
                omega

theorem answerWithin_turnsNeeded {turns : Nat}
    (hturns : a.turnsNeeded t ≤ turns) :
    a.answerWithin interface turns (a.sweepStart t) =
      some (a.implements t interface) := by
  refine answerWithin_eq_search (List.subset_cons_self t a.types) ?_ ?_ ?_
  · intro u hu
    rcases List.mem_cons.1 (List.mem_reverse.1 hu) with rfl | hmem
    · exact List.mem_cons_self
    · exact List.mem_cons_of_mem t
        (mem_of_type? (isLatest_of_mem_basesFrom hmem))
  · intro u hu
    have hname : u.fullName ∈ t.fullName :: a.typeNames :=
      List.mem_map_of_mem hu
    simp [hname]
  · rw [turnsNeeded] at hturns
    simp only [unmetListings, List.not_mem_nil, if_false, List.length_reverse]
    omega

/-! ## Bases by steps -/

theorem reaches_of_isChain {bases : List TypeDef}
    (hchain : List.IsChain a.Extends (t :: bases))
    (hb : b ∈ t :: bases) : Relation.ReflTransGen a.Extends t b := by
  induction bases generalizing t with
  | nil =>
      obtain rfl := List.mem_singleton.1 hb
      exact .refl
  | cons u rest ih =>
      obtain ⟨hu, hrest⟩ := List.isChain_cons_cons.1 hchain
      rcases List.mem_cons.1 hb with rfl | hmem
      · exact .refl
      · exact .head hu (ih hrest hmem)

/-- The chain of a type that is known by its name leaves no base out, even
where it was cut: what it was cut at is already in it. -/
theorem mem_baseTypes_of_extends (ht : a.IsLatest t)
    (hb : b ∈ t :: a.baseTypes t)
    (hu : a.Extends b u) : u ∈ t :: a.baseTypes t := by
  have hchain := isChain_baseTypes (a := a) t
  obtain ⟨front, rest, hsplit⟩ := List.append_of_mem hb
  cases rest with
  | nil =>
      -- The walk stopped at `b`, because the name of its base is taken; the
      -- taker is that base.
      have hlast : b ∈ (t :: a.baseTypes t).getLast? := by simp [hsplit]
      obtain ⟨w, hw, hname⟩ := List.mem_map.1 (name_of_last_baseTypes hlast hu)
      have hlatest : a.IsLatest w := by
        rcases List.mem_cons.1 hw with rfl | hmem
        · exact ht
        · exact isLatest_of_isChain hchain hmem
      exact hlatest.eq (isLatest_of_base hu) hname ▸ hw
  | cons next rest =>
      rw [hsplit, List.isChain_append_cons_cons] at hchain
      have hnext : a.Extends b next := hchain.2.1
      rw [Extends, hu, Option.some.injEq] at hnext
      rw [hsplit, hnext]
      simp

theorem mem_baseTypes_iff (ht : a.IsLatest t) :
    b ∈ t :: a.baseTypes t ↔ Relation.ReflTransGen a.Extends t b := by
  refine ⟨reaches_of_isChain (isChain_baseTypes t), fun h => ?_⟩
  induction h with
  | refl => exact List.mem_cons_self
  | tail _ hu ih => exact mem_baseTypes_of_extends ht ih hu

end Assembly

/-! ## Interfaces in another order -/

/-- The same declaration, with its interfaces listed in another order. -/
structure TypeDef.Reordered (t u : TypeDef) : Prop where
  same : u = { t with interfaces := u.interfaces }
  interfaces : t.interfaces.Perm u.interfaces

namespace TypeDef.Reordered

variable {t u : TypeDef}

theorem symm (h : t.Reordered u) : u.Reordered t :=
  ⟨by rw [h.same], h.interfaces.symm⟩

theorem fullName (h : t.Reordered u) : u.fullName = t.fullName := by
  rw [h.same]; rfl

theorem base (h : t.Reordered u) : u.base = t.base := by rw [h.same]

theorem lists (h : t.Reordered u) (interface : String) :
    u.lists interface = t.lists interface := by
  rw [TypeDef.lists, TypeDef.lists, Bool.eq_iff_iff]
  simp [h.interfaces.mem_iff]

end TypeDef.Reordered

namespace Assembly

variable {a a' : Assembly} {t t' u : TypeDef} {interface : String}

/-- Two assemblies that list the interfaces of their types in different orders,
and are the same otherwise. -/
def Reordered (a a' : Assembly) : Prop :=
  List.Forall₂ TypeDef.Reordered a.types a'.types

theorem Reordered.symm (h : a.Reordered a') : a'.Reordered a :=
  List.Forall₂.flip (List.Forall₂.imp (fun _ _ => TypeDef.Reordered.symm) h)

theorem Reordered.type? (h : a.Reordered a') {name : String}
    (hu : a.type? name = some u) :
    ∃ u', a'.type? name = some u' ∧ u.Reordered u' := by
  have hrows : List.Forall₂ TypeDef.Reordered a.types.reverse
      a'.types.reverse :=
    List.forall₂_reverse_iff.2 h
  rw [Assembly.type?] at hu ⊢
  generalize a.types.reverse = types at hrows hu
  generalize a'.types.reverse = types' at hrows
  induction hrows with
  | nil => cases hu
  | @cons v v' rest rest' hv _ ih =>
      rw [List.find?_cons] at hu ⊢
      rw [hv.fullName]
      split at hu
      · obtain rfl := Option.some.inj hu
        exact ⟨v', rfl, hv⟩
      · exact ih hu

/-- What is reachable by steps that two assemblies share is reachable in both.
Steps to bases and steps to interfaces are both of this kind. -/
theorem exists_of_reflTransGen {step step' : TypeDef → TypeDef → Prop}
    (hstep : ∀ {x x' y}, x.Reordered x' → step x y →
      ∃ y', step' x' y' ∧ y.Reordered y')
    (ht : t.Reordered t') (h : Relation.ReflTransGen step t u) :
    ∃ u', Relation.ReflTransGen step' t' u' ∧ u.Reordered u' := by
  induction h with
  | refl => exact ⟨t', .refl, ht⟩
  | tail _ hxy ih =>
      obtain ⟨x', hreach, hx⟩ := ih
      obtain ⟨y', hy, hxy'⟩ := hstep hx hxy
      exact ⟨y', hreach.tail hy, hxy'⟩

theorem Reordered.extends (h : a.Reordered a') {x x' y : TypeDef}
    (hx : x.Reordered x')
    (hy : a.Extends x y) : ∃ y', a'.Extends x' y' ∧ y.Reordered y' := by
  obtain ⟨name, hbase, hname⟩ := extends_iff.1 hy
  obtain ⟨y', hname', hy'⟩ := h.type? hname
  exact ⟨y', extends_iff.2 ⟨name, by rw [hx.base, hbase], hname'⟩, hy'⟩

theorem Reordered.declaredInterfaces (h : a.Reordered a') {x x' y : TypeDef}
    (hx : x.Reordered x') (hy : y ∈ a.declaredInterfaces x) :
    ∃ y', y' ∈ a'.declaredInterfaces x' ∧ y.Reordered y' := by
  obtain ⟨name, hlisted, hname⟩ := List.mem_filterMap.1 hy
  obtain ⟨y', hname', hy'⟩ := h.type? hname
  have hmem : y' ∈ a'.declaredInterfaces x' :=
    List.mem_filterMap.2 ⟨name, hx.interfaces.mem_iff.1 hlisted, hname'⟩
  exact ⟨y', hmem, hy'⟩

theorem Reordered.implements (h : a.Reordered a') (ht : a.IsLatest t)
    (ht' : a'.IsLatest t')
    (htt : t.Reordered t') (himplements : a.implements t interface = true) :
    a'.implements t' interface = true := by
  rw [implements_iff ht] at himplements
  obtain ⟨b, hb, goal, hgoal, hlists⟩ := himplements
  obtain ⟨b', hb', hbb⟩ :=
    exists_of_reflTransGen h.extends htt ((mem_baseTypes_iff ht).1 hb)
  obtain ⟨goal', hgoal', hgg⟩ :=
    exists_of_reflTransGen h.declaredInterfaces hbb hgoal
  refine (implements_iff ht').2 ⟨b', (mem_baseTypes_iff ht').2 hb', goal',
    hgoal', ?_⟩
  rw [hgg.lists, hlists]

theorem Reordered.implements_eq (h : a.Reordered a') (ht : a.IsLatest t)
    (ht' : a'.type? t.fullName = some t') :
    a'.implements t' interface = a.implements t interface := by
  obtain ⟨u', hu', htt⟩ := h.type? ht
  rw [ht', Option.some.injEq] at hu'
  subst hu'
  have hlatest : a'.IsLatest t' := isLatest_of_type? ht'
  rw [Bool.eq_iff_iff]
  exact ⟨h.symm.implements hlatest ht htt.symm, h.implements ht hlatest htt⟩

end Assembly

/-- A type that is known by its name implements exactly the interfaces that are
listed by a type to which steps to bases and then steps to interfaces lead. The
order in which interfaces are listed does not matter, and within a number of
turns that is known beforehand the search has answered. -/
theorem implements_is_reachability (a : Assembly) (t : TypeDef)
    (interface : String) (ht : a.type? t.fullName = some t) :
    (a.implements t interface = true ↔
      ∃ b ∈ t :: a.baseTypes t, ∃ u, a.Reaches b u ∧ u.lists interface = true) ∧
    (∀ b, b ∈ t :: a.baseTypes t ↔ Relation.ReflTransGen a.Extends t b) ∧
    (∀ a' t', a.Reordered a' → a'.type? t.fullName = some t' →
      a'.implements t' interface = a.implements t interface) ∧
    ∀ turns, a.turnsNeeded t ≤ turns →
      a.answerWithin interface turns (a.sweepStart t) =
        some (a.implements t interface) := by
  refine ⟨Assembly.implements_iff ht, fun b => Assembly.mem_baseTypes_iff ht,
    ?_, ?_⟩
  · intro a' t' hreordered ht'
    exact hreordered.implements_eq ht ht'
  · intro turns hturns
    exact Assembly.answerWithin_turnsNeeded hturns

/-- Two classes that extend each other, and interfaces that list each other
with one way out. -/
def ringTypes (outer : List String) : List TypeDef := [
  { TypeDef.interface "Sample" "IOuter" with interfaces := outer },
  { TypeDef.interface "Sample" "IInner" with interfaces := ["Sample.IOuter"] },
  { TypeDef.interface "Sample" "IOwned" with
    interfaces := ["System.IDisposable"] },
  { space := "Sample", name := "Node", base := some "Sample.Leaf" },
  { space := "Sample", name := "Leaf", base := some "Sample.Node",
    interfaces := ["Sample.IOuter"] }]

def ringAssembly : Assembly where
  name := "Sample"
  types := ringTypes ["Sample.IInner", "Sample.IOwned"]

/-- The same assembly, in which the way out is listed first. -/
def turnedRing : Assembly where
  name := "Sample"
  types := ringTypes ["Sample.IOwned", "Sample.IInner"]

/-- Nodes are disposable through their base and two interfaces, in whichever
order these are listed, and the search comes to an end in spite of both
rings. -/
theorem implements_is_reachability_ring :
    ringAssembly.implements ringAssembly.types[3] TypeName.disposable = true ∧
      turnedRing.implements turnedRing.types[3] TypeName.disposable = true ∧
      ringAssembly.answerWithin TypeName.disposable
        (ringAssembly.turnsNeeded ringAssembly.types[3])
        (ringAssembly.sweepStart ringAssembly.types[3]) = some true := by
  obtain ⟨hreach, hbases, horder, hturns⟩ :=
    implements_is_reachability ringAssembly
    ringAssembly.types[3] TypeName.disposable (by decide)
  have hleaf : ringAssembly.types[4] ∈
      ringAssembly.types[3] :: ringAssembly.baseTypes ringAssembly.types[3] :=
    (hbases _).2 (.single (Assembly.extends_iff.2 ⟨_, rfl, by decide⟩))
  have houter : ringAssembly.types[0] ∈
      ringAssembly.declaredInterfaces ringAssembly.types[4] := by decide
  have howned : ringAssembly.types[2] ∈
      ringAssembly.declaredInterfaces ringAssembly.types[0] := by decide
  have hnode : ringAssembly.implements ringAssembly.types[3]
      TypeName.disposable = true :=
    hreach.2 ⟨_, hleaf, _, .head houter (.head howned .refl), by decide⟩
  have hturned : ringAssembly.Reordered turnedRing :=
    .cons ⟨rfl, by decide⟩ (List.forall₂_same.2 fun t _ => ⟨rfl, .refl _⟩)
  refine ⟨hnode, ?_, ?_⟩
  · rw [horder turnedRing turnedRing.types[3] hturned (by decide), hnode]
  · rw [hturns _ (Nat.le_refl _), hnode]

end CilAudit
