import CilAudit.Code.Body

/-!
# Stack effects and local stores

How many slots an instruction takes from the evaluation stack and how many it
leaves. A call takes what its target declares, and an object creation leaves
the new object without taking a receiver. Branches are left out even where
their own numbers are fixed: control does not simply run on from them, so
counting across one would be wrong.

Beside it stand the positional questions about locals: the nearest store before
a load, and whether an instruction in a range takes the address of a slot.
-/

namespace CilAudit.Code

/-- The slots an instruction takes and leaves. -/
structure StackEffect where
  pops : Nat
  pushes : Nat
deriving DecidableEq, Repr

def StackEffect.net (e : StackEffect) : Int := (e.pushes : Int) - e.pops

/-- The effect of a call of a target; `creates` for an object creation. -/
def Target.effect (t : Target) (creates : Bool) : StackEffect :=
  if creates then ⟨t.params.length, 1⟩ else ⟨t.argCount, t.returnsValue.toNat⟩

namespace Instruction

/-- The effect of an instruction, as far as it is known. A branch has none,
because a backward trace does not follow it, and neither has a call whose
target the symbols did not know. -/
def effect? (i : Instruction) : Option StackEffect :=
  if i.op.category = .branch then none
  else
    match i.op.stack with
    | .fixed pops pushes => some ⟨pops, pushes⟩
    | .varies => i.callTarget?.map (·.effect i.isConstructorCall)
    | .unknown => none

/-- How many slots a call takes. -/
def callArity? (i : Instruction) : Option Nat :=
  if i.isCall then i.effect?.map StackEffect.pops else none

def storesTo (i : Instruction) (slot : UInt16) : Bool :=
  i.op.category == .storeLocal && i.localIndex? == some slot

def loadedSlot? (i : Instruction) : Option UInt16 :=
  if i.op.category = .loadLocal then i.localIndex? else none

end Instruction

namespace Body

/-- The nearest index below `limit` that stores into a slot. -/
def lastStore? (b : Body) (slot : UInt16) : (limit : Nat) → Option Nat
  | 0 => none
  | index + 1 =>
    if (b.get? index).any (·.storesTo slot) then some index
    else b.lastStore? slot index

/-- The nearest store before a load, into the slot that it loads. Nearest is
meant by index: whether control came from there is for the trace to find out.
-/
def storeOf? (b : Body) (load : Nat) : Option Nat := do
  let slot ← (← b.get? load).loadedSlot?
  b.lastStore? slot load

/-- Whether an instruction from `start` up to but not including `stop` takes a
slot's address. -/
def addressTaken (b : Body) (slot : UInt16) (start stop : Nat) : Bool :=
  (b.code.extract start stop).any (·.addressOf? == some slot)

theorem lastStore?_lt {b : Body} {slot : UInt16} {limit store : Nat}
    (h : b.lastStore? slot limit = some store) : store < limit := by
  induction limit with
  | zero => simp [lastStore?] at h
  | succ index ih =>
      rw [lastStore?] at h
      split at h
      · simp_all
      · exact Nat.lt_succ_of_lt (ih h)

theorem storeOf?_lt {b : Body} {load store : Nat}
    (h : b.storeOf? load = some store) :
    store < load := by
  simp only [storeOf?, Option.bind_eq_bind, Option.bind_eq_some_iff] at h
  obtain ⟨_, _, _, _, h⟩ := h
  exact lastStore?_lt h

end Body

end CilAudit.Code
