import CilAudit.Code.StackEffect

/-!
# Who pushed a slot

The value in a stack slot was pushed by some earlier instruction, and counting
finds it: going back one instruction, a slot that lies among those the
instruction pushed has found its producer, and any other slot lies as much
deeper or shallower as the instruction took or left. The search gives up where
the counting could not be trusted: at the start of the code, at an instruction
of unknown effect, at a join if asked to, and when its steps are used up.
-/

namespace CilAudit

open Code (Body)

/-- Why a text could not be traced. -/
inductive Reason where
  /-- The start of the body was reached. -/
  | exhausted
  /-- An instruction with an unknown effect is in the way. -/
  | unknownEffect
  /-- Control may come from elsewhere. -/
  | joinPoint
  /-- A local is loaded that was not stored before. -/
  | noStore
  /-- The address of a local was taken between store and load. -/
  | addressTaken
  /-- The value does not come from a text. -/
  | unsupported
  /-- The resource class has no such text. -/
  | resourceMissing
  /-- A limit was reached. -/
  | budget
  /-- There is no call to trace from. -/
  | notACall
  /-- The call has no such parameter. -/
  | badPosition
deriving DecidableEq, Repr

def Reason.name : Reason → String
  | .exhausted => "Exhausted"
  | .unknownEffect => "UnknownEffect"
  | .joinPoint => "JoinPoint"
  | .noStore => "NoStore"
  | .addressTaken => "AddressTaken"
  | .unsupported => "Unsupported"
  | .resourceMissing => "ResourceMissing"
  | .budget => "Budget"
  | .notACall => "NotACall"
  | .badPosition => "BadPosition"

/-- The index of the instruction that pushed the slot `need` below the top, as
the stack is before `start`, and the steps taken so far. `halts` says where not
to look across. An instruction that pushes fewer slots than needed is stepped
over, and the slot is looked for below what it popped. -/
def producer (body : Body) (halts : Nat → Bool) (maxSteps : Nat) :
    (start need steps : Nat) → Except Reason (Nat × Nat)
  | 0, _, _ => if halts 0 then .error .joinPoint else .error .exhausted
  | index + 1, need, steps =>
    if halts (index + 1) then .error .joinPoint
    else
      match body.get? index with
      | none => .error .exhausted
      | some i =>
        if maxSteps ≤ steps then .error .budget
        else
          match i.effect? with
          | none => .error .unknownEffect
          | some e =>
            if need < e.pushes then .ok (index, steps + 1)
            else producer body halts maxSteps index (need - e.pushes + e.pops)
              (steps + 1)

/-- A producer stands before the place it was asked for. Traces go on from
producers, and this is why they end. -/
theorem producer_lt {body : Body} {halts : Nat → Bool}
    {maxSteps start need steps p steps' : Nat}
    (h : producer body halts maxSteps start need steps = .ok (p, steps')) :
    p < start := by
  induction start generalizing need steps with
  | zero =>
      rw [producer] at h
      split at h <;> simp at h
  | succ index ih =>
      rw [producer] at h
      split at h
      · simp at h
      · split at h
        · simp at h
        · split at h
          · simp at h
          · split at h
            · simp at h
            · split at h
              · simp only [Except.ok.injEq, Prod.mk.injEq] at h
                omega
              · exact Nat.lt_succ_of_lt (ih h)

/-- How many slots lie above an argument when the call is made. Arguments are
pushed in order, so the last one is on top; the receiver lies below them all.
-/
def slotDepth? (params position : Nat) : Option Nat :=
  if position < params then some (params - 1 - position) else none

end CilAudit
