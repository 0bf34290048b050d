import CilAudit.Code.Instruction
import Std.Data.TreeSet

/-!
# Method bodies

A body is its instructions in order, addressed by index, and its declared local
slots. An index that some branch names is a join point: control may come there
from elsewhere than the instruction before it. A branch may also name an index
past the end.
-/

namespace CilAudit.Code

structure LocalSlot where
  index : UInt16
  typeName : String
deriving DecidableEq, Repr

structure Body where
  code : Array Instruction
  locals : Array LocalSlot
deriving DecidableEq, Repr

namespace Body

def size (b : Body) : Nat := b.code.size

def get? (b : Body) (index : Nat) : Option Instruction := b.code[index]?

/-- The index before an index; that of the last instruction before the end. -/
def prev? (b : Body) (index : Nat) : Option Nat :=
  if index = 0 || b.size < index then none else some (index - 1)

/-- The index after an index, if there is an instruction. -/
def next? (b : Body) (index : Nat) : Option Nat :=
  if index + 1 < b.size then some (index + 1) else none

/-- The first slot declared with an index. -/
def slot? (b : Body) (index : UInt16) : Option LocalSlot :=
  b.locals.find? (·.index == index)

def branchTargets (b : Body) : List Nat :=
  b.code.toList.flatMap Instruction.targets

/-- The join points, in ascending order: every index that some branch names,
whether or not control also comes there from the instruction in front. -/
def joinPoints (b : Body) : Std.TreeSet Nat :=
  Std.TreeSet.ofList b.branchTargets

def isJoinPoint (b : Body) (index : Nat) : Bool := b.joinPoints.contains index

theorem isJoinPoint_iff (b : Body) (index : Nat) :
    b.isJoinPoint index = true ↔ ∃ i ∈ b.code, index ∈ i.targets := by
  simp [isJoinPoint, joinPoints, branchTargets]

/-- Whether the body calls anything, by token or through a pointer. -/
def hasCalls (b : Body) : Bool :=
  b.code.any fun i => i.isCall || i.isIndirectCall

def callTarget? (b : Body) (index : Nat) : Option Target :=
  (b.get? index).bind (·.callTarget?)

def callArguments? (b : Body) (index : Nat) : Option (List String) :=
  (b.callTarget? index).map Target.params

/-- The first text that the body pushes. -/
def firstLiteral? (b : Body) : Option String :=
  b.code.findSome? Instruction.literal?

/-- Equality of bodies, constants compared as numbers: as in floating point
arithmetic, what is no number differs from itself, and the two zeros are equal.
-/
def sameNumbers (a b : Body) : Bool :=
  a.code.size == b.code.size &&
    (a.code.zip b.code).all (fun (i, j) => i.sameNumbers j) &&
    a.locals == b.locals

end Body

end CilAudit.Code
