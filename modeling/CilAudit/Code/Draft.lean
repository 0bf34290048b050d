import CilAudit.Code.Body
import CilAudit.Fault

/-!
# Drafts of instructions

While code is read or assembled, a branch refers to its target in the terms of
its source: a byte offset in encoded code, a label in statements. A draft is an
instruction with such references; linking replaces them by indices, in the
order of the instructions, and stops at the first reference that leads nowhere.
-/

namespace CilAudit.Code

/-- An operand whose branch targets are still references: offsets where code is
decoded, labels where it is assembled. Both ways end in the same linking. -/
inductive Unlinked (τ : Type) where
  | plain (operand : Operand)
  | branch (ref : τ)
  | table (refs : List τ)
deriving DecidableEq, Repr

/-- How many cases a switch table has. -/
def Unlinked.cases {τ : Type} : Unlinked τ → Nat
  | .table refs => refs.length
  | _ => 0

/-- How many bytes an operand takes; a switch table has its count in front. -/
def Layout.width (layout : Layout) (cases : Nat) : Nat :=
  layout.size?.getD (4 + 4 * cases)

structure Draft (τ : Type) where
  offset : Nat
  size : Nat
  op : Opcode
  operand : Unlinked τ
deriving DecidableEq, Repr

/-- Offsets and sizes are 32-bit words. -/
def maxOffset : Nat := 0xFFFFFFFF

/-- Replaces the references of an operand by the indices that `resolve` gives,
or refuses with the first reference that has none. -/
def Unlinked.link {τ : Type} (resolve : τ → Except Fault Nat) :
    Unlinked τ → Except Fault Operand
  | .plain operand => .ok operand
  | .branch ref => return .target (← resolve ref)
  | .table refs => return .switch (← refs.mapM resolve)

def Draft.link {τ : Type} (resolve : τ → Except Fault Nat) (d : Draft τ) :
    Except Fault Instruction := do
  let operand ← d.operand.link resolve
  return { offset := d.offset, size := d.size, op := d.op, operand }

/-- Links instructions in order; `resolve` is told the index of the one that
refers. -/
def linkAll {τ : Type} (resolve : Nat → τ → Except Fault Nat)
    (drafts : Array (Draft τ)) :
    Except Fault (Array Instruction) :=
  drafts.foldlM (fun code d => return code.push (← d.link (resolve code.size)))
    #[]

end CilAudit.Code
