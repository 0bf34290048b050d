/-!
# Verdicts and defects

A rule gives a verdict on each thing it looks at and, with a failure, a defect
that says where. A defect that names an instruction is the less certain one:
the code does something there, only not what was asked for.
-/

namespace CilAudit

inductive Outcome where
  | doesNotApply
  | success
  | failure
deriving DecidableEq, Repr

namespace Outcome

def all : List Outcome := [.doesNotApply, .success, .failure]

def name : Outcome → String
  | .doesNotApply => "DoesNotApply"
  | .success => "Success"
  | .failure => "Failure"

end Outcome

/-- How bad a defect is, the worst first. -/
inductive Severity where
  | critical
  | high
  | medium
  | low
  | audit
deriving DecidableEq, Repr

namespace Severity

def all : List Severity := [.critical, .high, .medium, .low, .audit]

def name : Severity → String
  | .critical => "Critical"
  | .high => "High"
  | .medium => "Medium"
  | .low => "Low"
  | .audit => "Audit"

/-- The place of a severity, counted from the worst. -/
def rank : Severity → Nat
  | .critical => 0
  | .high => 1
  | .medium => 2
  | .low => 3
  | .audit => 4

end Severity

/-- How sure a rule is of a defect, the surest first. -/
inductive Confidence where
  | total
  | high
  | normal
  | low
deriving DecidableEq, Repr

namespace Confidence

/-- All degrees of confidence, the surest first. -/
def all : List Confidence := [.total, .high, .normal, .low]

def name : Confidence → String
  | .total => "Total"
  | .high => "High"
  | .normal => "Normal"
  | .low => "Low"

/-- The place of a confidence, counted from the surest. -/
def rank : Confidence → Nat
  | .total => 0
  | .high => 1
  | .normal => 2
  | .low => 3

end Confidence

/-- A place where a rule is broken. -/
structure Defect where
  /-- The name of the rule. -/
  rule : String
  /-- The name of the type or method. -/
  target : String
  /-- The instruction that is at fault, if one is. -/
  instruction : Option Nat
  severity : Severity
  confidence : Confidence
deriving DecidableEq, Repr

namespace Defect

def render (d : Defect) : String :=
  d.rule ++ ": " ++ d.target ++ " [" ++ d.severity.name ++ "/" ++
    d.confidence.name ++ "]" ++
    match d.instruction with
    | some index => s!" at instruction {index}"
    | none => ""

/-- Whether a defect is at least as grave as another: by severity, then by
confidence. Names and places do not take part. -/
def gravityLe (d e : Defect) : Bool :=
  d.severity.rank < e.severity.rank ||
    (d.severity.rank == e.severity.rank &&
      d.confidence.rank ≤ e.confidence.rank)

/-- Defects with the gravest first; equally grave ones keep their order. -/
def ranked (defects : List Defect) : List Defect := defects.mergeSort gravityLe

/-- An instruction for ordering: none comes before the first. -/
def place (d : Defect) : Nat :=
  match d.instruction with
  | some index => index + 1
  | none => 0

/-- The order by rule, target and instruction. -/
def placeLe (d e : Defect) : Bool :=
  d.rule < e.rule ||
    (d.rule == e.rule &&
      (d.target < e.target || (d.target == e.target && d.place ≤ e.place)))

def sorted (defects : List Defect) : List Defect := defects.mergeSort placeLe

end Defect

end CilAudit
