import CilAudit.Rule.Check

/-!
# Reports

An audit checks every type with every type rule and then every method with
every method rule. Its report lists the verdicts in that order and the defects
of the failures.

Here the checks are made one after the other. That is a choice of the order and
not of the report: a type is checked without looking anything up, and what is
found about a method does not depend on what the cache holds by then. So checks
may as well be made at the same time.
-/

namespace CilAudit

inductive Rule where
  | onType (rule : TypeRule)
  | onMethod (rule : MethodRule)
deriving DecidableEq, Repr

namespace Rule

def all : List Rule :=
  [.onType .finalizer, .onType .rootFinalizer, .onMethod .debugLine,
    .onMethod .rootDebugLine]

def id : Rule → String
  | .onType rule => rule.id
  | .onMethod rule => rule.id

def problem : Rule → String
  | .onType rule => rule.problem
  | .onMethod rule => rule.problem

def solution : Rule → String
  | .onType rule => rule.solution
  | .onMethod rule => rule.solution

def ofId? (id : String) : Option Rule := all.find? (·.id == id)

end Rule

structure RuleSet where
  typeRules : List TypeRule := []
  methodRules : List MethodRule := []
deriving DecidableEq, Repr

namespace RuleSet

/-- The rules about all types and methods. -/
def standard : RuleSet := ⟨[.finalizer], [.debugLine]⟩

/-- The rules about the roots of disposable hierarchies. -/
def hierarchy : RuleSet := ⟨[.rootFinalizer], [.rootDebugLine]⟩

/-- Adds a rule behind those of its kind. -/
def add (rules : RuleSet) : Rule → RuleSet
  | .onType rule => { rules with typeRules := rules.typeRules ++ [rule] }
  | .onMethod rule => { rules with methodRules := rules.methodRules ++ [rule] }

/-- The names of the rules, those about types first. -/
def ids (rules : RuleSet) : List String :=
  rules.typeRules.map TypeRule.id ++ rules.methodRules.map MethodRule.id

end RuleSet

structure Verdict where
  rule : String
  target : String
  outcome : Outcome
deriving DecidableEq, Repr

structure Report where
  verdicts : List Verdict
  defects : List Defect
deriving DecidableEq, Repr

/-- A verdict with the defect of a failure. -/
abbrev Checked := Verdict × Option Defect

namespace Inspection

/-- Checks types with rules, type by type. -/
def checkTypes (i : Inspection) (rules : List TypeRule) (types : List TypeDef) :
    List Checked :=
  types.flatMap fun t => rules.map fun rule =>
    let finding := i.checkType rule t
    (⟨rule.id, t.fullName, finding.outcome⟩, finding.defect)

/-- Checks methods with rules, one after the other, over one cache. -/
def checkMethods (i : Inspection) :
    List (Method × MethodRule) → Cache → List Checked
  | [], _ => []
  | (m, rule) :: rest, cache =>
    let (finding, cache) := i.checkMethod rule m cache
    (⟨rule.id, m.reportName, finding.outcome⟩, finding.defect) ::
      i.checkMethods rest cache

def run (i : Inspection) (rules : RuleSet) : Report :=
  let pairs := i.assembly.methods.flatMap fun m =>
    rules.methodRules.map fun rule => (m, rule)
  let checked := i.checkTypes rules.typeRules i.assembly.types ++
    i.checkMethods pairs {}
  ⟨checked.map Prod.fst, checked.filterMap Prod.snd⟩

end Inspection

/-- Changes the entry of a key; a key without an entry gets one, at the end. -/
def alterEntry {κ β : Type} [DecidableEq κ] (key : κ) (change : Option β → β) :
    List (κ × β) → List (κ × β)
  | [] => [(key, change none)]
  | (k, x) :: rest =>
    if k = key then (k, change (some x)) :: rest
    else (k, x) :: alterEntry key change rest

/-- Numbers of verdicts, by rule and outcome. -/
abbrev Summary := List (String × List (Outcome × Nat))

/-- Counts one more verdict. -/
def Summary.add (s : Summary) (v : Verdict) : Summary :=
  alterEntry v.rule
    (fun row => alterEntry v.outcome (fun n => n.getD 0 + 1) (row.getD [])) s

namespace Report

/-- The first verdict of a rule on a target. -/
def outcomeFor? (r : Report) (rule target : String) : Option Outcome :=
  (r.verdicts.find? fun v => v.rule == rule && v.target == target).map
    Verdict.outcome

def count (r : Report) (outcome : Outcome) : Nat :=
  r.verdicts.countP (·.outcome == outcome)

def defectsFor (r : Report) (target : String) : List Defect :=
  r.defects.filter (·.target == target)

def isClean (r : Report) : Bool := r.count .failure == 0

/-- The outcomes of each rule that gave verdicts, with their numbers; what did
not occur has no entry. -/
def summary (r : Report) : Summary := r.verdicts.foldl Summary.add []

end Report

end CilAudit
