import CilAudit.Assembly.Hierarchy
import CilAudit.Rule.Convention
import CilAudit.Rule.Defect
import CilAudit.Trace.Resolution

/-!
# The rules

Objects that are never disposed can be found with a debug build if two
conventions hold. A disposable type declares a finalizer, which disposes on
behalf of nobody; and disposing writes a debug line when it runs that way. Two
rules check these of every type and method. Two more ask only the root of each
disposable hierarchy, since derived types inherit the finalizer and call the
root's method.

Every failure comes with exactly one defect, and nothing else does.
-/

namespace CilAudit

open Code (Body Instruction Signature)

inductive TypeRule where
  /-- Disposable types declare a finalizer. -/
  | finalizer
  /-- Disposable roots that can dispose declare a finalizer. -/
  | rootFinalizer
deriving DecidableEq, Repr

inductive MethodRule where
  /-- Disposing writes a debug line. -/
  | debugLine
  /-- Disposing writes a debug line in disposable roots. -/
  | rootDebugLine
deriving DecidableEq, Repr

namespace TypeRule

def id : TypeRule → String
  | .finalizer => "EnsureFinalizer"
  | .rootFinalizer => "EnsureDebugDisposeFinalizer"

/-- What is wrong where a rule fails. -/
def problem (_ : TypeRule) : String :=
  "This type implements IDisposable but doesn't have a finalizer."

def solution (_ : TypeRule) : String :=
  "When debugging dispose issues add a finalizer, calling Dispose(false), " ++
    "to trigger debug output."

end TypeRule

namespace MethodRule

def id : MethodRule → String
  | .debugLine => "EnsureMissDispStatement"
  | .rootDebugLine => "EnsureDebugDisposeMissDispStatement"

/-- What is wrong where a rule fails. -/
def problem (_ : MethodRule) : String :=
  "The Dispose(bool) method doesn't contain a debug output that is " ++
    "triggered when called from the finalizer."

def solution (_ : MethodRule) : String :=
  "Add a 'Missing Dispose() call' output debug statement."

end MethodRule

structure Inspection where
  assembly : Assembly
  limits : Limits := {}
  convention : Convention := {}

/-- An outcome with the defect of a failure. -/
structure Finding where
  outcome : Outcome
  defect : Option Defect
deriving DecidableEq, Repr

namespace Finding

def doesNotApply : Finding := ⟨.doesNotApply, none⟩

def success : Finding := ⟨.success, none⟩

def failure (defect : Defect) : Finding := ⟨.failure, some defect⟩

end Finding

def Defect.ofType (rule : String) (t : TypeDef) (severity : Severity)
    (confidence : Confidence) :
    Defect :=
  ⟨rule, t.fullName, none, severity, confidence⟩

/-- A method breaks a rule, perhaps at an instruction. -/
def Defect.ofMethod (rule : String) (m : Method) (instruction : Option Nat)
    (severity : Severity) (confidence : Confidence) : Defect :=
  ⟨rule, m.reportName, instruction, severity, confidence⟩

/-- Whether the rules look at a type: enums, delegates, values and generated
types are left alone. -/
def TypeDef.isChecked (t : TypeDef) : Bool :=
  match t.flavor with
  | .enum | .delegate | .valueType => false
  | .classType | .interface => !t.isGenerated

/-- Whether the rules look at a method: an instance method with the dispose
signature and code. -/
def Method.isChecked (m : Method) : Bool :=
  m.hasSignature Signature.disposeBool && m.hasBody && m.hasThis

def TypeRule.checkFinalizer (rule : TypeRule) (t : TypeDef) : Finding :=
  if t.hasFinalizer then .success
  else .failure (.ofType rule.id t .medium .high)

namespace Inspection

/-- Whether a rule looks at a type. The one rule asks for a type that
implements the interface; the other for a disposable root, and besides for a
method of it that disposes. -/
def covers (i : Inspection) (rule : TypeRule) (t : TypeDef) : Bool :=
  t.isChecked &&
    match rule with
    | .finalizer => i.assembly.implements t TypeName.disposable
    | .rootFinalizer =>
        i.assembly.isDisposableRoot t && t.hasMethod Signature.disposeBool

def checkType (i : Inspection) (rule : TypeRule) (t : TypeDef) : Finding :=
  if i.covers rule t then rule.checkFinalizer t else .doesNotApply

/-- Whether a method is compiled only outside debug builds: it is conditional,
and on no debug symbol. Such a method has nothing to write, and passes. -/
def isReleaseOnly (i : Inspection) (m : Method) : Bool :=
  let conditionals := m.attributesOf TypeName.conditionalAttribute
  !conditionals.isEmpty &&
    !conditionals.any fun a => a.firstString?.any i.convention.isDebugSymbol

/-- The position of the text in a call that writes diagnostics. -/
def diagnosticText? (i : Inspection) (instruction : Instruction) : Option Nat :=
  do
  let target ← instruction.callTarget?
  if i.assembly.shapeOf i.convention.diagnostic target = .diagnosticWrite then
    target.params.idxOf? TypeName.string
  else none

/-- The first call of a body that writes diagnostics with a text, and the
position of the text. -/
def diagnosticCall? (i : Inspection) (body : Body) : Option (Nat × Nat) :=
  body.code.toList.zipIdx.findSome? fun (instruction, index) =>
    (i.diagnosticText? instruction).map fun position => (index, position)

/-- Checks that a method writes a debug line. Only the first diagnostic write
counts: a right text in a later one does not make up for a wrong text in it. -/
def checkDebugLine (i : Inspection) (rule : MethodRule) (m : Method)
    (cache : Cache) :
    Finding × Cache :=
  match m.body with
  | none => (.doesNotApply, cache)
  | some body =>
    if i.isReleaseOnly m then (.success, cache)
    else if !body.hasCalls then
      (.failure (.ofMethod rule.id m none .medium .high), cache)
    else
      match i.diagnosticCall? body with
      | none => (.failure (.ofMethod rule.id m none .medium .high), cache)
      | some (index, position) =>
        let (resolution, cache) :=
          resolveArgument i.limits i.assembly body index position cache
        if resolution.text?.any i.convention.accepts then (.success, cache)
        else (.failure (.ofMethod rule.id m (some index) .medium .normal),
          cache)

/-- Whether a rule looks at a method. The rule about roots asks for the type
that declares it, by the name that the method gives. -/
def coversMethod (i : Inspection) (rule : MethodRule) (m : Method) : Bool :=
  m.isChecked &&
    match rule with
    | .debugLine => true
    | .rootDebugLine =>
        (i.assembly.type? m.declaringType).any i.assembly.isDisposableRoot

def checkMethod (i : Inspection) (rule : MethodRule) (m : Method)
    (cache : Cache) :
    Finding × Cache :=
  if i.coversMethod rule m then i.checkDebugLine rule m cache
  else (.doesNotApply, cache)

end Inspection

end CilAudit
