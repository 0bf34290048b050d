import CilAudit.Assembly

/-!
# Shapes of calls

Tracing and the rules care about three sorts of calls: string concatenations,
writes of the diagnostic method that a rule looks for, and static getters of a
generated resource class, whose key is the first text that the getter pushes.
Everything else is of no known shape. A call has one shape, and the first that
fits in this order is it.
-/

namespace CilAudit

open Code (Target)

/-- A method that writes diagnostics, in any overload. -/
structure DiagnosticMethod where
  declaringType : String
  name : String
deriving DecidableEq, Repr

namespace DiagnosticMethod

def debugWriteLineIf : DiagnosticMethod :=
  ⟨"System.Diagnostics.Debug", "WriteLineIf"⟩

def accepts (d : DiagnosticMethod) (t : Target) : Bool :=
  t.isStatic && t.isMember d.declaringType d.name

end DiagnosticMethod

inductive Shape where
  | concatenation
  /-- A getter of the resource class `declaringType` for `key`. -/
  | resourceAccessor (declaringType key : String)
  | diagnosticWrite
  | unrecognized
deriving DecidableEq, Repr

def Shape.name : Shape → String
  | .concatenation => "Concatenation"
  | .resourceAccessor .. => "ResourceAccessor"
  | .diagnosticWrite => "DiagnosticWrite"
  | .unrecognized => "Unrecognized"

/-- Whether a call joins at least two strings or objects into a string. -/
def isConcatenation (t : Target) : Bool :=
  t.isMember TypeName.string "Concat" && t.isStatic &&
    t.returnType == TypeName.string &&
    2 ≤ t.params.length && t.params.all fun p => p == TypeName.string ||
      p == TypeName.object

namespace Assembly

/-- Whether a method, or the type that declares it, was written by a tool. -/
def isGeneratedMember (a : Assembly) (m : Method) : Bool :=
  m.isGenerated || (a.type? m.declaringType).any TypeDef.isGenerated

/-- The key that a generated getter asks for. The first text that its body
pushes is taken for it; nothing else of the body is looked at. -/
def accessorKey? (a : Assembly) (m : Method) : Option String :=
  if m.isGetter && a.isGeneratedMember m then m.body.bind (·.firstLiteral?)
  else none

/-- The resource class and key of a call of a generated getter. -/
def accessor? (a : Assembly) (t : Target) : Option (String × String) :=
  if t.isStatic && t.params.isEmpty then do
    let m ← a.method? t
    let key ← a.accessorKey? m
    return (m.declaringType, key)
  else none

def shapeOf (a : Assembly) (diagnostic : DiagnosticMethod)
    (t : Target) : Shape :=
  if isConcatenation t then .concatenation
  else if diagnostic.accepts t then .diagnosticWrite
  else
    match a.accessor? t with
    | some (declaringType, key) => .resourceAccessor declaringType key
    | none => .unrecognized

end Assembly

end CilAudit
