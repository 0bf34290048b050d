import CilAudit.TypeName

/-!
# Call targets and signatures

A call target says what a call instruction invokes, as seen from the call: the
declaring type, the name, the declared parameters, the return type, and whether
a receiver is passed below them. A signature is the part of it that rules ask
declared methods for.
-/

namespace CilAudit.Code

structure Target where
  declaringType : String
  name : String
  params : List String
  returnType : String
  /-- Whether a receiver is passed. -/
  hasThis : Bool
deriving DecidableEq, Repr, Hashable

namespace Target

/-- How many stack slots a call takes: the receiver counts. -/
def argCount (t : Target) : Nat := t.params.length + t.hasThis.toNat

/-- Whether a call leaves a value. -/
def returnsValue (t : Target) : Bool := t.returnType != TypeName.void

def isStatic (t : Target) : Bool := !t.hasThis

/-- Whether the target is a member of that name of that type, in any
overload. -/
def isMember (t : Target) (declaringType name : String) : Bool :=
  t.declaringType == declaringType && t.name == name

def render (t : Target) : String :=
  t.returnType ++ " " ++ t.declaringType ++ "::" ++ t.name ++ "(" ++
    ",".intercalate t.params ++ ")"

end Target

/-- A name with its types, whatever type declares it. -/
structure Signature where
  name : String
  returnType : String
  params : List String
deriving DecidableEq, Repr

namespace Signature

/-- Whether a declaration has this signature. -/
def matchesParts (s : Signature) (name returnType : String)
    (params : List String) : Bool :=
  s.name == name && s.returnType == returnType && s.params == params

def matchesTarget (s : Signature) (t : Target) : Bool :=
  s.matchesParts t.name t.returnType t.params

/-- The method that releases resources, told whether it runs on behalf of a
caller. -/
def disposeBool : Signature := ⟨"Dispose", TypeName.void, [TypeName.boolean]⟩

/-- The finalizer. -/
def finalize : Signature := ⟨"Finalize", TypeName.void, []⟩

end Signature

end CilAudit.Code
