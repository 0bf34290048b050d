import CilAudit.Assembly.Attribute
import CilAudit.Code.Body

/-!
# Methods

A declared method: its signature, its flags, its attributes, and its body
unless it has none. The raw flag word of a method holds its accessibility as a
number in the low three bits and one bit for each modifier above them; bits
that mean nothing are dropped when a word is taken apart.
-/

namespace CilAudit

open Code (Body Signature Target)

inductive Modifier where
  | static
  | final
  | virtual
  | hideBySig
  | newSlot
  | strict
  | abstract
  | specialName
  | rtSpecialName
  | pinvokeImpl
deriving DecidableEq, Repr

namespace Modifier

/-- All modifiers, from the lowest bit up. -/
def all : List Modifier :=
  [.static, .final, .virtual, .hideBySig, .newSlot, .strict, .abstract,
    .specialName, .rtSpecialName, .pinvokeImpl]

def bit : Modifier → UInt32
  | .static => 0x0010
  | .final => 0x0020
  | .virtual => 0x0040
  | .hideBySig => 0x0080
  | .newSlot => 0x0100
  | .strict => 0x0200
  | .abstract => 0x0400
  | .specialName => 0x0800
  | .rtSpecialName => 0x1000
  | .pinvokeImpl => 0x2000

def name : Modifier → String
  | .static => "STATIC"
  | .final => "FINAL"
  | .virtual => "VIRTUAL"
  | .hideBySig => "HIDE_BY_SIG"
  | .newSlot => "NEW_SLOT"
  | .strict => "STRICT"
  | .abstract => "ABSTRACT"
  | .specialName => "SPECIAL_NAME"
  | .rtSpecialName => "RTSPECIAL_NAME"
  | .pinvokeImpl => "PINVOKE_IMPL"

end Modifier

/-- The modifiers of a method, as their bits. -/
structure Modifiers where
  bits : UInt32
deriving DecidableEq, Repr

namespace Modifiers

def ofList (ms : List Modifier) : Modifiers :=
  ⟨ms.foldl (fun bits m => bits ||| m.bit) 0⟩

/-- The modifiers in a raw flag word. Bits that stand for no modifier are
dropped, so that equal modifiers have equal bits. -/
def ofRaw (raw : UInt32) : Modifiers := ⟨raw &&& (ofList Modifier.all).bits⟩

def has (ms : Modifiers) (m : Modifier) : Bool := ms.bits &&& m.bit == m.bit

def add (ms : Modifiers) (more : List Modifier) : Modifiers :=
  ⟨ms.bits ||| (ofList more).bits⟩

/-- The modifiers that are set, from the lowest bit up. -/
def toList (ms : Modifiers) : List Modifier := Modifier.all.filter ms.has

end Modifiers

/-- The accessibility of a method, as the number in its flag word. -/
structure Access where
  bits : UInt32
deriving DecidableEq, Repr

namespace Access

/-- The accessibility in a raw flag word. -/
def ofRaw (raw : UInt32) : Access := ⟨raw &&& 0x7⟩

def everyone : Access := ⟨0x6⟩

end Access

structure Method where
  name : String
  /-- The full name of the type that declares it. -/
  declaringType : String
  returnType : String := TypeName.void
  params : List String := []
  access : Access := Access.everyone
  modifiers : Modifiers := Modifiers.ofList [.hideBySig]
  body : Option Body := none
  attributes : List Attribute := []
deriving DecidableEq, Repr

namespace Method

def asStatic (m : Method) : Method :=
  { m with modifiers := m.modifiers.add [.static] }

/-- The method as a static property getter. -/
def asGetter (m : Method) : Method :=
  { m with modifiers := m.modifiers.add [.static, .specialName] }

def isStatic (m : Method) : Bool := m.modifiers.has .static

def hasThis (m : Method) : Bool := !m.isStatic

def isAbstract (m : Method) : Bool := m.modifiers.has .abstract

/-- Whether there is any code; a body without instructions counts as none. -/
def hasBody (m : Method) : Bool := m.body.any fun body => body.size != 0

/-- Whether the method is a static property getter. -/
def isGetter (m : Method) : Bool :=
  m.isStatic && m.params.isEmpty && "get_".toList.isPrefixOf m.name.toList &&
    m.modifiers.has .specialName

def hasSignature (m : Method) (s : Signature) : Bool :=
  s.matchesParts m.name m.returnType m.params

/-- Whether the method is run when an object is collected: it has a receiver
and the signature of a finalizer, whatever its modifiers say. -/
def isFinalizer (m : Method) : Bool :=
  m.hasThis && m.hasSignature Signature.finalize

/-- Whether the method was written by a tool. -/
def isGenerated (m : Method) : Bool := m.attributes.any Attribute.marksGenerated

/-- The method as a call names it. -/
def toTarget (m : Method) : Target :=
  ⟨m.declaringType, m.name, m.params, m.returnType, m.hasThis⟩

def isTargetOf (m : Method) (t : Target) : Bool := m.toTarget == t

def attributesOf (m : Method) (typeName : String) : List Attribute :=
  m.attributes.filter (·.typeName == typeName)

/-- How a report names the method: the declaring type, the name and the types
of the parameters, so that overloads can be told apart. -/
def reportName (m : Method) : String :=
  m.declaringType ++ "::" ++ m.name ++ "(" ++ ",".intercalate m.params ++ ")"

end Method

end CilAudit
