import CilAudit.Assembly.Method

/-!
# Types

A declared type: its name, flags, base, directly listed interfaces, methods and
attributes. Bases and interfaces are known by full name; whether they can be
followed depends on the assembly.
-/

namespace CilAudit

open Code (Signature)

/-- What sort of type a declaration makes. -/
inductive Flavor where
  | classType
  | interface
  | valueType
  | enum
  | delegate
deriving DecidableEq, Repr

/-- The flags of a type, as their bits. -/
structure TypeFlags where
  bits : UInt32
deriving DecidableEq, Repr

namespace TypeFlags

/-- The bits that mean something: two of visibility, interface, abstract,
sealed, the two special names, import, serializable, and early field
initialisation. -/
def known : UInt32 := 0x103DA3

/-- The flags in a raw word. -/
def ofRaw (raw : UInt32) : TypeFlags := ⟨raw &&& known⟩

def publicClass : TypeFlags := ⟨0x100001⟩

def publicInterface : TypeFlags := ⟨0xA1⟩

def isInterface (f : TypeFlags) : Bool := f.bits &&& 0x20 == 0x20

/-- The number that says who sees the type. -/
def visibility (f : TypeFlags) : UInt32 := f.bits &&& 0x7

end TypeFlags

namespace Flavor

/-- The flavor that flags and base imply. Only the direct base is looked at,
and an interface is one whatever base it names. -/
def infer (flags : TypeFlags) (base : Option String) : Flavor :=
  if flags.isInterface then .interface
  else if base = some TypeName.enum then .enum
  else if base = some TypeName.valueType then .valueType
  else if base = some TypeName.multicastDelegate ||
      base = some TypeName.delegate then .delegate
  else .classType

def name : Flavor → String
  | .classType => "Class"
  | .interface => "Interface"
  | .valueType => "ValueType"
  | .enum => "Enum"
  | .delegate => "Delegate"

end Flavor

structure TypeDef where
  /-- The namespace, empty for the global one. -/
  space : String
  name : String
  flags : TypeFlags := TypeFlags.publicClass
  base : Option String := some TypeName.object
  interfaces : List String := []
  methods : List Method := []
  attributes : List Attribute := []
  /-- A flavor that is given rather than implied. -/
  givenFlavor : Option Flavor := none
deriving DecidableEq, Repr

namespace TypeDef

def interface (space name : String) : TypeDef :=
  { space, name, flags := TypeFlags.publicInterface, base := none }

/-- The name by which the type is known: its own behind that of its namespace,
or alone in the global one. -/
def fullName (t : TypeDef) : String :=
  if t.space = "" then t.name else t.space ++ "." ++ t.name

/-- What sort of type it is: what its declaration says, or else what its flags
and its base imply. -/
def flavor (t : TypeDef) : Flavor :=
  t.givenFlavor.getD (Flavor.infer t.flags t.base)

def isInterface (t : TypeDef) : Bool := t.flavor == .interface

/-- Whether the type was written by a tool. -/
def isGenerated (t : TypeDef) : Bool :=
  t.attributes.any Attribute.marksGenerated

/-- Whether the type itself lists an interface, by name. What its bases or its
interfaces list is not looked at. -/
def lists (t : TypeDef) (interface : String) : Bool :=
  t.interfaces.contains interface

/-- The first method with a signature. -/
def method? (t : TypeDef) (s : Signature) : Option Method :=
  t.methods.find? (·.hasSignature s)

def hasMethod (t : TypeDef) (s : Signature) : Bool := (t.method? s).isSome

def hasFinalizer (t : TypeDef) : Bool := t.methods.any Method.isFinalizer

end TypeDef

end CilAudit
