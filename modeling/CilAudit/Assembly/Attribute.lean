import CilAudit.TypeName

/-!
# Attributes

An attribute on a type or a method is the full name of its own type with the
constants it was given.
-/

namespace CilAudit

/-- A constant given to an attribute. -/
inductive Attribute.Argument where
  /-- A string, or the null reference. -/
  | string (text : Option String)
  | bool (flag : Bool)
  | integer (n : Int64)
  /-- A type, by its full name. -/
  | type (name : String)
deriving DecidableEq, Repr

structure Attribute where
  typeName : String
  args : List Attribute.Argument := []
deriving DecidableEq, Repr

namespace Attribute

/-- Marks code that is compiled only where a symbol is defined. -/
def conditional (symbol : String) : Attribute :=
  ⟨TypeName.conditionalAttribute, [.string (some symbol)]⟩

/-- Marks code written by a tool. -/
def generatedCode (tool version : String) : Attribute :=
  ⟨TypeName.generatedCodeAttribute,
    [.string (some tool), .string (some version)]⟩

/-- Marks code written by the compiler. -/
def compilerGenerated : Attribute := ⟨TypeName.compilerGeneratedAttribute, []⟩

/-- The first constant, if it is a string. -/
def firstString? (a : Attribute) : Option String :=
  match a.args with
  | .string text :: _ => text
  | _ => none

def marksGenerated (a : Attribute) : Bool :=
  a.typeName == TypeName.generatedCodeAttribute ||
    a.typeName == TypeName.compilerGeneratedAttribute

end Attribute

end CilAudit
