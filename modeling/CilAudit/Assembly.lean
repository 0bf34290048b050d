import CilAudit.Assembly.TypeDef
import Std.Data.TreeMap

/-!
# Assemblies

An assembly is its declared types in order, and the blobs embedded in it by
name. Names are looked up in the latest declaration: a type declared again
hides the earlier one, which is still listed.
-/

namespace CilAudit

open Code (Target)

structure Assembly where
  name : String
  types : List TypeDef := []
  /-- The embedded blobs. -/
  resources : Std.TreeMap String (List UInt8) := ∅

namespace Assembly

def addType (a : Assembly) (t : TypeDef) : Assembly :=
  { a with types := a.types ++ [t] }

/-- Embeds a blob, in place of one of the same name. Blobs are found by their
full names, so a second one of a name is not an addition but a replacement. -/
def addResource (a : Assembly) (name : String) (blob : List UInt8) : Assembly :=
  { a with resources := a.resources.insert name blob }

def typeNames (a : Assembly) : List String := a.types.map TypeDef.fullName

/-- The type that a full name stands for. Where a name was declared twice the
later declaration hides the earlier one, here and in everything that follows
names: bases, interfaces and call targets. -/
def type? (a : Assembly) (fullName : String) : Option TypeDef :=
  a.types.reverse.find? (·.fullName == fullName)

def methods (a : Assembly) : List Method := a.types.flatMap TypeDef.methods

/-- The declared method that a call of a target invokes. Only the type that the
target names is asked, not its bases, and the name, the parameter types, the
return type and the receiver must all agree. -/
def method? (a : Assembly) (t : Target) : Option Method := do
  let owner ← a.type? t.declaringType
  owner.methods.find? (·.isTargetOf t)

def resource? (a : Assembly) (name : String) : Option (List UInt8) :=
  a.resources[name]?

theorem resource?_addResource (a : Assembly) (name name' : String)
    (blob : List UInt8) :
    (a.addResource name blob).resource? name' =
      if name = name' then some blob else a.resource? name' := by
  show (a.resources.insert name blob)[name']? = _
  rw [Std.TreeMap.getElem?_insert]
  simp [resource?, Std.LawfulEqCmp.compare_eq_iff_eq]

theorem fullName_of_type? {a : Assembly} {name : String} {t : TypeDef}
    (h : a.type? name = some t) :
    t.fullName = name := by
  simpa using List.find?_some h

theorem mem_of_type? {a : Assembly} {name : String} {t : TypeDef}
    (h : a.type? name = some t) :
    t ∈ a.types := by
  simpa using List.mem_of_find?_eq_some h

end Assembly

end CilAudit
