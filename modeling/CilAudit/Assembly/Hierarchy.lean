import CilAudit.Assembly

/-!
# Bases and interfaces

Bases and interfaces are names, and nothing keeps them from going round in
circles. Both walks below therefore keep the names that they have not seen yet,
and only ever step to one of those: that ends them, since there are only as
many names as types.

A type counts as disposable if it, one of its bases, or an interface of these
lists the interface of disposable things. In a chain of bases the first class
that becomes so is the root; a class right below a type of the window library
is one too, because that library is not part of the assembly and its classes
are disposable.
-/

namespace CilAudit.Assembly

def without (names : List String) (name : String) : List String :=
  names.filter (· != name)

theorem mem_without {names : List String} {name other : String} :
    other ∈ without names name ↔ other ∈ names ∧ other ≠ name := by
  simp [without]

theorem length_without_lt {names : List String} {name : String}
    (h : name ∈ names) :
    (without names name).length < names.length := by
  rw [without, List.length_filter_lt_length_iff_exists]
  exact ⟨name, h, by simp⟩

/-- The interfaces a type lists that the assembly declares. Interfaces from
elsewhere are known by their names only: one of them can be what is looked for,
but nothing can be followed from it. -/
def declaredInterfaces (a : Assembly) (t : TypeDef) : List TypeDef :=
  t.interfaces.filterMap a.type?

/-- The bases from the one named `base` on, as long as their names are among
`unseen`. A name that was met is taken out of `unseen`, so the walk ends even
where declarations derive from each other in a circle. -/
def basesFrom (a : Assembly) (unseen : List String) (base : Option String) :
    List TypeDef :=
  match base.bind a.type? with
  | none => []
  | some t =>
    if _h : t.fullName ∈ unseen then
      t :: a.basesFrom (without unseen t.fullName) t.base
    else []
termination_by unseen.length
decreasing_by exact length_without_lt _h

/-- The bases of a type that the assembly declares, nearest first. The walk
ends where a base is not declared, and before a name that was already met. -/
def baseTypes (a : Assembly) (t : TypeDef) : List TypeDef :=
  a.basesFrom (without a.typeNames t.fullName) t.base

/-- Whether one of the pending types, or an interface reached from them, lists
an interface. Types are taken from the front; only those whose names are still
`unseen` are looked at. -/
def search (a : Assembly) (interface : String) (unseen : List String) :
    List TypeDef → Bool
  | [] => false
  | t :: pending =>
    if _h : t.fullName ∈ unseen then
      if t.lists interface then true
      else
        a.search interface (without unseen t.fullName)
          ((a.declaredInterfaces t).reverse ++ pending)
    else a.search interface unseen pending
termination_by pending => (unseen.length, pending.length)
decreasing_by
  · exact Prod.Lex.left _ _ (length_without_lt _h)
  · exact Prod.Lex.right _ (by simp)

/-- Whether a type, one of its bases, or an interface of these lists an
interface. The farthest base is looked at first. -/
def implements (a : Assembly) (t : TypeDef) (interface : String) : Bool :=
  a.search interface (t.fullName :: a.typeNames) (t :: a.baseTypes t).reverse

/-- The namespace part of a full name: what stands before its last dot. -/
def namespaceOf? (fullName : String) : Option String :=
  match fullName.toList.reverse.dropWhile (· != '.') with
  | _ :: rest => some (String.ofList rest.reverse)
  | [] => none

def windowNamespace : String := "System.Windows.Forms"

/-- Whether a type derives directly from a type of the window library. -/
def isWindow (t : TypeDef) : Bool :=
  (t.base.bind namespaceOf?) == some windowNamespace

/-- Whether a type is the first disposable one of its chain of bases. A type
that derives directly from the window library counts as one whatever its chain
says, since those bases are declared elsewhere and cannot be asked. An
interface is never one. -/
def isDisposableRoot (a : Assembly) (t : TypeDef) : Bool :=
  !t.isInterface &&
    (isWindow t ||
      (a.implements t TypeName.disposable &&
        !(a.baseTypes t).any fun base => a.implements base TypeName.disposable))

end CilAudit.Assembly
