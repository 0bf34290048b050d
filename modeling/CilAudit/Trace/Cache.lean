import CilAudit.Assembly
import CilAudit.Resource.Entry
import CilAudit.Trace.Limits
import Std.Data.HashMap

/-!
# Resource texts and their cache

A resource class reads its texts from the blob that is named after it. A
look-up parses that blob and asks for one key; a blob that is missing or
damaged has no texts. The cache keeps what came of each blob, failures
included, under the names of assembly and blob. It counts how often it had to
parse.
-/

namespace CilAudit

open Resource (StringTable)

/-- The name of the blob of a resource class. -/
def tableName (declaringType : String) : String := declaringType ++ ".resources"

namespace Assembly

/-- The texts of an embedded blob, if there is such a blob and it can be read.
This is what a cache must agree with. -/
def table? (a : Assembly) (resource : String) : Option StringTable := do
  let blob ← a.resource? resource
  (Resource.stringTable blob).toOption

/-- The text of a key of a resource class. -/
def text? (a : Assembly) (declaringType key : String) : Option String := do
  let table ← a.table? (tableName declaringType)
  table[key]?

end Assembly

/-- Parsed blobs by assembly and blob name. A blob that is absent or cannot be
read is filed as well, so that it is not tried again. -/
structure Cache where
  tables : Std.HashMap (String × String) (Option StringTable) := ∅
  /-- How often a blob was parsed. -/
  loads : Nat := 0

namespace Cache

def size (c : Cache) : Nat := c.tables.size

def contains (c : Cache) (assembly resource : String) : Bool :=
  c.tables.contains (assembly, resource)

/-- The texts of an embedded blob, parsed at most once: what is filed is not
compared with the assembly again. Assemblies are told apart by their names
only. -/
def table? (c : Cache) (a : Assembly) (resource : String) :
    Option StringTable × Cache :=
  match c.tables[(a.name, resource)]? with
  | some table => (table, c)
  | none =>
    let table := a.table? resource
    (table,
      { tables := c.tables.insert (a.name, resource) table,
        loads := c.loads + 1 })

def text? (c : Cache) (a : Assembly) (declaringType key : String) :
    Option String × Cache :=
  let (table, c) := c.table? a (tableName declaringType)
  (table.bind (·[key]?), c)

/-- The text of a key of a resource class, through the cache if the limits say
so. -/
def lookup? (c : Cache) (limits : Limits) (a : Assembly)
    (declaringType key : String) :
    Option String × Cache :=
  if limits.cacheTables then c.text? a declaringType key
  else (a.text? declaringType key, c)

end Cache

end CilAudit
