/-!
# Limits of a trace

How far a trace may go, and how cautious it is.
-/

namespace CilAudit

structure Limits where
  /-- How many instructions it may look at. -/
  maxSteps : Nat := 4096
  /-- How often it may go on from another instruction. -/
  maxHops : Nat := 64
  /-- Whether it gives up where control may come from elsewhere. -/
  haltAtJoins : Bool := true
  /-- Whether resource tables are kept between look-ups. -/
  cacheTables : Bool := true
deriving DecidableEq, Repr

namespace Limits

def strict : Limits := { maxSteps := 256, maxHops := 8 }

/-- Wide limits that also look across joins. -/
def permissive : Limits :=
  { maxSteps := 1048576, maxHops := 1024, haltAtJoins := false }

end Limits

end CilAudit
