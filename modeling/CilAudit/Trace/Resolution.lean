import CilAudit.Trace.Cache
import CilAudit.Trace.Producer
import CilAudit.Trace.Shape

/-!
# Where a text comes from

A trace starts at an argument of a call and goes back from producer to
producer: from a local load to the nearest store of that local, from a
concatenation to its first operand. It ends at a pushed text or at the getter
of a resource class, whose text is then looked up, or it says why it could not
go on. Every hop starts before the one that led to it, so a trace ends without
its limits too.

A load is believed to see the nearest store only if nothing between the two
takes the address of the local and, for a cautious trace, no control joins in
between.
-/

namespace CilAudit

open Code (Body Instruction)

inductive Origin where
  /-- It is pushed as it is. -/
  | literal (text : String)
  /-- It is the text of a key of a resource class. -/
  | resource (declaringType key : String)
deriving DecidableEq, Repr

structure Route where
  body : Body
  assembly : Assembly
  /-- The indices that are not looked across. -/
  stops : Std.TreeSet Nat
  maxSteps : Nat
  maxHops : Nat

namespace Route

/-- The route through a body under limits. -/
def ofLimits (limits : Limits) (assembly : Assembly) (body : Body) : Route where
  body := body
  assembly := assembly
  stops := if limits.haltAtJoins then body.joinPoints else ∅
  maxSteps := limits.maxSteps
  maxHops := limits.maxHops

def halts (r : Route) (index : Nat) : Bool := r.stops.contains index

/-- Whether some index behind `store` up to and including `load` halts the
trace. A store counts for a load only if nothing can come in between by another
way. -/
def haltsBetween (r : Route) (store load : Nat) : Bool :=
  (List.range' (store + 1) (load - store)).any r.halts

/-- Where the value comes from that lies `need` below the top before `start`,
when `steps` and `hops` were made already. Steps are counted over the whole
trace and not anew for each hop. -/
def origin (r : Route) (start need steps hops : Nat) : Except Reason Origin :=
  match _hp : producer r.body r.halts r.maxSteps start need steps with
  | .error reason => .error reason
  | .ok (p, steps) =>
    match r.body.get? p with
    | none => .error .exhausted
    | some i =>
      match i.op.category with
      | .pushLiteral =>
        match i.literal? with
        | some text => .ok (.literal text)
        | none => .error .unsupported
      | .loadLocal =>
        match _hs : r.body.storeOf? p with
        | none => .error .noStore
        | some store =>
          if r.haltsBetween store p then .error .joinPoint
          else if i.localIndex?.any fun slot =>
              r.body.addressTaken slot (store + 1) p then
            .error .addressTaken
          else if r.maxHops ≤ hops then .error .budget
          else r.origin store 0 steps (hops + 1)
      | .call =>
        match i.callTarget? with
        | none => .error .unsupported
        | some target =>
          match r.assembly.shapeOf .debugWriteLineIf target with
          | .concatenation =>
            match slotDepth? target.params.length 0 with
            | none => .error .badPosition
            | some first =>
              if r.maxHops ≤ hops then .error .budget
              else r.origin p first steps (hops + 1)
          | .resourceAccessor declaringType key =>
              .ok (.resource declaringType key)
          | .diagnosticWrite | .unrecognized => .error .unsupported
      | .storeLocal | .loadField | .branch | .other => .error .unsupported
termination_by start
decreasing_by
  · have h1 := producer_lt _hp
    have h2 := Body.storeOf?_lt _hs
    omega
  · exact producer_lt _hp

end Route

inductive Resolution where
  | resolved (text : String)
  | unresolved (reason : Reason)
deriving DecidableEq, Repr

namespace Resolution

def text? : Resolution → Option String
  | .resolved text => some text
  | .unresolved _ => none

def reason? : Resolution → Option Reason
  | .resolved _ => none
  | .unresolved reason => some reason

def render : Resolution → String
  | .resolved text => "\"" ++ text ++ "\""
  | .unresolved reason => "unresolved (" ++ reason.name ++ ")"

end Resolution

/-- Where the argument at `position` of the call at `site` comes from. -/
def Route.argumentOrigin (r : Route) (site position : Nat) :
    Except Reason Origin :=
  match r.body.callTarget? site with
  | none => .error .notACall
  | some target =>
    match slotDepth? target.params.length position with
    | none => .error .badPosition
    | some depth => r.origin site depth 0 0

/-- The text passed at `position` of the call at `site`. The trace itself does
not touch the cache; a resource text that it ends at is looked up through it.
-/
def resolveArgument (limits : Limits) (assembly : Assembly) (body : Body)
    (site position : Nat) (cache : Cache) : Resolution × Cache :=
  match (Route.ofLimits limits assembly body).argumentOrigin site position with
  | .error reason => (.unresolved reason, cache)
  | .ok (.literal text) => (.resolved text, cache)
  | .ok (.resource declaringType key) =>
    match cache.lookup? limits assembly declaringType key with
    | (some text, cache) => (.resolved text, cache)
    | (none, cache) => (.unresolved .resourceMissing, cache)

end CilAudit
