import CilAudit.Fault
import CilAudit.Bytes.LittleEndian

/-!
# A cursor over bytes

A reader walks over bytes and either yields a value or a fault; in both cases
it says where the cursor stands afterwards, because some refused reads consume
what they looked at and some do not. `Reader` is that function type with its
monad: a fault stops the reading and keeps the position reached so far.

The view of a cursor is `rest`, the bytes still to be read. Fixed reads take
them from the front and refuse, without moving, when there are too few.
-/

namespace CilAudit

/-- A position in a byte string. Nothing in the structure keeps the position
inside the data; that it stays there is a theorem about every operation. -/
structure Cursor where
  data : Array UInt8
  pos : Nat
deriving Repr

namespace Cursor

def ofBytes (bytes : List UInt8) : Cursor := ⟨bytes.toArray, 0⟩

def size (c : Cursor) : Nat := c.data.size

def remaining (c : Cursor) : Nat := c.data.size - c.pos

def hasMore (c : Cursor) : Bool := c.pos < c.data.size

/-- The bytes still to be read. -/
def rest (c : Cursor) : List UInt8 := c.data.toList.drop c.pos

def moveTo (c : Cursor) (pos : Nat) : Cursor := { c with pos }

/-- The next `n` bytes, if there are as many. -/
def window? (c : Cursor) (n : Nat) : Option (List UInt8) :=
  if c.pos + n ≤ c.data.size then
    some (c.data.extract c.pos (c.pos + n)).toList
  else none

theorem length_rest (c : Cursor) : c.rest.length = c.remaining := by
  simp [rest, remaining]

/-- A window is the front of what is left. Proofs about readers speak of lists,
and this is where the slice of an array becomes one. -/
theorem window?_eq (c : Cursor) (n : Nat) (h : c.pos ≤ c.data.size) :
    c.window? n = if n ≤ c.rest.length then some (c.rest.take n) else none := by
  have hn : c.pos + n ≤ c.data.size ↔ n ≤ c.rest.length := by
    simp only [rest, List.length_drop, Array.length_toList]; omega
  unfold window?
  by_cases hle : c.pos + n ≤ c.data.size
  · rw [if_pos hle, if_pos (hn.1 hle)]
    simp [rest, List.extract_eq_take_drop]
  · rw [if_neg hle, if_neg (mt hn.2 hle)]

end Cursor

/-- A read: a value or a fault, and the cursor afterwards either way. A refusal
does not undo what was read before it, so the cursor that comes with a fault
may have moved. -/
def Reader (α : Type) : Type := Cursor → Except Fault α × Cursor

namespace Reader

instance : Monad Reader where
  pure a c := (.ok a, c)
  bind m f c :=
    match m c with
    | (.ok a, c) => f a c
    | (.error fault, c) => (.error fault, c)

/-- Refuses, leaving the cursor where it is. -/
def fail {α : Type} (fault : Fault) : Reader α := fun c => (.error fault, c)

def flaw {α : Type} (flaw : Flaw) : Reader α := fail (.malformed flaw)

/-- Refuses a value of a type that cannot be decoded. -/
def typeFlaw {α : Type} (flaw : TypeFlaw) : Reader α := fail (.mistyped flaw)

/-- What a reader makes of a byte string read from its start. -/
def on {α : Type} (m : Reader α) (bytes : List UInt8) : Except Fault α :=
  (m (Cursor.ofBytes bytes)).1

def position : Reader Nat := fun c => (.ok c.pos, c)

def total : Reader Nat := fun c => (.ok c.size, c)

def remaining : Reader Nat := fun c => (.ok c.remaining, c)

def require (holds : Bool) (reason : Flaw) : Reader Unit :=
  if holds then pure () else flaw reason

/-- Goes to an absolute position, which must be that of a byte: the end of the
data is no place to seek to, although a read may end there. -/
def seek (target : Nat) : Reader Unit := fun c =>
  if target < c.data.size then (.ok (), c.moveTo target)
  else (.error .outOfBounds, c)

/-- Positions and steps are 64-bit words: no position is as large as this, and
a sum that is has overflowed. -/
def addressSpan : Nat := 0x10000000000000000

/-- Passes bytes that must be there. The position behind them is a sum of two
machine words and is computed before anything is compared with it, so a step
that leaves the address space is not refused for being too long. -/
def advance (step : Nat) : Reader Unit := fun c =>
  let target := c.pos + step
  if addressSpan ≤ target then (.error .overflow, c)
  else if target ≤ c.data.size then (.ok (), c.moveTo target)
  else (.error .outOfBounds, c)

/-- The next byte, which stays unread. -/
def peek : Reader UInt8 := fun c =>
  match c.data[c.pos]? with
  | some b => (.ok b, c)
  | none => (.error .outOfBounds, c)

def byte : Reader UInt8 := fun c =>
  match c.data[c.pos]? with
  | some b => (.ok b, c.moveTo (c.pos + 1))
  | none => (.error .outOfBounds, c)

/-- The next `n` bytes; too few are all left unread. -/
def bytes (n : Nat) : Reader (List UInt8) := fun c =>
  match c.window? n with
  | some bs => (.ok bs, c.moveTo (c.pos + n))
  | none => (.error .outOfBounds, c)

/-- A little-endian number of `width` bytes. -/
def word (width : Nat) : Reader Nat := return LittleEndian.value (← bytes width)

def uint8 : Reader UInt8 := return UInt8.ofNat (← word 1)

def uint16 : Reader UInt16 := return UInt16.ofNat (← word 2)

def uint32 : Reader UInt32 := return UInt32.ofNat (← word 4)

def uint64 : Reader UInt64 := return UInt64.ofNat (← word 8)

def int8 : Reader Int8 := return (← uint8).toInt8

def int16 : Reader Int16 := return (← uint16).toInt16

def int32 : Reader Int32 := return (← uint32).toInt32

def int64 : Reader Int64 := return (← uint64).toInt64

/-- Text up to a zero byte or the end of the data. The cursor ends behind the
zero byte, or at the end, whether or not the bytes are text. -/
def textToZero : Reader String := fun c =>
  let spelled := c.rest.takeWhile (· != 0)
  let stop := c.pos + spelled.length
  let next := c.moveTo (if stop < c.data.size then stop + 1 else stop)
  match Utf8.decode spelled with
  | .ok text => (.ok text, next)
  | .error damage =>
      (.error (.malformed (.textBetween c.pos stop damage)), next)

def times {α : Type} (m : Reader α) : Nat → Reader (List α)
  | 0 => pure []
  | n + 1 => do
      let a ← m
      let rest ← times m n
      return a :: rest

/-- Reads once for each element of a list. -/
def each {α β : Type} (m : α → Reader β) : List α → Reader (List β)
  | [] => pure []
  | a :: as => do
      let b ← m a
      let rest ← each m as
      return b :: rest

end Reader

end CilAudit
