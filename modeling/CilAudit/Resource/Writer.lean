import CilAudit.Resource.Name
import CilAudit.Resource.Header

/-!
# Writing a resource blob

Entries are written in the ascending order of their name hashes; entries with
equal hashes keep their given order. The header has version 2, no type table
and no debug marker. Every place and length is a 32-bit word, so content that
outgrows one is refused with the number that did not fit.
-/

namespace CilAudit.Resource

def readerTypeName : String :=
  "System.Resources.ResourceReader, mscorlib, Version=4.0.0.0, " ++
    "Culture=neutral, PublicKeyToken=b77a5c561934e089"

def resourceSetTypeName : String := "System.Resources.RuntimeResourceSet"

/-- The two classes, as the outer header spells them. -/
def classNames : List UInt8 :=
  encodeText readerTypeName ++ encodeText resourceSetTypeName

/-- A number as a 32-bit field. -/
def field32 (n : Nat) : Except Fault UInt32 :=
  if n ≤ maxLength then .ok (UInt32.ofNat n)
  else .error (.malformed (.contentTooLarge n))

def word32 (w : UInt32) : List UInt8 := LittleEndian.bytes 4 w.toNat

/-- Names must not be empty and must differ; the first offence counts, in the
order in which the entries were given and not in that of their hashes. -/
def checkNames (seen : List String) : List String → Except Fault Unit
  | [] => .ok ()
  | name :: rest =>
    if name = "" then .error (.malformed .emptyName)
    else if name ∈ seen then .error (.malformed (.duplicateName name))
    else checkNames (name :: seen) rest

/-- Entries in the order of their hashes, whatever is filed under the names.
Entries with equal hashes keep the order they were given in. -/
def sortByHash {γ : Type} (entries : List (String × γ)) : List (String × γ) :=
  entries.mergeSort fun a b => nameHash a.1 ≤ nameHash b.1

/-- An entry laid out: where its name stands, and its bytes in both
sections. -/
structure Slot where
  position : UInt32
  name : List UInt8
  data : List UInt8
deriving DecidableEq, Repr

/-- Lays entries out behind `nameSize` bytes of names and `dataSize` bytes of
values. -/
def layOut (nameSize dataSize : Nat) :
    List (String × Value) → Except Fault (List Slot)
  | [] => .ok []
  | (name, value) :: rest => do
      let position ← field32 nameSize
      let units := nameBytes name
      let length ← field32 units.length
      let place ← field32 dataSize
      let name := SevenBit.encode length ++ units ++ word32 place
      let data := value.encode
      let slots ← layOut (nameSize + name.length) (dataSize + data.length) rest
      return { position, name, data } :: slots

/-- The bytes that fill up to a multiple of eight. Any would do, since readers
pass them unread; these spell the word that other writers of the format use. -/
def filler (n : Nat) : List UInt8 :=
  (List.range ((8 - n % 8) % 8)).map fun i =>
    UInt8.ofNat ("PAD".toList.getD (i % 3) 'P').toNat

/-- Everything in front of the hashes. -/
def preamble (count : UInt32) : List UInt8 :=
  let words := word32 magic ++ word32 1 ++
    word32 (lengthField classNames.length) ++ classNames ++ word32 2 ++
    word32 count ++ word32 0
  words ++ filler words.length

def write (entries : List (String × Value)) : Except Fault (List UInt8) := do
  checkNames [] (entries.map Prod.fst)
  let sorted := sortByHash entries
  let count ← field32 sorted.length
  let slots ← layOut 0 0 sorted
  let front := preamble count ++ sorted.flatMap
    (fun e => word32 (nameHash e.1)) ++
    slots.flatMap (fun s => word32 s.position)
  let names := slots.flatMap Slot.name
  let dataSection ← field32 (front.length + 4 + names.length)
  let stream := front ++ word32 dataSection ++ names ++ slots.flatMap Slot.data
  let size ← field32 stream.length
  return word32 size ++ stream

end CilAudit.Resource
