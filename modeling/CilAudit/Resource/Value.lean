import CilAudit.Bytes.SevenBit
import CilAudit.Resource.Kind
import CilAudit.Text.Blank

/-!
# Resource values and their bytes

A value is written as the 7-bit code of its kind followed by its payload.
Numbers are little-endian words, floating point numbers are kept as their bits,
text carries its length in bytes as a 7-bit integer and byte strings theirs as
a 32-bit word.

Writing is total: a character outside the first plane has no 16-bit unit and is
written as the replacement character, and a length past 32 bits is written as
the largest one.
-/

namespace CilAudit.Resource

inductive Value where
  | null
  | string (text : String)
  | boolean (flag : Bool)
  | char (c : Char)
  | byte (n : UInt8)
  | sbyte (n : Int8)
  | int16 (n : Int16)
  | uint16 (n : UInt16)
  | int32 (n : Int32)
  | uint32 (n : UInt32)
  | int64 (n : Int64)
  | uint64 (n : UInt64)
  /-- A 32-bit floating point number, as its bits. -/
  | single (bits : UInt32)
  /-- A 64-bit floating point number, as its bits. -/
  | double (bits : UInt64)
  /-- The four words of a decimal: mantissa from the low end, then sign and
  scale. -/
  | decimal (lo mid hi flags : Int32)
  | dateTime (ticks : Int64)
  | timeSpan (ticks : Int64)
  | byteArray (bytes : List UInt8)
  | stream (bytes : List UInt8)
deriving DecidableEq, Repr

/-- A text led by its length in bytes as a 7-bit integer. -/
def readText : Reader String := do
  let length ← SevenBit.read
  let offset ← Reader.position
  let bytes ← Reader.bytes length.toNat
  match Utf8.decode bytes with
  | .ok text => return text
  | .error damage => Reader.flaw (.textAt offset damage)

/-- A byte string led by its length as a 32-bit word. -/
def readBlock : Reader (List UInt8) := do
  let length ← Reader.uint32
  Reader.bytes length.toNat

/-- The largest length a 32-bit field can say. -/
def maxLength : Nat := 0xFFFFFFFF

/-- A length as far as a 32-bit field can say it; a larger one is cut to the
largest. The writer refuses what would be cut. -/
def lengthField (n : Nat) : UInt32 := UInt32.ofNat (min n maxLength)

def encodeText (text : String) : List UInt8 :=
  let bytes := Utf8.encode text
  SevenBit.encode (lengthField bytes.length) ++ bytes

def encodeBlock (bytes : List UInt8) : List UInt8 :=
  LittleEndian.bytes 4 (lengthField bytes.length).toNat ++ bytes

/-- The unit written for a character. One outside the first plane has no unit
of its own and is written as the replacement character, so it does not come
back. -/
def charUnit (c : Char) : Nat := if c.toNat < 0x10000 then c.toNat else 0xFFFD

/-- The character of a unit, unless it is half of a pair. -/
def readChar : Reader Char := do
  let unit ← Reader.uint16
  if unit.toNat.isValidChar then return Char.ofNat unit.toNat
  else Reader.typeFlaw (.loneSurrogate unit.toNat)

namespace Value

def kind : Value → Kind
  | .null => .null
  | .string _ => .string
  | .boolean _ => .boolean
  | .char _ => .char
  | .byte _ => .byte
  | .sbyte _ => .sbyte
  | .int16 _ => .int16
  | .uint16 _ => .uint16
  | .int32 _ => .int32
  | .uint32 _ => .uint32
  | .int64 _ => .int64
  | .uint64 _ => .uint64
  | .single _ => .single
  | .double _ => .double
  | .decimal .. => .decimal
  | .dateTime _ => .dateTime
  | .timeSpan _ => .timeSpan
  | .byteArray _ => .byteArray
  | .stream _ => .stream

def text? : Value → Option String
  | .string text => some text
  | _ => none

/-- The bytes of a value without its tag. -/
def payload : Value → List UInt8
  | .null => []
  | .string text => encodeText text
  | .boolean flag => [if flag then 1 else 0]
  | .char c => LittleEndian.bytes 2 (charUnit c)
  | .byte n => [n]
  | .sbyte n => [n.toUInt8]
  | .int16 n => LittleEndian.bytes 2 n.toUInt16.toNat
  | .uint16 n => LittleEndian.bytes 2 n.toNat
  | .int32 n => LittleEndian.bytes 4 n.toUInt32.toNat
  | .uint32 n => LittleEndian.bytes 4 n.toNat
  | .int64 n => LittleEndian.bytes 8 n.toUInt64.toNat
  | .uint64 n => LittleEndian.bytes 8 n.toNat
  | .single bits => LittleEndian.bytes 4 bits.toNat
  | .double bits => LittleEndian.bytes 8 bits.toNat
  | .decimal lo mid hi flags =>
      [lo, mid, hi, flags].flatMap fun w =>
        LittleEndian.bytes 4 w.toUInt32.toNat
  | .dateTime ticks => LittleEndian.bytes 8 ticks.toUInt64.toNat
  | .timeSpan ticks => LittleEndian.bytes 8 ticks.toUInt64.toNat
  | .byteArray bytes => encodeBlock bytes
  | .stream bytes => encodeBlock bytes

def encode (v : Value) : List UInt8 := SevenBit.encode v.kind.code ++ v.payload

/-- Reads the payload of a value of known kind. -/
def readPayload : Kind → Reader Value
  | .null => return .null
  | .string => return .string (← readText)
  | .boolean => return .boolean (0 < (← Reader.uint8))
  | .char => return .char (← readChar)
  | .byte => return .byte (← Reader.uint8)
  | .sbyte => return .sbyte (← Reader.int8)
  | .int16 => return .int16 (← Reader.int16)
  | .uint16 => return .uint16 (← Reader.uint16)
  | .int32 => return .int32 (← Reader.int32)
  | .uint32 => return .uint32 (← Reader.uint32)
  | .int64 => return .int64 (← Reader.int64)
  | .uint64 => return .uint64 (← Reader.uint64)
  | .single => return .single (← Reader.uint32)
  | .double => return .double (← Reader.uint64)
  | .decimal => do
      let lo ← Reader.int32
      let mid ← Reader.int32
      let hi ← Reader.int32
      let flags ← Reader.int32
      return .decimal lo mid hi flags
  | .dateTime => return .dateTime (← Reader.int64)
  | .timeSpan => return .timeSpan (← Reader.int64)
  | .byteArray => return .byteArray (← readBlock)
  | .stream => return .stream (← readBlock)

/-- Reads the payload of a value tagged with a code. -/
def readCoded (code : UInt32) : Reader Value :=
  match Kind.ofCode? code with
  | some kind => readPayload kind
  | none =>
    if Kind.userTypesStart ≤ code then Reader.typeFlaw (.userType code.toNat)
    else Reader.typeFlaw (.unknownCode code.toNat)

/-- The type name itself: what stands before the first comma, without blanks at
its ends. The rest of an entry in a type table names the assembly that defines
the type. -/
def bareTypeName (name : String) : String :=
  String.ofList (Blank.trim (name.toList.takeWhile (· != ',')))

/-- Reads the payload of a value tagged with the name of its type. -/
def readNamed (name : String) : Reader Value :=
  match Kind.ofTypeName? (bareTypeName name) with
  | some kind => readPayload kind
  | none => Reader.typeFlaw (.unknownName name)

end Value

end CilAudit.Resource
