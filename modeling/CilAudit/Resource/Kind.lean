/-!
# Kinds of resource values

A blob tags each value with its kind: by a code in the newer format, by the
name of its type in the older one. Codes up to `0x3F` belong to the format;
from `0x40` on they index the types of the program that wrote the blob, and
such values cannot be read without it.
-/

namespace CilAudit.Resource

/-- The kinds of values that a blob can hold. -/
inductive Kind where
  | null
  | string
  | boolean
  | char
  | byte
  | sbyte
  | int16
  | uint16
  | int32
  | uint32
  | int64
  | uint64
  | single
  | double
  | decimal
  | dateTime
  | timeSpan
  | byteArray
  | stream
deriving DecidableEq, Repr

namespace Kind

/-- Every kind, in the order of the codes. -/
def all : List Kind :=
  [.null, .string, .boolean, .char, .byte, .sbyte, .int16, .uint16, .int32,
    .uint32, .int64,
   .uint64, .single, .double, .decimal, .dateTime, .timeSpan,
   .byteArray, .stream]

def code : Kind → UInt32
  | .null => 0x00
  | .string => 0x01
  | .boolean => 0x02
  | .char => 0x03
  | .byte => 0x04
  | .sbyte => 0x05
  | .int16 => 0x06
  | .uint16 => 0x07
  | .int32 => 0x08
  | .uint32 => 0x09
  | .int64 => 0x0A
  | .uint64 => 0x0B
  | .single => 0x0C
  | .double => 0x0D
  | .decimal => 0x0E
  | .dateTime => 0x0F
  | .timeSpan => 0x10
  | .byteArray => 0x20
  | .stream => 0x21

/-- The full name of the type whose values have this kind. -/
def typeName : Kind → String
  | .null => "System.Null"
  | .string => "System.String"
  | .boolean => "System.Boolean"
  | .char => "System.Char"
  | .byte => "System.Byte"
  | .sbyte => "System.SByte"
  | .int16 => "System.Int16"
  | .uint16 => "System.UInt16"
  | .int32 => "System.Int32"
  | .uint32 => "System.UInt32"
  | .int64 => "System.Int64"
  | .uint64 => "System.UInt64"
  | .single => "System.Single"
  | .double => "System.Double"
  | .decimal => "System.Decimal"
  | .dateTime => "System.DateTime"
  | .timeSpan => "System.TimeSpan"
  | .byteArray => "System.Byte[]"
  | .stream => "System.IO.Stream"

def ofCode? (c : UInt32) : Option Kind := all.find? fun k => k.code = c

/-- The kind of the type with a given full name. -/
def ofTypeName? (name : String) : Option Kind :=
  all.find? fun k => k.typeName = name

theorem ofCode?_code (k : Kind) : ofCode? k.code = some k := by cases k <;> rfl

/-- The first code that belongs to the writing program. -/
def userTypesStart : UInt32 := 0x40

end Kind

end CilAudit.Resource
