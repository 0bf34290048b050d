import CilAudit.Text.Hex

/-!
# Metadata tokens

An operand names a string, a field, a type or a method by a 32-bit token: the
high byte says which table it points into, the low three bytes which row.
-/

namespace CilAudit.Code

structure Token where
  word : UInt32
deriving DecidableEq, Repr, Hashable

namespace Token

/-- How many rows a table can have: rows are told apart by three bytes. -/
def rowSpan : Nat := 0x1000000

/-- The token of a row of a table; only the low three bytes of the row
count. -/
def ofParts (table : UInt8) (row : UInt32) : Token :=
  ⟨UInt32.ofNat (table.toNat * rowSpan + row.toNat % rowSpan)⟩

/-- The table that a token points into. -/
def table (t : Token) : UInt8 := UInt8.ofNat (t.word.toNat / rowSpan)

/-- The row that a token points at. -/
def row (t : Token) : Nat := t.word.toNat % rowSpan

/-- Whether a token names a string literal. -/
def isUserString (t : Token) : Bool := t.table == 0x70

/-- Whether a token names a method: a definition, a member reference or an
instantiation. -/
def isMethod (t : Token) : Bool :=
  t.table == 0x06 || t.table == 0x0A || t.table == 0x2B

def render (t : Token) : String := "0x" ++ Hex.lower 8 t.word.toNat

def describe (t : Token) : String :=
  s!"Token({t.render}, table: 0x{Hex.lower 2 t.table.toNat}, row: {t.row})"

end Token

end CilAudit.Code
