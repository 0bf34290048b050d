/-!
# Hexadecimal text

Offsets, opcodes, tokens and type codes are shown in base sixteen, some padded
to a width and in either case. Padding only ever adds zeros on the left: a
number wider than its field is shown whole.
-/

namespace CilAudit.Hex

/-- Pads on the left with zeros up to `width` characters. -/
def padZeros (width : Nat) (digits : List Char) : List Char :=
  List.replicate (width - digits.length) '0' ++ digits

def lower (width n : Nat) : String :=
  String.ofList (padZeros width (Nat.toDigits 16 n))

def upper (width n : Nat) : String :=
  String.ofList ((padZeros width (Nat.toDigits 16 n)).map Char.toUpper)

/-- Two lower-case digits for every byte. -/
def ofBytes (bytes : List UInt8) : String :=
  String.join (bytes.map fun b => lower 2 b.toNat)

end CilAudit.Hex
