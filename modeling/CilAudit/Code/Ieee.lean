/-!
# Equality of floating point bits

Floating point numbers are kept as their bits. Compared as numbers they differ
from their bits in two places: both zeros are equal, and what is not a number
equals nothing.
-/

namespace CilAudit.Code.Ieee

/-- The bits without the sign, for numbers of `exponent` and `fraction`
bits. -/
def magnitude (exponent fraction bits : Nat) : Nat :=
  bits % (1 <<< (exponent + fraction))

/-- Whether bits stand for no number: all exponent bits set, and some of the
fraction. -/
def isNaN (exponent fraction bits : Nat) : Bool :=
  ((1 <<< exponent) - 1) <<< fraction < magnitude exponent fraction bits

/-- Whether bits stand for equal numbers. Bits that stand for no number equal
nothing, and the two zeros, which differ in the sign alone, are equal. -/
def equal (exponent fraction a b : Nat) : Bool :=
  !isNaN exponent fraction a && !isNaN exponent fraction b &&
    (a == b || (magnitude exponent fraction a == 0 &&
      magnitude exponent fraction b == 0))

def equal32 (a b : UInt32) : Bool := equal 8 23 a.toNat b.toNat

def equal64 (a b : UInt64) : Bool := equal 11 52 a.toNat b.toNat

end CilAudit.Code.Ieee
