import CilAudit.Bytes.Cursor

/-!
# 7-bit integers

Lengths and tags are written seven bits to a byte, lowest group first, with the
high bit set on every byte but the last. A 32-bit number takes one to five
bytes. A reader stops at the first byte without the high bit and refuses a
sixth; what the fifth byte holds above the thirty-second bit is dropped, since
the value is a 32-bit word.
-/

namespace CilAudit.SevenBit

/-- The most bytes an integer may take: five groups of seven bits are the
fewest that hold 32 of them. -/
def maxBytes : Nat := 5

/-- The shortest bytes that denote `n`: groups of seven bits, the lowest first,
with the high bit set on all but the last. -/
def encodeNat (n : Nat) : List UInt8 :=
  if n < 128 then [UInt8.ofNat n] else UInt8.ofNat (n % 128 + 128) ::
    encodeNat (n / 128)

def encode (v : UInt32) : List UInt8 := encodeNat v.toNat

/-- The number that groups of seven bits denote, whatever its size. A reader
keeps of it only what fits into 32 bits. -/
def denoted : List UInt8 → Nat
  | [] => 0
  | b :: bs => b.toNat % 128 + 128 * denoted bs

/-- The bytes up to the first one without the high bit, at most `left` of
them. -/
def groups : (left : Nat) → Reader (List UInt8)
  | 0 => Reader.flaw (.sevenBitOverflow (7 * maxBytes))
  | left + 1 => do
      let b ← Reader.byte
      if b < 128 then return [b]
      let more ← groups left
      return b :: more

/-- Reads an integer. Bytes read before a refusal stay read, and bits of the
fifth byte above the thirty-second are dropped without a refusal. -/
def read : Reader UInt32 := return UInt32.ofNat (denoted (← groups maxBytes))

end CilAudit.SevenBit
