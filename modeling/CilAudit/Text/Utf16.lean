/-!
# UTF-16 code units

Resource names are stored, measured and hashed as UTF-16. A character outside
the first plane takes two units, a high one and a low one; units that do not
pair up that way spell no text.
-/

namespace CilAudit.Utf16

def unitsOfChar (c : Char) : List UInt16 :=
  if c.toNat < 0x10000 then [UInt16.ofNat c.toNat]
  else
    let offset := c.toNat - 0x10000
    [UInt16.ofNat (0xD800 + offset / 0x400),
      UInt16.ofNat (0xDC00 + offset % 0x400)]

def units (text : String) : List UInt16 := text.toList.flatMap unitsOfChar

def isHigh (u : UInt16) : Bool := 0xD800 ≤ u && u ≤ 0xDBFF

def isLow (u : UInt16) : Bool := 0xDC00 ≤ u && u ≤ 0xDFFF

/-- The character that a pair spells. -/
def pairChar (high low : UInt16) : Char :=
  Char.ofNat (0x10000 + (high.toNat - 0xD800) * 0x400 + (low.toNat - 0xDC00))

/-- The characters that units spell; `none` if a half stands alone. -/
def chars? : List UInt16 → Option (List Char)
  | [] => some []
  | u :: rest =>
    if isHigh u then
      match rest with
      | [] => none
      | v :: rest =>
          if isLow v then (chars? rest).map (pairChar u v :: ·) else none
    else if isLow u then none
    else (chars? rest).map (Char.ofNat u.toNat :: ·)

def decode? (units : List UInt16) : Option String :=
  (chars? units).map String.ofList

end CilAudit.Utf16
