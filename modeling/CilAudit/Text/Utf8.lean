/-!
# UTF-8 text and its damage

Blobs and headers hold text as UTF-8. A reader that refuses such text says
where it stopped being text: the index is the length of the longest sound
beginning, and the length counts the bytes that still looked like the start of
a character. The decoder below therefore walks character by character and keeps
the index of the first byte of each; nothing is decided twice, because the
range of the second byte already excludes overlong forms, surrogates and values
past `10FFFF`.
-/

namespace CilAudit.Utf8

/-- How a byte string fails to be UTF-8. -/
inductive Damage where
  /-- The `length` bytes at `index` start no character. -/
  | invalid (index length : Nat)
  /-- The bytes end inside the character that starts at `index`. -/
  | incomplete (index : Nat)
deriving DecidableEq, Repr

/-- The wording of a damage report; the count always says "bytes". -/
def Damage.message : Damage → String
  | .invalid index length =>
      s!"invalid utf-8 sequence of {length} bytes from index {index}"
  | .incomplete index => s!"incomplete utf-8 byte sequence from index {index}"

def encode (text : String) : List UInt8 :=
  text.toList.flatMap String.utf8EncodeChar

def isTail (b : UInt8) : Bool := 0x80 ≤ b && b ≤ 0xBF

/-- The second bytes allowed after a first byte: the narrowed ranges after
`E0`, `ED`, `F0` and `F4` keep out overlong forms, surrogates and values past
the last code point. -/
def isSecond (b₀ b₁ : UInt8) : Bool :=
  if b₀ = 0xE0 then 0xA0 ≤ b₁ && b₁ ≤ 0xBF
  else if b₀ = 0xED then 0x80 ≤ b₁ && b₁ ≤ 0x9F
  else if b₀ = 0xF0 then 0x90 ≤ b₁ && b₁ ≤ 0xBF
  else if b₀ = 0xF4 then 0x80 ≤ b₁ && b₁ ≤ 0x8F
  else isTail b₁

/-- How many bytes a character takes, judged by its first byte; `none` for a
byte that can start no character. -/
def width? (b : UInt8) : Option Nat :=
  if b < 0x80 then some 1
  else if 0xC2 ≤ b && b ≤ 0xDF then some 2
  else if 0xE0 ≤ b && b ≤ 0xEF then some 3
  else if 0xF0 ≤ b && b ≤ 0xF4 then some 4
  else none

def low6 (b : UInt8) : Nat := b.toNat % 64

/-- Decodes bytes whose first one stands at `index` of the whole text. -/
def decodeFrom (index : Nat) : List UInt8 → Except Damage (List Char)
  | [] => .ok []
  | b₀ :: rest =>
    match width? b₀ with
    | some 1 => (decodeFrom (index + 1) rest).map (Char.ofNat b₀.toNat :: ·)
    | some 2 =>
      match rest with
      | [] => .error (.incomplete index)
      | b₁ :: rest =>
        if isTail b₁ then
          (decodeFrom (index + 2) rest).map
            (Char.ofNat (b₀.toNat % 32 * 64 + low6 b₁) :: ·)
        else .error (.invalid index 1)
    | some 3 =>
      match rest with
      | [] => .error (.incomplete index)
      | b₁ :: rest =>
        if isSecond b₀ b₁ then
          match rest with
          | [] => .error (.incomplete index)
          | b₂ :: rest =>
            if isTail b₂ then
              (decodeFrom (index + 3) rest).map
                (Char.ofNat ((b₀.toNat % 16 * 64 + low6 b₁) * 64 + low6 b₂) ::
                  ·)
            else .error (.invalid index 2)
        else .error (.invalid index 1)
    | some _ =>
      match rest with
      | [] => .error (.incomplete index)
      | b₁ :: rest =>
        if isSecond b₀ b₁ then
          match rest with
          | [] => .error (.incomplete index)
          | b₂ :: rest =>
            if isTail b₂ then
              match rest with
              | [] => .error (.incomplete index)
              | b₃ :: rest =>
                if isTail b₃ then
                  (decodeFrom (index + 4) rest).map
                    (Char.ofNat
                      (((b₀.toNat % 8 * 64 + low6 b₁) * 64 + low6 b₂) * 64 +
                        low6 b₃) :: ·)
                else .error (.invalid index 3)
            else .error (.invalid index 2)
        else .error (.invalid index 1)
    | none => .error (.invalid index 1)

/-- The text that bytes spell, or the first damage. A character is damaged as
soon as one of its bytes cannot continue it, and the damage says where it
starts and how many bytes it takes. -/
def decode (bytes : List UInt8) : Except Damage String :=
  (decodeFrom 0 bytes).map String.ofList

end CilAudit.Utf8
