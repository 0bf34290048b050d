import CilAudit.Text.Hex
import CilAudit.Text.Unprintable

/-!
# Quoted text

How a listing shows a string literal: between double quotes, with a backslash
before quotes and backslashes, the usual letters for line ends, tabs and zero,
and the code point in braces for everything that could not be seen.
-/

namespace CilAudit.Quoted

/-- A code point in hexadecimal, without padding. -/
def codePoint (c : Char) : String := "\\u\x7b" ++ Hex.lower 1 c.toNat ++ "\x7d"

/-- A character as it stands between the quotes. -/
def escape (c : Char) : String :=
  if c = '"' then "\\\""
  else if c = '\\' then "\\\\"
  else if c = '\n' then "\\n"
  else if c = '\r' then "\\r"
  else if c = '\t' then "\\t"
  else if c.toNat = 0 then "\\0"
  else if Unprintable.isUnprintable c then codePoint c
  else c.toString

def quote (text : String) : String :=
  "\"" ++ String.join (text.toList.map escape) ++ "\""

end CilAudit.Quoted
