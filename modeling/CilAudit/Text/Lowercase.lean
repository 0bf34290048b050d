import CilAudit.Text.Letter

/-!
# Lower-case text

The full lower-case mapping: every character maps on its own, with two
exceptions. A capital I with a dot becomes two characters, and a capital sigma
becomes the final form at the end of a word, which is where a cased character
stands before it and none behind it, case-ignorable ones passed over.
-/

namespace CilAudit.Lowercase

/-- Whether the first character that is not case-ignorable is cased. -/
def startsCased (text : List Char) : Bool :=
  match text.dropWhile Letter.isCaseIgnorable with
  | c :: _ => Letter.isCased c
  | [] => false

/-- The lower case of a character between the text `before` it, read backwards,
and the text `after` it. Two letters need more than their own mapping: one
becomes two characters, and the other depends on whether it ends a word. -/
def lowerAt (before : List Char) (c : Char) (after : List Char) : List Char :=
  if c = '\u0130' then ['i', '\u0307']
  else if c = '\u03A3' then
    if startsCased before && !startsCased after then ['\u03C2'] else ['\u03C3']
  else [Letter.lower c]

/-- The lower case of what follows the text `before`, which is read
backwards. -/
def lowerFrom (before : List Char) : List Char → List Char
  | [] => []
  | c :: after => lowerAt before c after ++ lowerFrom (c :: before) after

/-- The lower case of a text. -/
def lower (text : String) : String := String.ofList (lowerFrom [] text.toList)

def occursIn (part : List Char) : List Char → Bool
  | [] => part.isEmpty
  | c :: rest => part.isPrefixOf (c :: rest) || occursIn part rest

/-- Whether `text` contains `part` when case is ignored. Both are mapped to
lower case first, so characters without case must agree as they are. -/
def containsIgnoringCase (text part : String) : Bool :=
  occursIn (lower part).toList (lower text).toList

end CilAudit.Lowercase
