import CilAudit.Text.Lowercase
import CilAudit.Trace.Shape

/-!
# The debug-dispose convention

What a debug line has to look like: which text it must contain, through which
method it is written, and which conditional symbols stand for debug builds.
-/

namespace CilAudit

/-- The convention that debug lines follow. Everything the rules know about a
line is here, so that another convention needs no other rules. -/
structure Convention where
  /-- The text that a debug line contains, in any case. -/
  requiredText : String := "missing dispose"
  /-- The symbols of debug builds. -/
  debugSymbols : List String := ["DEBUG", "TRACE"]
  diagnosticType : String := "System.Diagnostics.Debug"
  diagnosticMethod : String := "WriteLineIf"
deriving DecidableEq, Repr

namespace Convention

def diagnostic (c : Convention) : DiagnosticMethod :=
  ⟨c.diagnosticType, c.diagnosticMethod⟩

def isDebugSymbol (c : Convention) (symbol : String) : Bool :=
  c.debugSymbols.contains symbol

/-- Whether a text will do as a debug line. An empty one never does. -/
def accepts (c : Convention) (text : String) : Bool :=
  text != "" && Lowercase.containsIgnoringCase text c.requiredText

end Convention

end CilAudit
