/-!
# Well-known type names

Types are known by their full names, and these names are what calls and
declarations are recognised by.
-/

namespace CilAudit.TypeName

def void : String := "System.Void"

def boolean : String := "System.Boolean"

def string : String := "System.String"

def object : String := "System.Object"

def enum : String := "System.Enum"

def valueType : String := "System.ValueType"

def multicastDelegate : String := "System.MulticastDelegate"

def delegate : String := "System.Delegate"

def disposable : String := "System.IDisposable"

def conditionalAttribute : String := "System.Diagnostics.ConditionalAttribute"

def generatedCodeAttribute : String :=
  "System.CodeDom.Compiler.GeneratedCodeAttribute"

def compilerGeneratedAttribute : String :=
  "System.Runtime.CompilerServices.CompilerGeneratedAttribute"

end CilAudit.TypeName
