import ApiClients.Language

/-! # C# -/

namespace ApiClients.Language

def csharpReserved : List String :=
  ["abstract", "as", "base", "bool", "break", "byte", "case", "catch", "char", "checked", "class",
   "const", "continue", "decimal", "default", "delegate", "do", "double", "else", "enum", "event",
   "explicit", "extern", "false", "finally", "fixed", "float", "for", "foreach", "goto", "if",
   "implicit", "in", "int", "interface", "internal", "is", "lock", "long", "namespace", "new",
   "null", "object", "operator", "out", "override", "params", "private", "protected", "public",
   "readonly", "ref", "return", "sbyte", "sealed", "short", "sizeof", "stackalloc", "static",
   "string", "struct", "switch", "this", "throw", "true", "try", "typeof", "uint", "ulong",
   "unchecked", "unsafe", "ushort", "using", "virtual", "void", "volatile", "while"]

/-- C#: reserved words behind `@`, tasks for results to come, and value types marked nullable. -/
def csharp : Language where
  name := "csharp"
  reserved := csharpReserved
  escapeMark := "@"
  unescapable := []
  fallbackMark := "_"
  sequence := ⟨"System.Collections.Generic.IEnumerable<", ">"⟩
  dictionary := ⟨"System.Collections.Generic.IDictionary<string, ", ">"⟩
  fileParameter := "FileParameter"
  fileSequence := "System.Collections.Generic.IEnumerable<FileParameter>"
  fileResponse := "FileResponse"
  async := ⟨"System.Threading.Tasks.Task<", ">"⟩
  asyncVoid := "System.Threading.Tasks.Task"
  void := "void"
  any := "object"
  genericException := "System.Exception"
  exceptionFallback := "Exception"
  primitives :=
    [("string",
      ⟨"string",
       [("date", "System.DateTimeOffset"), ("date-time", "System.DateTimeOffset"),
        ("time", "System.TimeSpan"), ("duration", "System.TimeSpan"), ("uuid", "System.Guid"),
        ("guid", "System.Guid"), ("byte", "byte[]"), ("uri", "System.Uri")]⟩),
     ("integer", ⟨"int", [("int32", "int"), ("int64", "long")]⟩),
     ("number", ⟨"double", [("float", "float"), ("double", "double"), ("decimal", "decimal")]⟩),
     ("boolean", ⟨"bool", []⟩)]
  nullable := ⟨"", "?"⟩
  valueTypes :=
    ["int", "long", "float", "double", "decimal", "bool", "System.DateTimeOffset",
     "System.TimeSpan", "System.Guid"]
  marksAllNullable := false
  variableCasing := .camel
  methodCasing := .pascal
  typeCasing := .pascal

end ApiClients.Language
