import ApiClients.Language

/-! # Rust -/

namespace ApiClients.Language

def rustReserved : List String :=
  ["as", "break", "const", "continue", "crate", "else", "enum", "extern", "false", "fn", "for",
   "if", "impl", "in", "let", "loop", "match", "mod", "move", "mut", "pub", "ref", "return",
   "self", "Self", "static", "struct", "super", "trait", "true", "type", "unsafe", "use", "where",
   "while", "async", "await", "dyn", "union", "try", "abstract", "become", "box", "do", "final",
   "macro", "override", "priv", "typeof", "unsized", "virtual", "yield"]

/-- Rust: reserved words as raw identifiers, the four that cannot be raw behind an underscore,
futures for results to come, and every nullable type an option. -/
def rust : Language where
  name := "rust"
  reserved := rustReserved
  escapeMark := "r#"
  unescapable := ["self", "Self", "super", "crate"]
  fallbackMark := "_"
  sequence := ⟨"Vec<", ">"⟩
  dictionary := ⟨"std::collections::HashMap<String, ", ">"⟩
  fileParameter := "FileParameter"
  fileSequence := "Vec<FileParameter>"
  fileResponse := "FileResponse"
  async := ⟨"impl std::future::Future<Output = ", ">"⟩
  asyncVoid := "impl std::future::Future<Output = ()>"
  void := "()"
  any := "serde_json::Value"
  genericException := "Box<dyn std::error::Error>"
  exceptionFallback := "Exception"
  primitives :=
    [("string", ⟨"String", [("byte", "Vec<u8>")]⟩),
     ("integer", ⟨"i64", [("int32", "i32"), ("int64", "i64"), ("uint64", "u64")]⟩),
     ("number", ⟨"f64", [("float", "f32"), ("double", "f64")]⟩),
     ("boolean", ⟨"bool", []⟩)]
  nullable := ⟨"Option<", ">"⟩
  valueTypes := []
  marksAllNullable := true
  variableCasing := .snake
  methodCasing := .snake
  typeCasing := .pascal

end ApiClients.Language
