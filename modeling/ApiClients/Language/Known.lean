import ApiClients.Language.CSharp
import ApiClients.Language.Rust

/-! # The known target languages -/

namespace ApiClients.Language

def known : List Language := [csharp, rust]

def knownNames : List String := known.map (·.name)

/-- The target language that a tag names (`get_target_language`), whatever the case of its
letters. -/
def ofTag (tag : String) : Except Failure Language :=
  match known.find? (·.name == Text.lower tag) with
  | some language => .ok language
  | none => .error (.unknownLanguage tag knownNames)

end ApiClients.Language
