import ApiClients.Language.Known
import ApiClients.Naming.Methods

/-!
# Settings of a pass

What a user chooses: the target language, the policy for names, the names of client classes and of
the class around results, and which parts the manifest shows.
-/

namespace ApiClients

def clientPlace : List Char := "\x7bcontroller\x7d".toList

/-- The rest of some characters after a word, if they start with it. -/
def afterWord? : List Char → List Char → Option (List Char)
  | [], cs => some cs
  | w :: ws, c :: cs => if w = c then afterWord? ws cs else none
  | _ :: _, [] => none

/-- Some characters with each occurrence of a word replaced, from the left; `skip` characters of an
occurrence are still to be passed over. -/
def replaceFrom (word replacement : List Char) : Nat → List Char → List Char
  | _, [] => []
  | skip + 1, _ :: rest => replaceFrom word replacement skip rest
  | 0, c :: rest =>
    match afterWord? word (c :: rest) with
    | some _ => replacement ++ replaceFrom word replacement (word.length - 1) rest
    | none => c :: replaceFrom word replacement 0 rest

/-- A class name with the client name put into its place. -/
def fillClient (template client : String) : String :=
  String.ofList (replaceFrom clientPlace client.toList 0 template.toList)

/-- The choices for a pass (`GeneratorSettings`). -/
structure Settings where
  language : String := "csharp"
  requiredFirst : Bool := false
  wrapResponses : Bool := false
  responseClass : String := "SwaggerResponse"
  policy : Naming.Policy := .firstTag
  className : String := "\x7bcontroller\x7dClient"
  showClasses : Bool := true
  showInterfaces : Bool := false
  showTypes : Bool := true
  deriving DecidableEq, Repr, Inhabited

namespace Settings

/-- The record of the target language. -/
def targetLanguage (settings : Settings) : Except Failure Language :=
  Language.ofTag settings.language

/-- The class around the results of a client. -/
def responseClassName (settings : Settings) (client : String) : String :=
  fillClient settings.responseClass client

/-- The class of a client. -/
def clientClassName (settings : Settings) (client : String) : String :=
  fillClient settings.className client

end Settings

end ApiClients
