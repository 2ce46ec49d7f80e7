import ApiClients.Json.Order
import ApiClients.Json.Plain
import ApiClients.Language
import ApiClients.Operation

/-!
# Variable names of parameters

The name of a parameter becomes an identifier in the casing of the target language: separators turn
into underscores and brackets fall away.  Where another parameter of the operation has the same
name, the location goes behind it.  A reserved word is escaped.  Two parameters of one operation
that still come out alike are a failure.
-/

namespace ApiClients.Naming

open ApiClients.Text

/-- The characters of a parameter name that can be part of an identifier: hyphens and full stops as
underscores, dollar signs and brackets left out. -/
def cleanChars (cs : List Char) : List Char :=
  (cs.map fun c => if c = '-' || c = '.' then '_' else c).filter
    fun c => !(c = '$' || c = '[' || c = ']')

/-- A parameter name that can be cased. -/
def clean (name : String) : String := String.ofList (cleanChars name.toList)

def isShared (name : Json) (parameters : List Parameter) : Bool :=
  1 < (parameters.filter fun p => Json.equal p.name name).length

/-- The identifier of a name, with the location behind it if the name is shared; a name with nothing
to show gets the word for a parameter. -/
def baseIdentifier (language : Language) (name : String) (location : Location)
    (shared : Bool) : String :=
  let source := if shared then clean name ++ "_" ++ Identifier.pascal location.word else clean name
  let identifier := Identifier.normalize (language.variableName source)
  if identifier.isEmpty then language.variableName "parameter" else identifier

/-- The variable name of a parameter before escaping (`base_variable_name`).  A name that is not a
text cannot be cased. -/
def baseVariableName (language : Language) (all : List Parameter) (parameter : Parameter) :
    Except Failure String :=
  match parameter.name with
  | .str name =>
    .ok (baseIdentifier language name parameter.location (isShared parameter.name all))
  | _ => .error .malformed

def variableName (language : Language) (all : List Parameter) (parameter : Parameter) :
    Except Failure String :=
  (baseVariableName language all parameter).map language.escape

/-- The first parameter whose identifier an earlier one has: the identifier, the name of the earlier
parameter and its own name.  Parameters are given as identifiers with names. -/
def collision? (owners : List (String × String)) :
    List (String × String) → Option (String × String × String)
  | [] => none
  | (identifier, name) :: rest =>
    match owners.find? (·.1 == identifier) with
    | some (_, owner) => some (identifier, owner, name)
    | none => collision? (owners ++ [(identifier, name)]) rest

/-- The variable names of all parameters of an operation (`ParameterNameResolver.resolve_all`), in
their order. -/
def variableNames (language : Language) (parameters : List Parameter) (key : String) :
    Except Failure (List String) := do
  let names ← parameters.mapM (variableName language parameters)
  match collision? [] (names.zip (parameters.map (·.name.plain))) with
  | some (identifier, owner, name) => .error (.nameCollision key identifier owner name)
  | none => .ok names

end ApiClients.Naming
