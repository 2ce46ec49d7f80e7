import ApiClients.Text.Quoted

/-!
# Failures

Everything that can go wrong, by cause: each `GenerationError`, and what else is raised on the way.
A failure of one operation (`Failure.ofOperation`) leaves
the others alone and is listed in the report; any other failure ends the pass.  The texts are made
in `Failure.message`; a value of the wrong kind and endless recursion carry no text of their own.
-/

namespace ApiClients

/-- Why an operation cannot be built. -/
inductive Refusal where
  | noParameterList
  | unnamed
  | noResponseMap
  | badStatusCode (code : String)
  | notAResponse (code : String)
  deriving DecidableEq, Repr, Inhabited

def Refusal.text : Refusal → String
  | .noParameterList => "operation has no parameter list"
  | .unnamed => "no client/method name was assigned in the naming pass"
  | .noResponseMap => "operation has no response map"
  | .badStatusCode code => "malformed status code " ++ Text.quoted code
  | .notAResponse code => "response " ++ code ++ " is not a response object"

/-- A cause of failure. -/
inductive Failure where
  /-- No target language has the tag; `known` are the tags of the languages there are. -/
  | unknownLanguage (tag : String) (known : List String)
  | invalidOperation (key : String) (reason : Refusal)
  | nameCollision (key identifier first second : String)
  /-- A named type is resolved that was not registered before the registry was frozen. -/
  | unregisteredType (typeName : String)
  | frozen
  | noDocument
  | notAPair (index length : Nat)
  | unknownFormat (name : String)
  | malformed
  | endless
  deriving DecidableEq, Repr, Inhabited

namespace Failure

/-- Whether the failure concerns one operation and leaves the pass going. -/
def ofOperation : Failure → Bool
  | .unknownLanguage _ _ => true
  | .invalidOperation _ _ => true
  | .nameCollision _ _ _ _ => true
  | .unregisteredType _ => true
  | _ => false

def message : Failure → String
  | .unknownLanguage tag known =>
    "Unknown target language '" ++ tag ++ "' (expected one of: "
      ++ String.intercalate ", " known ++ ")"
  | .invalidOperation key reason => key ++ ": " ++ reason.text
  | .nameCollision key identifier first second =>
    key ++ ": parameters '" ++ first ++ "', '" ++ second
      ++ "' all resolve to the identifier '" ++ identifier ++ "'"
  | .unregisteredType typeName =>
    "Named type '" ++ typeName ++ "' was not registered before model building started"
  | .frozen => "Cannot register named types after the type cache was frozen"
  | .noDocument => "No specification data loaded"
  | .notAPair index length =>
    "dictionary update sequence element #" ++ toString index ++ " has length "
      ++ toString length ++ "; 2 is required"
  | .unknownFormat name =>
    "Unknown output format '" ++ name ++ "' (expected one of: markdown, json)"
  | .malformed => "<malformed input>"
  | .endless => "maximum recursion depth exceeded"

end Failure

end ApiClients
