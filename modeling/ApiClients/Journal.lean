import ApiClients.Failure
import ApiClients.Json.Plain
import ApiClients.Schema.Kinds

/-!
# The journal

What is worth noting during a pass, in order: what the `logger` of each part is told.  An event says
what happened; how grave it is, which part of the program it concerns and how it is worded follow
from it.
-/

namespace ApiClients

/-- How grave an event is. -/
inductive Level where
  | debug
  | info
  | warning
  deriving DecidableEq, Repr, Inhabited

def Level.label : Level → String
  | .debug => "DEBUG"
  | .info => "INFO"
  | .warning => "WARNING"

/-- The parts of the program that note events. -/
inductive Component where
  | document
  | types
  | responses
  | models
  deriving DecidableEq, Repr, Inhabited

def Component.label : Component → String
  | .document => "oas_model_generator.parser.oas_parser"
  | .types => "oas_model_generator.generator.type_resolver"
  | .responses => "oas_model_generator.generator.responses"
  | .models => "oas_model_generator.generator.operation_model"

/-- Something worth noting. -/
inductive Event where
  | untypedDefinition (name : Json)
  | untypedUnion (variants : Nat)
  | unknownLocation (value : Json)
  | unknownCollectionFormat (value : Json)
  | documentRead (operations schemas : Nat)
  | unmappedShape (use : String) (kinds : Kinds) (language any : String)
  | unmappedPrimitive (language primitive use any : String)
  | recursiveContainer (use any : String)
  | registered (identity name : String)
  | severalErrors (key : String) (count : Nat) (exception : String)
  | named (operations types : Nat)
  | skipped (key : String) (failure : Failure)
  deriving DecidableEq, Repr, Inhabited

namespace Event

def level : Event → Level
  | .untypedDefinition _ => .info
  | .untypedUnion _ => .debug
  | .unknownLocation _ => .info
  | .unknownCollectionFormat _ => .info
  | .documentRead _ _ => .debug
  | .unmappedShape _ _ _ _ => .info
  | .unmappedPrimitive _ _ _ _ => .info
  | .recursiveContainer _ _ => .info
  | .registered _ _ => .debug
  | .severalErrors _ _ _ => .info
  | .named _ _ => .debug
  | .skipped _ _ => .warning

def component : Event → Component
  | .untypedDefinition _ => .document
  | .untypedUnion _ => .document
  | .unknownLocation _ => .document
  | .unknownCollectionFormat _ => .document
  | .documentRead _ _ => .document
  | .unmappedShape _ _ _ _ => .types
  | .unmappedPrimitive _ _ _ _ => .types
  | .recursiveContainer _ _ => .types
  | .registered _ _ => .types
  | .severalErrors _ _ _ => .responses
  | .named _ _ => .models
  | .skipped _ _ => .models

def text : Event → String
  | .untypedDefinition name =>
    "Definition '" ++ name.plain ++ "' is missing or malformed; treating it as untyped"
  | .untypedUnion variants =>
    "Polymorphic union of " ++ toString variants ++ " variants degrades to an untyped object"
  | .unknownLocation value =>
    "Unknown parameter location '" ++ value.plain ++ "'; treating it as a query parameter"
  | .unknownCollectionFormat value =>
    "Unknown collection format '" ++ value.plain ++ "' ignored"
  | .documentRead operations schemas =>
    "Parsed " ++ toString operations ++ " operations and " ++ toString schemas ++ " named schemas"
  | .unmappedShape use kinds language any =>
    "Cannot map schema for '" ++ use ++ "' (type " ++ kinds.label ++ ") to a " ++ language
      ++ " type; using " ++ any
  | .unmappedPrimitive language primitive use any =>
    "No " ++ language ++ " mapping for primitive '" ++ primitive ++ "' of '" ++ use ++ "'; using "
      ++ any
  | .recursiveContainer use any =>
    "Recursive container '" ++ use ++ "' cannot be inlined; using " ++ any
  | .registered identity name => "Registered named type '" ++ identity ++ "' as " ++ name
  | .severalErrors key count exception =>
    key ++ " declares " ++ toString count ++ " error responses; using " ++ exception
  | .named operations types =>
    "Naming pass assigned " ++ toString operations ++ " operations; " ++ toString types
      ++ " named types"
  | .skipped key failure => "Skipping operation " ++ key ++ ": " ++ failure.message

/-- An event as a line of the journal. -/
def line (event : Event) : String :=
  event.level.label ++ " " ++ event.component.label ++ ": " ++ event.text

end Event

/-- The events of a pass, in order. -/
abbrev Journal := List Event

end ApiClients
