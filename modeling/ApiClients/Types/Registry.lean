import ApiClients.Journal
import ApiClients.Language
import ApiClients.Schema.Fingerprint
import ApiClients.Schema.Walk

/-!
# The registry of emitted names

Each type definition gets a name under which it is emitted.  Definitions of one name and one shape
share it; definitions of one name and different shapes, or of names that the language spells alike,
are told apart by a number at the end.  Names are given as definitions are first met and never
change; once the registry is frozen no name is given any more.
-/

namespace ApiClients

/-! ### Numbered names -/

/-- The spellings of a name: the name itself, then with 2, 3, … at its end. -/
def numbered (base : String) : Nat → String
  | 0 => base
  | n + 1 => base ++ toString (n + 2)

/-- The first spelling of a name that is not taken.  Of the first spellings, one more than there are
names taken, one must be free. -/
def freeName (taken : String → Bool) (count : Nat) (base : String) : String :=
  match (List.range (count + 1)).find? fun n => !taken (numbered base n) with
  | some n => numbered base n
  | none => numbered base (count + 1)

/-! ### The registry -/

/-- The names given so far. -/
structure Registry where
  names : List (NodeId × String) := []
  /-- For each name of a definition, the shapes met under it with their emitted names. -/
  variants : List (String × List (Fingerprint × String)) := []
  /-- The definitions to emit, in the order in which they were first met. -/
  definitions : List (String × NodeId) := []
  frozen : Bool := false
  deriving Repr, Inhabited

namespace Registry

/-- The emitted name of a node. -/
def nameOf? (registry : Registry) (id : NodeId) : Option String :=
  (registry.names.find? (·.1 == id)).map (·.2)

/-- The shapes met under a name, with their emitted names. -/
def variantsOf (registry : Registry) (identity : String) : List (Fingerprint × String) :=
  (Entries.get? registry.variants identity).getD []

def isTaken (registry : Registry) (name : String) : Bool :=
  Entries.has registry.definitions name

/-- The registry with a shape more under a name. -/
def addVariant (registry : Registry) (identity : String) (variant : Fingerprint × String) :
    Registry :=
  { registry with
    variants := Entries.put identity (registry.variantsOf identity ++ [variant])
      registry.variants }

/-- The name that a definition is registered under: its own, which must be a text, or the empty text
if none is given. -/
def identity (node : Node) : Except Failure String :=
  if !node.typeName.given then .ok ""
  else
    match node.typeName with
    | .str name => .ok name
    | _ => .error .malformed

/-- The emitted name that a definition of a new shape gets. -/
def freshName (registry : Registry) (language : Language) (identity : String) : String :=
  let spelled := language.typeName (Identifier.normalize identity)
  let base := if spelled.isEmpty then "Anonymous" else spelled
  freeName registry.isTaken registry.definitions.length base

end Registry

/-! ### Registering -/

/-- What type resolution changes: the registry and the journal. -/
structure Typing where
  registry : Registry := {}
  journal : Journal := []
  deriving Repr, Inhabited

/-- A step of type resolution.  What it has changed stays when it fails. -/
abbrev TypingM := ExceptT Failure (StateM Typing)

namespace Typing

/-- An event is noted. -/
def note (event : Event) : TypingM Unit :=
  modify fun s => { s with journal := s.journal ++ [event] }

/-- A result as a step that changes nothing. -/
def lift {α : Type} (result : Except Failure α) : TypingM α := ExceptT.mk (pure result)

/-- The registry is changed. -/
def update (change : Registry → Registry) : TypingM Unit :=
  modify fun s => { s with registry := change s.registry }

end Typing

namespace Registry

open Typing

/-- The emitted name of a type definition (`_register`), which is given one if it has none. -/
def assign (language : Language) (graph : Graph) (id : NodeId) : TypingM String := do
  match (← get).registry.nameOf? id with
  | some name => return name
  | none =>
    let fingerprint ← lift (graph.fingerprint id)
    let identity ← lift (identity (graph.node id))
    match ((← get).registry.variantsOf identity).find? (·.1 = fingerprint) with
    | some (_, name) =>
      update fun r => { r with names := r.names ++ [(id, name)] }
      return name
    | none =>
      let name := (← get).registry.freshName language identity
      note (.registered identity name)
      update fun r =>
        { r.addVariant identity (fingerprint, name) with
          definitions := r.definitions ++ [(name, id)]
          names := r.names ++ [(id, name)] }
      return name

/-- Names are given to the type definitions among some nodes (`register_named_types`), references
followed. -/
def register (language : Language) (graph : Graph) (ids : List NodeId) : TypingM Unit := do
  if (← get).registry.frozen then throw .frozen
  for id in ids do
    let actual := graph.actual id
    if (graph.node actual).isTypeDefinition then
      let _ ← assign language graph actual

def freeze : TypingM Unit := update fun r => { r with frozen := true }

/-- The emitted name of a type definition (`_named_type_name`): the one it has, or a new one unless
the registry is frozen. -/
def name (language : Language) (graph : Graph) (id : NodeId) : TypingM String := do
  let registry := (← get).registry
  match registry.nameOf? id with
  | some name => return name
  | none =>
    if registry.frozen then
      let typeName := (graph.node id).typeName
      throw (.unregisteredType (if typeName.given then typeName.plain else ""))
    else assign language graph id

end Registry

end ApiClients
