import ApiClients.Document.Access
import ApiClients.Json.Order
import ApiClients.Journal
import ApiClients.Schema.Graph

/-!
# Reading schemas

Schema objects become nodes of a graph.  Each definition has one node, which every reference to the
definition shares; it is put into the graph before its parts are read, so definitions may refer to
each other in circles.  Other schema objects get a node of their own each time they are read.

A step of reading takes the reading of nested schemas as an argument.  `schema` ties the knot with a
bound on the depth of nesting, which `depthBound` computes from the document: on a path of nested
readings each definition is entered once, and between two definitions each reference to a place
outside the definitions is followed once, or the path goes round in a circle.
-/

namespace ApiClients

/-- What reading changes: the fields of an `OASParser` that outlive a call. -/
structure Reading where
  source : Json := .null
  definitions : List (Json × Json) := []
  named : List (Json × NodeId) := []
  graph : Graph := {}
  journal : Journal := []
  deriving Repr, Inhabited

/-- A step of reading.  What it has changed stays when it fails. -/
abbrev ReadingM := ExceptT Failure (StateM Reading)

namespace Reading

/-! ### Steps -/

/-- A result as a step that changes nothing. -/
def lift {α : Type} (result : Except Failure α) : ReadingM α := ExceptT.mk (pure result)

/-- An event is noted. -/
def note (event : Event) : ReadingM Unit :=
  modify fun s => { s with journal := s.journal ++ [event] }

/-- A node is put into the graph. -/
def add (node : Node) : ReadingM NodeId :=
  modifyGet fun s => (s.graph.size, { s with graph := s.graph.push node })

/-- A node is changed. -/
def change (id : NodeId) (f : Node → Node) : ReadingM Unit :=
  modify fun s => { s with graph := s.graph.modify id f }

/-- A definition gets its node. -/
def nameNode (name : Json) (id : NodeId) : ReadingM Unit :=
  modify fun s => { s with named := s.named ++ [(name, id)] }

def node (id : NodeId) : ReadingM Node := do return (← get).graph.node id

/-! ### What a schema object says -/

/-- The kinds that the type of a schema names (`_type_flags`), one or a list of them; a binary text
is a file. -/
def kindsOf (type format : Json) : Kinds :=
  let names := match type with
    | .arr items => items
    | other => [other]
  let kinds := Kinds.ofList (names.filterMap fun
    | .str word => Kind.ofWord? word
    | _ => none)
  if kinds.has .string && decide (format = .str "binary") then
    (kinds.erase .string).insert .file
  else kinds

def isNullVariant : Json → Bool
  | .obj members => decide (Json.field members "type" = .str "null")
  | _ => false

/-- The variants of a union, if a schema object is one. -/
def variants? (members : List (String × Json)) : Option (List Json) :=
  match Entries.get? members "oneOf", Entries.get? members "anyOf" with
  | some (.arr variants), _ => some variants
  | _, some (.arr variants) => some variants
  | _, _ => none

/-- Keywords that do not keep a schema object from standing for its one part. -/
def neutralKeywords : List String := ["allOf", "nullable", "x-nullable", "description"]

/-- The reference that a schema object stands for because it has one part, a reference, and says
nothing else of the shape. -/
def soleReference? (members : List (String × Json)) : Option Json :=
  match Entries.get? members "allOf" with
  | some (.arr [.obj part]) =>
    if members.all fun m => neutralKeywords.contains m.1 then Entries.get? part "$ref" else none
  | _ => none

/-- The kinds of a node that names none, from what else it says. -/
def settleKinds (node : Node) : Node :=
  if node.kinds = Kinds.none then
    if !node.properties.isEmpty || node.additional.admits then
      { node with kinds := Kinds.none.insert .object }
    else if node.items.isSome then { node with kinds := Kinds.none.insert .array }
    else node
  else node

/-- Some required names with those of another shape that are not among them. -/
def addRequired (required more : List Json) : List Json :=
  more.foldl (fun names name => if names.any (Json.equal · name) then names else names ++ [name])
    required

/-- A node with the properties of another shape that it does not have itself, as
`_merge_all_of_part` adds them. -/
def absorb (node part : Node) : Node :=
  { node with
    properties := part.properties.foldl (fun ps (name, p) => Entries.putNew ps name p)
      node.properties
    required := addRequired node.required part.required
    kinds := if !part.properties.isEmpty || part.kinds.has .object then
      node.kinds.insert .object else node.kinds }

/-! ### Steps over nested schemas -/

/-- The reading of a schema, for a list of the references outside the definitions that are being
followed; null has no node. -/
abbrev ReadSchema := List String → Json → ReadingM (Option NodeId)

/-- The node of a schema, an empty one for null. -/
def nodeOf (read : ReadSchema) (trail : List String) (data : Json) : ReadingM NodeId := do
  match ← read trail data with
  | some id => return id
  | none => add {}

/-- A node that stands for another one, with null admitted if so asked. -/
def nullableNode (nullable : Bool) (id : NodeId) : ReadingM NodeId :=
  if nullable then add { reference := some id, nullable := true } else pure id

/-- A property of a node is read. -/
def readProperty (read : ReadSchema) (trail : List String) (id : NodeId)
    (property : String × Json) : ReadingM Unit := do
  match ← read trail property.2 with
  | some child =>
    change id fun n => { n with properties := Entries.put property.1 child n.properties }
  | none => return

/-- A part that a node consists of is read and absorbed as far as it is known by then. -/
def readPart (read : ReadSchema) (trail : List String) (id : NodeId) (part : Json) :
    ReadingM Unit := do
  match ← read trail part with
  | some child =>
    let shape := (← get).graph.actualNode child
    change id (absorb · shape)
  | none => return

/-- What a schema object says is put into a node (`_fill_schema`), from the simple keywords to the
parts. -/
def fill (read : ReadSchema) (trail : List String) (id : NodeId)
    (members : List (String × Json)) : ReadingM Unit := do
  let field := Json.field members
  change id fun n => { n with
    kinds := kindsOf (field "type") (field "format")
    format := field "format"
    nullable := n.nullable || Json.admitsNull members
    description := field "description"
    default := field "default" }
  let enumValues ← lift (Json.listed (field "enum"))
  change id fun n => { n with enumValues := enumValues }
  if Entries.has members "items" then
    let items ← read trail (field "items")
    change id fun n => { n with items := items }
  match field "additionalProperties" with
  | .obj shape =>
    if let some child ← read trail (.obj shape) then
      change id fun n => { n with additional := .shape child }
  | .bool true => change id fun n => { n with additional := .allowed true }
  | _ => pure ()
  let required ← lift (Json.listed (field "required"))
  change id fun n => { n with required := required }
  for property in ← lift (Json.fields (field "properties")) do
    readProperty read trail id property
  for part in ← lift (Json.listed (field "allOf")) do
    readPart read trail id part
  change id settleKinds

/-- The node of a definition (`_named_schema`), which is read if it has not been yet.  Inside a
definition the references that led to it do not count. -/
def definition (read : ReadSchema) (name : Json) : ReadingM NodeId := do
  match Entries.get? (← get).named name with
  | some id => return id
  | none =>
    let id ← add { typeName := name }
    nameNode name id
    match Entries.get? (← get).definitions name with
    | some (.obj members) =>
      match members with
      | [("$ref", _)] =>
        let target ← nodeOf read [] (.obj members)
        if target ≠ id then change id fun n => { n with reference := some target }
      | _ => fill read [] id members
    | _ => note (.untypedDefinition name)
    return id

/-- The node that a reference leads to (`_schema_from_ref`): that of the definition it ends in the
name of, or else one for the schema at the place it points to. -/
def referenced (read : ReadSchema) (trail : List String) (ref : Json) : ReadingM NodeId := do
  match ref with
  | .str ref =>
    let name := Json.str (Json.refName ref)
    let state ← get
    if Entries.has state.definitions name || Entries.has state.named name then
      definition read name
    else if trail.contains ref then throw .endless
    else nodeOf read (ref :: trail) (Json.target state.source ref)
  | _ => throw .malformed

/-- The node of a union (`_parse_union`).  One variant beside null stands for itself with null
admitted; several variants are read as an object. -/
def union (read : ReadSchema) (trail : List String) (variants : List Json) (nullable : Bool) :
    ReadingM NodeId := do
  let shapes := variants.filter (! isNullVariant ·)
  let nullable := nullable || shapes.length < variants.length
  match shapes with
  | [shape] =>
    let id ← nodeOf read trail shape
    if !nullable then return id
    else if (← node id).isNamed then nullableNode true id
    else
      change id fun n => { n with nullable := true }
      return id
  | _ =>
    note (.untypedUnion shapes.length)
    add { kinds := Kinds.none.insert .object, nullable := nullable }

/-- The node of a schema object. -/
def schemaObject (read : ReadSchema) (trail : List String) (members : List (String × Json)) :
    ReadingM NodeId := do
  let nullable := Json.admitsNull members
  match Entries.get? members "$ref" with
  | some ref => nullableNode nullable (← referenced read trail ref)
  | none =>
    match variants? members with
    | some variants => union read trail variants nullable
    | none =>
      match soleReference? members with
      | some ref => nullableNode nullable (← referenced read trail ref)
      | none =>
        let id ← add {}
        fill read trail id members
        return id

/-- The node of a schema (`_parse_schema`), given the reading of the schemas in it.  A schema that
is not an object describes anything. -/
def schemaStep (read : ReadSchema) : ReadSchema := fun trail data =>
  match data with
  | .null => return none
  | .obj members => some <$> schemaObject read trail members
  | _ => some <$> add {}

/-! ### Tying the knot -/

def schemaTo : Nat → ReadSchema
  | 0, _, _ => throw .endless
  | depth + 1, trail, data => schemaStep (schemaTo depth) trail data

/-- A bound on the depth of nested readings. -/
def depthBound (state : Reading) (data : Json) : Nat :=
  let size := state.source.count + data.count + 1
  (state.definitions.length + 2) * (size * size)

/-- The node of a schema. -/
def schema (data : Json) : ReadingM (Option NodeId) := do
  schemaTo ((← get).depthBound data) [] data

/-- The node of a definition by name. -/
def namedSchema (name : Json) : ReadingM NodeId := do
  let state ← get
  definition (schemaTo (state.depthBound .null)) name

end Reading

end ApiClients
