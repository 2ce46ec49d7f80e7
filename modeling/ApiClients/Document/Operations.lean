import ApiClients.Document.Schemas
import ApiClients.Identifier
import ApiClients.Operation

/-!
# Reading operations

The operations of a document, path by path and in a fixed order of methods: what `_parse_operations`
and the methods under it take from the paths of a document.  The parameters of a
path hold for all its operations, which may replace them one by one; the body of a request becomes a
body parameter, or one form parameter for each of its properties.  A success response that spells
out an object gets a definition of its own, named after the operation, unless the name is used.
-/

namespace ApiClients.Reading

/-- The methods of operations, in the order in which they are read. -/
def methods : List String :=
  ["get", "put", "post", "delete", "options", "head", "patch", "trace"]

/-! ### Content -/

def formTypes : List String := ["multipart/form-data", "application/x-www-form-urlencoded"]

def preferredTypes : List String := ["application/json", "text/json", "application/octet-stream"]

/-- The description under the first of some media types that content has.  Content given as a list
has none, and is malformed if such a type is among its items. -/
def described? (content : Json) (types : List String) : Except Failure (Option Json) :=
  if !content.given then .ok none
  else
    match content with
    | .obj members => .ok (types.findSome? (Entries.get? members ·))
    | .arr items =>
      if types.any fun type => items.contains (.str type) then .error .malformed else .ok none
    | _ => .error .malformed

/-- The item of a list at a place, which is counted from the end if it is negative. -/
def itemAt? (items : List Json) (place : Int) : Option Json :=
  let index := if place < 0 then items.length + place else place
  if index < 0 then none else items[index.toNat]?

/-- The first description in content.  The first item of a list says the place of the item that is
taken for one; true counts as one and false as zero. -/
def firstDescription? (content : Json) : Except Failure (Option Json) :=
  if !content.given then .ok none
  else
    match content with
    | .obj members => .ok (members.head?.map (·.2))
    | .arr items =>
      let described := match items.head? with
        | some (.int place) => itemAt? items place
        | some (.bool yes) => itemAt? items (if yes then 1 else 0)
        | _ => none
      match described with
      | some description => .ok (some description)
      | none => .error .malformed
    | _ => .error .malformed

/-- The description of a body that represents its content (`_select_content`): that of a preferred
media type, or else the first. -/
def representative? (content : Json) : Except Failure (Option Json) := do
  match ← described? content preferredTypes with
  | some description => return some description
  | none => firstDescription? content

/-- The schema that a media type describes a body with. -/
def mediaSchema (media : Json) : Except Failure Json :=
  (Json.membersOf media).map (Json.field · "schema")

/-! ### Parameters -/

/-- The location that a parameter names (`_parameter_location`): the query if it names none, or none
that there is. -/
def location (value : Json) : ReadingM Location := do
  if !value.given then return .query
  else
    let known := match value with
      | .str word => Location.ofWord? word
      | _ => none
    match known with
    | some location => return location
    | none =>
      note (.unknownLocation value)
      return .query

/-- The collection format that a parameter names (`_collection_format`), if there is one of that
name. -/
def collectionFormat (value : Json) : ReadingM (Option CollectionFormat) := do
  if !value.given then return none
  else
    let known := match value with
      | .str word => CollectionFormat.ofWord? word
      | _ => none
    if known.isNone then note (.unknownCollectionFormat value)
    return known

def inlineKeywords : List String := ["type", "format", "items", "enum", "default"]

/-- The schema of a parameter: under its keyword, or spelled out in the parameter itself. -/
def parameterSchema (members : List (String × Json)) : ReadingM (Option NodeId) := do
  match Entries.get? members "schema" with
  | some data => schema data
  | none =>
    let inline := inlineKeywords.filterMap fun key =>
      (Entries.get? members key).map fun value => (key, value)
    let node ← schema (.obj inline)
    if let some id := node then
      if Json.flag members "x-nullable" then change id fun n => { n with nullable := true }
    return node

/-- A parameter (`_parse_parameter`). -/
def parameter (members : List (String × Json)) : ReadingM Parameter := do
  let location ← location (Json.field members "in")
  let schema ← parameterSchema members
  let node ← match schema with
    | some id => node id
    | none => pure {}
  let format := Json.field members "collectionFormat"
  let exploded := decide (format = .null) && Json.flag members "explode" && node.isArray
  let collectionFormat ← collectionFormat (if exploded then .str "multi" else format)
  return {
    name := Json.field members "name"
    location := location
    required := match Entries.get? members "required" with
      | some value => value.given
      | none => decide (location = .path)
    schema := schema
    collectionFormat := collectionFormat
    deprecated := Json.flag members "deprecated"
    default := (Entries.get? members "default").getD node.default
    description := Json.field members "description" }

/-- Whether two parameters are one by their names and locations. -/
def sameIdentity (a b : Json × Json) : Bool := Json.equal a.1 b.1 && Json.equal a.2 b.2

/-- The parameters with an entry of a parameter list taken in, a reference followed once; what is
not an object or has no name is passed over. -/
def takeParameter (source : Json)
    (parameters : List ((Json × Json) × List (String × Json))) (entry : Json) :
    Except Failure (List ((Json × Json) × List (String × Json))) := do
  match ← Json.dereference source entry with
  | .obj members =>
    if !Json.flag members "name" then return parameters
    else
      let name := Json.field members "name"
      let place := (Entries.get? members "in").getD (.str "query")
      if name.isKey && place.isKey then
        return Entries.putAlike sameIdentity (name, place) members parameters
      else throw .malformed
  | _ => return parameters

/-- The parameters of a form (`_parse_form_parameters`), one for each property of its schema. -/
def formParameters (data : Json) : ReadingM (List Parameter) := do
  match ← schema data with
  | none => return []
  | some id =>
    let graph := (← get).graph
    let shape := graph.actualNode id
    return shape.properties.map fun (name, child) =>
      { name := .str name
        location := .formData
        required := shape.required.any (Json.equal · (.str name))
        schema := some child
        description := (graph.node child).description }

/-- The parameters that the body of a request becomes (`_parse_request_body`). -/
def bodyParameters (body : Json) : ReadingM (List Parameter) := do
  match ← lift (Json.dereference (← get).source body) with
  | .obj members =>
    let content := Json.field members "content"
    match ← lift (described? content formTypes) with
    | some media => formParameters (← lift (mediaSchema media))
    | none =>
      match ← lift (representative? content) with
      | none => return []
      | some media =>
        let schema ← schema (← lift (mediaSchema media))
        return [{
          name := (Entries.get? members "x-name").getD (.str "body")
          location := .body
          required := Json.flag members "required"
          schema := schema
          description := Json.field members "description" }]
  | _ => return []

/-- The parameters of an operation (`_parse_operation_parameters`): those of its path, its own in
their places or behind them, and those of its body.  There are none if its parameter list is not a
list. -/
def operationParameters (members : List (String × Json)) (shared : Json) :
    ReadingM (Option (List Parameter)) := do
  match (Entries.get? members "parameters").getD (.arr []) with
  | .arr own =>
    let shared ← lift (Json.listed shared)
    let source := (← get).source
    let merged ← lift ((shared ++ own).foldlM (takeParameter source) [])
    let parameters ← merged.mapM fun (_, members) => parameter members
    return some (parameters ++ (← bodyParameters (Json.field members "requestBody")))
  | _ => return none

/-! ### Responses -/

/-- Whether a schema that a response spells out gets a definition
(`_should_create_response_model`): an object with properties, under a success code. -/
def isPromoted (code : String) (data : Json) : Bool :=
  match data with
  | .obj members =>
    code.toList.head? == some '2' && !Entries.has members "$ref"
      && decide ((Entries.get? members "type").getD (.str "object") = .str "object")
      && Json.flag members "properties"
  | _ => false

/-- The name of the definition that the response of an operation gets. -/
def responseName (operationId : String) : String :=
  Identifier.pascalNormalized operationId ++ "Response"

/-- The schema of a response (`_response_schema`), under a name of its own if it gets a
definition. -/
def responseSchema (code : String) (data : Json) (operationId : Option String) :
    ReadingM (Option NodeId) := do
  match operationId with
  | none => schema data
  | some id =>
    let name := Json.str (responseName id)
    if isPromoted code data && !id.isEmpty && !Entries.has (← get).named name then
      modify fun s => { s with definitions := Entries.putNew s.definitions name data }
      some <$> namedSchema name
    else schema data

/-- A response (`_parse_response`). -/
def response (operationId : Option String) (code : String) (data : Json) : ReadingM Response := do
  let members := match ← lift (Json.dereference (← get).source data) with
    | .obj members => members
    | _ => []
  let content := Json.field members "content"
  let contentTypes ← lift (Json.listed content)
  let data ← match Entries.get? members "schema" with
    | some data => pure data
    | none =>
      match ← lift (representative? content) with
      | none => pure .null
      | some media => lift (mediaSchema media)
  let schema ← responseSchema code data operationId
  return {
    schema := schema
    nullable := Json.flag members "x-nullable"
    description := (Entries.get? members "description").getD (.str "")
    contentTypes := contentTypes }

/-- The responses of an operation by status code (`_parse_responses`); there are none if they are
not a map. -/
def operationResponses (operationId : Option String) (data : Json) :
    ReadingM (Option (List (String × Option Response))) := do
  match data with
  | .obj entries =>
    some <$> entries.mapM fun (code, data) => do
      return (code, some (← response operationId code data))
  | _ => return none

/-! ### Operations -/

/-- The tags of an operation; a single value counts as a list of one. -/
def tags (value : Json) : List String :=
  let items := if !value.given then [] else
    match value with
    | .arr items => items
    | other => [other]
  (items.filter (· ≠ .null)).map Json.plain

/-- An operation (`_parse_operation`). -/
def operation (path method : String) (members : List (String × Json)) (shared : Json) :
    ReadingM Operation := do
  let operationId := match Json.field members "operationId" with
    | .null => none
    | id => some id.plain
  let parameters ← operationParameters members shared
  let responses ← operationResponses operationId (Json.field members "responses")
  return {
    method := Text.upper method
    path := path
    operationId := operationId
    tags := tags (Json.field members "tags")
    parameters := parameters
    responses := responses
    summary := Json.field members "summary"
    description := Json.field members "description"
    deprecated := Json.flag members "deprecated" }

/-- The operations of a path; an entry that is not an object has none. -/
def pathOperations (path : String) (item : Json) : ReadingM (List Operation) := do
  match item with
  | .obj members =>
    let found := methods.filterMap fun method =>
      match Json.field members method with
      | .obj operation => some (method, operation)
      | _ => none
    found.mapM fun (method, data) => operation path method data (Json.field members "parameters")
  | _ => return []

def operations : ReadingM (List Operation) := do
  let members ← lift (Json.membersOf (← get).source)
  let paths ← lift (Json.fields (Json.field members "paths"))
  let found ← paths.mapM fun (path, item) => pathOperations path item
  return found.flatten

end ApiClients.Reading
