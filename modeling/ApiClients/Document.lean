import ApiClients.Document.Operations

/-!
# Reading documents

A document is read into its operations and the graph of its schemas, as `OASParser.parse_dict` does.
Reading starts anew with each document: what an earlier one has left behind, whether it was read to
its end or not, is dropped before anything is looked up.
-/

namespace ApiClients

/-- A document that has been read (`ParsedSpec`). -/
structure Document where
  info : Json
  operations : List Operation
  /-- The definitions with their nodes, those of promoted responses behind the declared ones. -/
  schemas : List (Json × NodeId)
  graph : Graph
  deriving Repr, Inhabited

namespace Document

def title (document : Document) : Except Failure String := do
  let members ← Json.membersOf document.info
  return ((Entries.get? members "title").map Json.plain).getD "API"

def definitions (document : Document) : List NodeId := document.schemas.map (·.2)

end Document

namespace Reading

/-- A document is read (`_parse_spec`).  An empty one is refused. -/
def document (data : Json) : ReadingM Document := do
  modify fun s => { s with source := data }
  if !data.given then throw .noDocument
  let definitions ← lift (Json.definitions data)
  modify fun s => { s with definitions := definitions, named := [], graph := {} }
  for (name, _) in definitions do
    let _ ← namedSchema name
  let operations ← operations
  let state ← get
  note (.documentRead operations.length state.named.length)
  let members ← lift (Json.membersOf data)
  return {
    info := (Entries.get? members "info").getD (.obj [])
    operations := operations
    schemas := state.named
    graph := state.graph }

/-- The document that is read by a reader, or why there is none, and the reader afterwards. -/
def read (reader : Reading) (data : Json) : Except Failure Document × Reading :=
  (document data).run.run reader

end Reading

end ApiClients
