import ApiClients.Model

/-!
# A generation pass

A pass over the operations of a document (`generate_models`) has two phases.  The first gives every
operation its names
and every type definition within reach its emitted name, and freezes the registry.  The second
builds the model of each operation; an operation that cannot be built is listed with the reason and
leaves the others alone.
-/

namespace ApiClients

/-- An operation that could not be built. -/
structure OperationFailure where
  key : String
  reason : String
  deriving DecidableEq, Repr, Inhabited

/-- The outcome of a pass (`GenerationReport`). -/
structure Report where
  models : List OperationModel
  failures : List OperationFailure
  /-- The emitted names with their nodes, in the order in which they were given. -/
  namedTypes : List (String × NodeId)
  deriving DecidableEq, Repr, Inhabited

namespace Report

def isPartial (report : Report) : Bool := !report.failures.isEmpty

def succeeded (report : Report) : List String := report.models.map (·.key)

/-- A model put behind the others of its client. -/
def addToClient (groups : List (String × List OperationModel)) (model : OperationModel) :
    List (String × List OperationModel) :=
  match groups with
  | [] => [(model.client, [model])]
  | (client, models) :: rest =>
    if client = model.client then (client, models ++ [model]) :: rest
    else (client, models) :: addToClient rest model

/-- The models by client, clients in the order of first use. -/
def clients (report : Report) : List (String × List OperationModel) :=
  report.models.foldl addToClient []

/-- The emitted names with their nodes, in the order of the names. -/
def sortedTypes (report : Report) : List (String × NodeId) := Entries.sortByKey report.namedTypes

end Report

namespace Generation

/-- The nodes that have to be named (`_schema_roots`): those of the schemas to emit and those that
operations refer to. -/
def roots (schemas : List NodeId) (operations : List Operation) : List NodeId :=
  schemas ++ operations.flatMap Operation.schemas

/-- An operation is built; a failure of its own is noted and becomes its outcome. -/
def attempt (builder : Builder) (operation : Operation) :
    TypingM (OperationModel ⊕ OperationFailure) :=
  tryCatch (Sum.inl <$> builder.build operation) fun failure =>
    if failure.ofOperation then do
      Typing.note (.skipped operation.key failure)
      return .inr ⟨operation.key, failure.message⟩
    else throw failure

/-- The first phase: the names of operations, and the type definitions within reach registered. -/
def prepare (settings : Settings) (language : Language) (graph : Graph) (schemas : List NodeId)
    (operations : List Operation) : TypingM Builder := do
  let names := Naming.assign settings.policy operations
  Registry.register language graph (graph.typeDefinitions (roots schemas operations))
  Registry.freeze
  Typing.note (.named names.length (← get).registry.definitions.length)
  return ⟨settings, Resolver.ofLanguage language, graph, names⟩

/-- The second phase: the outcomes of all operations, in their order. -/
def outcomes (builder : Builder) (operations : List Operation) :
    TypingM (List (OperationModel ⊕ OperationFailure)) :=
  operations.mapM (attempt builder)

/-- A pass over some operations, with the schemas that are emitted even if no operation uses
them. -/
def run (settings : Settings) (graph : Graph) (schemas : List NodeId)
    (operations : List Operation) : TypingM Report := do
  let language ← Typing.lift settings.targetLanguage
  let builder ← prepare settings language graph schemas operations
  let outcomes ← outcomes builder operations
  return {
    models := outcomes.filterMap Sum.getLeft?
    failures := outcomes.filterMap Sum.getRight?
    namedTypes := (← get).registry.definitions }

/-- The report of a pass, or why there is none, and the journal with the events of the pass behind
those noted before. -/
def report (settings : Settings) (graph : Graph) (schemas : List NodeId)
    (operations : List Operation) (journal : Journal) : Except Failure Report × Journal :=
  let (outcome, state) := (run settings graph schemas operations).run.run { journal := journal }
  (outcome, state.journal)

end Generation

end ApiClients
