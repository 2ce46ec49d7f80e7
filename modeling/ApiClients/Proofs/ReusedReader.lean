import ApiClients.Proofs.Passages
import ApiClients.Proofs.ReadingBeside

/-!
# A reader that is used again

A reader may be given one document after the other, some of which it cannot read.  Each of them is
read as by a new reader: it ends in the same failure or in the same document, whatever has been read
before and wherever that has stopped (`reused_reader`).

A reader of documents forgets the graph of an earlier one.  Nodes that are handed out live on,
though, and whoever holds them sees them next to the nodes of later documents.  So the same is said of
a reader that keeps all its nodes: the nodes of a document are then those of a new reader at other
addresses, none of them belongs to an earlier document, and the earlier nodes stay as they are.
-/

namespace ApiClients.Reading

section

variable {earlier : Graph}

/-! ### Parameters -/

theorem parallel_location (value : Json) :
    Parallel (Beside earlier) id (location value) (location value) := by
  refine parallel_ite (parallel_pure rfl) ?_
  dsimp only
  split
  · exact parallel_pure rfl
  · exact parallel_bind (parallel_note _ _) fun _ => parallel_pure rfl

theorem parallel_collectionFormat (value : Json) :
    Parallel (Beside earlier) id (collectionFormat value) (collectionFormat value) := by
  refine parallel_ite (parallel_pure rfl) (parallel_ite ?_ (parallel_pure rfl))
  exact parallel_bind (parallel_note _ _) fun _ => parallel_pure rfl

theorem parallel_parameterSchema (members : List (String × Json)) :
    Parallel (Beside earlier) (Option.map (earlier.size + ·)) (parameterSchema members)
      (parameterSchema members) := by
  unfold parameterSchema
  split
  · exact parallel_schema _
  · refine parallel_bind (parallel_schema _) fun made => ?_
    cases made with
    | none => exact parallel_pure rfl
    | some place =>
      refine parallel_ite ?_ (parallel_pure rfl)
      exact parallel_bind (parallel_change place fun _ => rfl) fun _ => parallel_pure rfl

theorem parallel_parameter (members : List (String × Json)) :
    Parallel (Beside earlier) (Parameter.shift earlier.size) (parameter members)
      (parameter members) := by
  refine parallel_bind (parallel_location _) fun location => ?_
  refine parallel_bind (parallel_parameterSchema members) fun schema => ?_
  cases schema with
  | none =>
    refine parallel_bind (parallel_pure (f := Node.shift earlier.size) rfl) fun shape => ?_
    exact parallel_bind (parallel_collectionFormat _) fun _ => parallel_pure rfl
  | some place =>
    refine parallel_bind (parallel_node place) fun shape => ?_
    exact parallel_bind (parallel_collectionFormat _) fun _ => parallel_pure rfl

/-- The parameters of a form lie with its properties. -/
theorem parallel_formParameters (data : Json) :
    Parallel (Beside earlier) (List.map (Parameter.shift earlier.size)) (formParameters data)
      (formParameters data) := by
  refine parallel_bind (parallel_schema data) fun made => ?_
  cases made with
  | none => exact parallel_pure rfl
  | some place =>
    refine parallel_get_bind fun s t hst => parallel_pure ?_
    rw [hst.graph, Graph.actualNode_beside, Node.properties_shift, List.map_map, List.map_map]
    refine List.map_congr_left fun property _ => ?_
    simp only [Function.comp_apply, Prod.map, Graph.node_beside]
    rfl

theorem parallel_bodyParameters (body : Json) :
    Parallel (Beside earlier) (List.map (Parameter.shift earlier.size)) (bodyParameters body)
      (bodyParameters body) := by
  refine parallel_get_bind fun s t hst => ?_
  rw [hst.source]
  refine parallel_bind (parallel_lift _) fun value => ?_
  cases value with
  | obj members =>
    refine parallel_bind (parallel_lift _) fun form => ?_
    cases form with
    | some media => exact parallel_bind (parallel_lift _) fun _ => parallel_formParameters _
    | none =>
      refine parallel_bind (parallel_lift _) fun media => ?_
      cases media with
      | none => exact parallel_pure rfl
      | some media =>
        refine parallel_bind (parallel_lift _) fun data => ?_
        exact parallel_bind (parallel_schema data) fun _ => parallel_pure rfl
  | _ => exact parallel_pure rfl

theorem parallel_operationParameters (members : List (String × Json)) (shared : Json) :
    Parallel (Beside earlier) (Option.map (List.map (Parameter.shift earlier.size)))
      (operationParameters members shared) (operationParameters members shared) := by
  unfold operationParameters
  split
  · refine parallel_bind (parallel_lift _) fun inherited => parallel_get_bind fun s t hst => ?_
    rw [hst.source]
    refine parallel_bind (parallel_lift _) fun merged => ?_
    refine parallel_bind (parallel_mapM fun entry => parallel_parameter entry.2) fun _ => ?_
    refine parallel_bind (parallel_bodyParameters _) fun _ => parallel_pure ?_
    simp
  · exact parallel_pure rfl

/-! ### Responses -/

theorem parallel_responseSchema (code : String) (data : Json) (operationId : Option String) :
    Parallel (Beside earlier) (Option.map (earlier.size + ·))
      (responseSchema code data operationId) (responseSchema code data operationId) := by
  unfold responseSchema
  cases operationId with
  | none => exact parallel_schema data
  | some operationId =>
    refine parallel_get_bind fun s t hst => ?_
    rw [hst.has_named]
    refine parallel_ite ?_ (parallel_schema data)
    refine parallel_bind (f := id) (parallel_modify fun u v huv => ?_) fun _ => ?_
    · refine ⟨huv.source, ?_, huv.named, huv.graph⟩
      exact congrArg (Entries.putNew · _ data) huv.definitions
    · rw [map_eq_pure_bind]
      exact parallel_bind (parallel_namedSchema _) fun _ => parallel_pure rfl

theorem parallel_responseOf (operationId : Option String) (code : String)
    (members : List (String × Json)) :
    Parallel (Beside earlier) (Response.shift earlier.size)
      (Serves.responseOf operationId code members) (Serves.responseOf operationId code members) := by
  have hschema : ∀ made : Option NodeId → Response, (∀ schema,
      made (schema.map (earlier.size + ·)) = (made schema).shift earlier.size) → ∀ data,
      Parallel (Beside earlier) (Response.shift earlier.size)
        (do return made (← responseSchema code data operationId))
        (do return made (← responseSchema code data operationId)) :=
    fun made hmade data => parallel_bind (parallel_responseSchema code data operationId)
      fun schema => parallel_pure (hmade schema)
  unfold Serves.responseOf
  refine parallel_bind (parallel_lift _) fun contentTypes => ?_
  split
  · exact hschema _ (fun _ => rfl) _
  · refine parallel_bind (parallel_lift _) fun media => ?_
    cases media with
    | none => exact hschema _ (fun _ => rfl) .null
    | some media => exact parallel_bind (parallel_lift _) (hschema _ fun _ => rfl)

theorem parallel_response (operationId : Option String) (code : String) (data : Json) :
    Parallel (Beside earlier) (Response.shift earlier.size) (response operationId code data)
      (response operationId code data) := by
  refine parallel_get_bind fun s t hst => ?_
  rw [hst.source]
  refine parallel_bind (parallel_lift _) fun value => ?_
  cases value <;> exact parallel_responseOf operationId code _

theorem parallel_operationResponses (operationId : Option String) (data : Json) :
    Parallel (Beside earlier)
      (Option.map (List.map (Prod.map id (Option.map (Response.shift earlier.size)))))
      (operationResponses operationId data) (operationResponses operationId data) := by
  cases data with
  | obj entries =>
    show Parallel _ _ (some <$> entries.mapM _) (some <$> entries.mapM _)
    rw [map_eq_pure_bind]
    refine parallel_bind (parallel_mapM fun entry => ?_) fun _ => parallel_pure rfl
    exact parallel_bind (parallel_response operationId entry.1 entry.2) fun _ => parallel_pure rfl
  | _ => exact parallel_pure rfl

/-! ### Operations -/

theorem parallel_operation (path method : String) (members : List (String × Json))
    (shared : Json) :
    Parallel (Beside earlier) (Operation.shift earlier.size) (operation path method members shared)
      (operation path method members shared) := by
  refine parallel_bind (parallel_operationParameters members shared) fun parameters => ?_
  exact parallel_bind (parallel_operationResponses _ _) fun _ => parallel_pure rfl

theorem parallel_pathOperations (path : String) (item : Json) :
    Parallel (Beside earlier) (List.map (Operation.shift earlier.size)) (pathOperations path item)
      (pathOperations path item) := by
  unfold pathOperations
  split
  · exact parallel_mapM fun entry => parallel_operation path entry.1 entry.2 _
  · exact parallel_pure rfl

theorem parallel_operations :
    Parallel (Beside earlier) (List.map (Operation.shift earlier.size)) operations operations := by
  refine parallel_get_bind fun s t hst => ?_
  rw [hst.source]
  refine parallel_bind (parallel_lift _) fun members => ?_
  refine parallel_bind (parallel_lift _) fun paths => ?_
  refine parallel_bind (parallel_mapM fun entry => parallel_pathOperations entry.1 entry.2)
    fun found => parallel_pure ?_
  rw [List.map_flatten]

/-! ### Documents -/

/-- What a document says, given its definitions. -/
def readContents (data : Json) (defs : List (Json × Json)) : ReadingM Document := do
  readDefinitions defs
  let operations ← operations
  let state ← get
  note (.documentRead operations.length state.named.length)
  let members ← lift (Json.membersOf data)
  return {
    info := (Entries.get? members "info").getD (.obj [])
    operations := operations
    schemas := state.named
    graph := state.graph }

theorem parallel_readContents (data : Json) (defs : List (Json × Json)) :
    Parallel (Beside earlier) (Document.beside earlier) (readContents data defs)
      (readContents data defs) := by
  refine parallel_bind (parallel_forIn fun entry => parallel_namedSchema entry.1) fun _ => ?_
  refine parallel_bind parallel_operations fun operations => ?_
  refine parallel_get_bind fun s t hst => ?_
  refine parallel_bind (parallel_note _ _) fun _ => ?_
  refine parallel_bind (parallel_lift _) fun members => parallel_pure ?_
  rw [hst.named, hst.graph]
  rfl

end

/-- The reading of a document that starts from what is kept of the graph. -/
def documentKeeping (kept : Graph → Graph) (data : Json) : ReadingM Document := do
  modify fun s => { s with source := data }
  if !data.given then throw .noDocument
  let defs ← lift (Json.definitions data)
  modify fun s => { s with definitions := defs, named := [], graph := kept s.graph }
  readContents data defs

/-- Nothing is kept where documents are read. -/
theorem document_keepingNothing (data : Json) :
    document data = documentKeeping (fun _ => {}) data :=
  document_eq data

/-- A document is read as it is from nothing, whatever the reader has read before; what is kept of
the graph comes first. -/
theorem documentKeeping_beside (kept : Graph → Graph) (reader : Reading) (data : Json) :
    (runStep (documentKeeping kept data) reader).1 =
        (runStep (document data) {}).1.map (·.beside (kept reader.graph))
      ∧ ((runStep (documentKeeping kept data) reader).2.graph = reader.graph
        ∨ ∃ graph, (runStep (documentKeeping kept data) reader).2.graph =
          (kept reader.graph).beside graph) := by
  rw [document_keepingNothing]
  unfold documentKeeping
  rw [runStep_bind_of_ok (runStep_modify _ _), runStep_bind_of_ok (runStep_modify _ _)]
  cases hgiven : data.given with
  | false => exact ⟨rfl, .inl rfl⟩
  | true =>
    cases hdefs : Json.definitions data with
    | error failure => exact ⟨rfl, .inl rfl⟩
    | ok defs =>
      have hstart : Beside (kept reader.graph) (begin {} data defs)
          { reader with
            source := data, definitions := defs, named := [], graph := kept reader.graph } := by
        refine ⟨rfl, rfl, rfl, ?_⟩
        simp [begin, Graph.beside]
      obtain ⟨houtcome, hafter⟩ := parallel_readContents data defs _ _ hstart
      exact ⟨houtcome, .inr ⟨_, hafter.graph⟩⟩

/-! ### One reader for many documents -/

/-- The outcomes of reading documents one after the other, each with the reader that the one before
has left. -/
def readAll (reader : Reading) : List Json → List (Except Failure Document)
  | [] => []
  | data :: rest => (reader.read data).1 :: readAll (reader.read data).2 rest

/-- A document is read by a reader that keeps its nodes. -/
def readBeside (reader : Reading) (data : Json) : Except Failure Document × Reading :=
  (documentKeeping (fun graph => graph) data).run.run reader

/-- The outcomes of reading documents with a reader that keeps its nodes, each with the nodes that
were there before. -/
def readAllBeside (reader : Reading) : List Json → List (Graph × Except Failure Document)
  | [] => []
  | data :: rest =>
    (reader.graph, (reader.readBeside data).1) :: readAllBeside (reader.readBeside data).2 rest

/-- The nodes of earlier documents stay as they are when another one is read, also when its reading
fails. -/
theorem node_readBeside (reader : Reading) (data : Json) {id : NodeId}
    (h : id < reader.graph.size) :
    (reader.readBeside data).2.graph.node id = reader.graph.node id := by
  rcases (documentKeeping_beside (fun graph => graph) reader data).2 with hsame | ⟨graph, hgraph⟩
  · exact congrArg (Graph.node · id) hsame
  · exact (congrArg (Graph.node · id) hgraph).trans (Graph.node_beside_of_lt _ _ h)

theorem readBeside_outcome (reader : Reading) (data : Json) :
    (reader.readBeside data).1 = (read {} data).1.map (·.beside reader.graph) :=
  (documentKeeping_beside (fun graph => graph) reader data).1

/-- What a reader has read before makes no difference. -/
theorem read_outcome (reader : Reading) (data : Json) :
    (reader.read data).1 = (read {} data).1 := by
  have hreads : ∀ reader : Reading,
      (reader.read data).1 = (read {} data).1.map (·.beside {}) := by
    intro reader
    have hkeeping := (documentKeeping_beside (fun _ => {}) reader data).1
    rw [← document_keepingNothing] at hkeeping
    exact hkeeping
  rw [hreads reader]
  exact (hreads {}).symm

/-- A reader that is used again reads every document as a new reader does: with the same failure or
the same document, whatever came before.  Where the nodes of earlier documents are kept, those of a
document come after them, and it refers to none of them. -/
theorem reused_reader (reader : Reading) (documents : List Json) :
    readAll reader documents = documents.map (fun data => (read {} data).1)
      ∧ List.Forall₂
        (fun data entry => entry.2 = (read {} data).1.map (·.beside entry.1))
        documents (readAllBeside reader documents) := by
  constructor
  · induction documents generalizing reader with
    | nil => rfl
    | cons data rest ih => rw [readAll, List.map_cons, read_outcome, ih]
  · induction documents generalizing reader with
    | nil => exact .nil
    | cons data rest ih => exact .cons (readBeside_outcome reader data) (ih _)

end ApiClients.Reading
