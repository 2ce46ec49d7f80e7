import ApiClients.Proofs.ParameterTable
import ApiClients.Proofs.ResponseTable

/-!
# Flags of null

A row of a model says whether its value may be null, and its type says so too.  For a parameter both
go by one rule.  For a response they do not: its flag leaves out the node that carries the shape of
its schema, so flag and type agree unless null is admitted by this node alone (`flags_of_build`).
-/

namespace ApiClients

namespace Builder

variable {builder : Builder} {operation : Operation} {model : OperationModel} {s t : Typing}

/-- The flag of a parameter, and what its type is resolved with. -/
structure ParameterFlag (builder : Builder) (parameter : Parameter) (row : ParameterModel) :
    Prop where
  declared : row.isNullable = (!parameter.required || admitsNull builder.graph parameter.schema)
  used : ∀ id, parameter.schema = some id →
    row.isNullable = Resolver.admitsNull builder.graph id (builder.parameterUsage parameter)
      ∧ ∃ s t, runStep (builder.resolver.typeAs builder.graph row.isNullable id
          (builder.parameterUsage parameter)) s = (.ok row.type, t)

/-- The flag of a response, and what its type is resolved with. -/
structure ResponseFlag (builder : Builder) (response : Response) (row : ResponseModel) :
    Prop where
  declared : row.isNullable =
    (response.nullable || response.schema.any fun id => (builder.graph.node id).isNullable)
  used : ∀ id, response.schema = some id →
    let usage := Responses.usage row.isSuccess response
    let admitted := Resolver.admitsNull builder.graph id usage
    (row.isNullable = admitted ↔
        ((builder.graph.actualNode id).isNullable = true → row.isNullable = true))
      ∧ ∃ s t, runStep (builder.resolver.typeAs builder.graph admitted id usage) s =
          (.ok row.type, t)

theorem ParameterRow.flag {P : Typing → Prop} {parameters : List Parameter} {parameter : Parameter}
    {row : ParameterModel} (h : builder.ParameterRow P parameters parameter row) :
    builder.ParameterFlag parameter row := by
  refine ⟨h.isNullable_eq, ?_⟩
  intro id hschema
  obtain ⟨hused, s, t, -, -, htype⟩ := h.typed hschema
  exact ⟨hused, s, t, htype⟩

theorem responseFlag_of_row {codes : List String} {entry : String × Response} {type : String}
    (htype : runStep (builder.resolver.resolve builder.graph entry.2.schema
      (Responses.usage ((Responses.successCodes codes).contains entry.1) entry.2)) s =
        (.ok type, t)) :
    builder.ResponseFlag entry.2
      (Responses.row builder.language builder.graph codes entry type) := by
  refine ⟨rfl, ?_⟩
  intro id hschema usage admitted
  rw [hschema, Resolver.resolve_eq_typeAs] at htype
  refine ⟨?_, s, t, htype⟩
  have hflag : (Responses.row builder.language builder.graph codes entry type).isNullable
      = (entry.2.nullable || (builder.graph.node id).isNullable) := by
    rw [Responses.row, hschema]
    rfl
  have hadmitted : admitted = (entry.2.nullable || (builder.graph.node id).isNullable
      || (builder.graph.actualNode id).isNullable) := rfl
  rw [hadmitted, ← hflag]
  exact Bool.eq_self_or

/-- In a model that is built the flag of each parameter is what its type is resolved with.  The flag
of a response with a schema is this exactly if it is set where the node that carries the shape of the
schema admits null. -/
theorem flags_of_build (h : runStep (builder.build operation) s = (.ok model, t)) :
    (∃ parameters rows, operation.parameters = some parameters
      ∧ model.parameters = arrange builder.settings rows
      ∧ List.Forall₂ builder.ParameterFlag parameters rows)
    ∧ ∃ responses,
      operation.responses = some (responses.map fun (code, response) => (code, some response))
      ∧ List.Forall₂ (fun entry row => builder.ResponseFlag entry.2 row) responses
        model.responses := by
  obtain ⟨-, parameters, identifiers, rows, u, v, hstages⟩ := build_stages h
  have hkept := builder.resolver.keeps_true builder.graph
  constructor
  · obtain ⟨-, hrows⟩ := hstages.parameterRows hkept trivial
    exact ⟨parameters, rows, hstages.declared, hstages.arranged, hrows.imp fun _ _ hrow => hrow.flag⟩
  · obtain ⟨responses, hchecked⟩ := Responses.checked_of_models hstages.responses
    obtain ⟨-, hrows⟩ := Responses.rows_of_models hkept hchecked trivial hstages.responses
    refine ⟨responses, Responses.declared_of_checked hchecked, hrows.imp ?_⟩
    rintro entry row ⟨_, type, _, -, htype, rfl⟩
    exact responseFlag_of_row htype

/-- A definition that stands for a name or null.  It is the schema of the parameter and of the
response. -/
def aliasData : Json :=
  let shape := Json.obj [("$ref", .str "#/components/schemas/Alias")]
  .obj [
    ("openapi", .str "3.0.0"),
    ("paths", .obj [("/name", .obj [("get", .obj [
      ("parameters", .arr [.obj [
        ("name", .str "name"), ("in", .str "query"), ("required", .bool true),
        ("schema", shape)]]),
      ("responses", .obj [("200", .obj [
        ("content", .obj [("application/json", .obj [("schema", shape)])])])])])])]),
    ("components", .obj [("schemas", .obj [
      ("Name", .obj [("type", .str "string"), ("nullable", .bool true)]),
      ("Alias", .obj [("$ref", .str "#/components/schemas/Name")])])])]

def aliasGraph : Graph where
  nodes := #[
    { kinds := Kinds.ofList [.string], typeName := .str "Name", nullable := true },
    { typeName := .str "Alias", reference := some 0 }]

def aliasOperation : Operation where
  method := "GET"
  path := "/name"
  parameters := some [{ name := .str "name", required := true, schema := some 1 }]
  responses := some [("200", some { schema := some 1, contentTypes := [.str "application/json"] })]

def aliasBuilder : Builder where
  settings := {}
  resolver := Resolver.ofLanguage Language.rust
  graph := aliasGraph
  names := [("GET /name", ⟨"", "getName"⟩)]

theorem flags_of_build_alias : ∃ model t,
    runStep (aliasBuilder.build aliasOperation) {} = (.ok model, t)
      ∧ model.parameters.map (·.isNullable) = [true]
      ∧ ∃ responses,
        aliasOperation.responses = some (responses.map fun (code, response) => (code, some response))
        ∧ List.Forall₂ (fun entry row => aliasBuilder.ResponseFlag entry.2 row) responses
          model.responses := by
  have hflags : (runStep (aliasBuilder.build aliasOperation) {}).1.toOption.map
      (·.parameters.map (·.isNullable)) = some [true] := by decide +kernel
  obtain ⟨model, hmodel, hflags⟩ := Except.ok_of_toOption_map hflags
  have hrun : runStep (aliasBuilder.build aliasOperation) {} = (.ok model, _) :=
    Prod.ext hmodel rfl
  exact ⟨model, _, hrun, hflags, (flags_of_build hrun).2⟩

/-- The parameter and the response have one schema and one type, an option, but only the parameter is
said to be nullable. -/
theorem null_of_alias_unsaid : ∃ document s report,
    Reading.read {} aliasData = (.ok document, s)
      ∧ document.operations = [aliasOperation]
      ∧ (document.graph.actualNode 1).isNullable = true
      ∧ (Generation.report { language := "rust" } document.graph document.definitions
          document.operations []).1 = .ok report
      ∧ report.models.map (fun model => (model.parameters.map fun row => (row.type, row.isNullable),
          model.responses.map fun row => (row.type, row.isNullable)))
        = [([("Option<String>", true)], [("Option<String>", false)])] := by
  have hvisit : aliasGraph.typeDefinitions (Generation.roots [0, 1] [aliasOperation]) = [] := by
    have hwalk : aliasGraph.visit [] (Generation.roots [0, 1] [aliasOperation]) = [0, 1] := by
      simp [Graph.visit, aliasGraph, Graph.node, Node.children, Generation.roots, aliasOperation,
        Operation.schemas]
    rw [Graph.typeDefinitions, hwalk]
    decide +kernel
  have hrows : (Generation.report { language := "rust" } aliasGraph [0, 1] [aliasOperation]
      []).1.toOption.map (·.models.map fun model =>
        (model.parameters.map fun row => (row.type, row.isNullable),
          model.responses.map fun row => (row.type, row.isNullable)))
      = some [([("Option<String>", true)], [("Option<String>", false)])] := by
    unfold Generation.report Generation.run Generation.prepare
    rw [hvisit]
    decide +kernel
  obtain ⟨document, s, report, hread, hgraph, hoperations, hreport, hrows⟩ :=
    Reading.report_of_parts aliasData [(.str "Name", 0), (.str "Alias", 1)] (by decide +kernel)
      hrows
  refine ⟨document, s, report, hread, hoperations, ?_, hreport, hrows⟩
  rw [hgraph]
  decide +kernel

end Builder

end ApiClients
