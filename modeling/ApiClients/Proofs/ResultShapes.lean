import ApiClients.Proofs.BuiltModels
import ApiClients.Proofs.ParameterTable
import ApiClients.Proofs.ResponseTable
import ApiClients.Proofs.SharedNames

/-!
# Absent results and files

Whether a response has a result, and whether this is a file, is read off its finished type.  Of every
row of a pass it can be said what its type is made of.  A row has no type exactly if its response has
no schema; it is one of a file if the schema is a file, but also if the schema is a type definition
that is emitted under the name of a file's type (`Shaped`).  A result is wrapped exactly if its row is
not one of a file (`results_by_shape`).
-/

namespace ApiClients

/-! ### Rows by shape -/

/-- A type definition is emitted under the name that the type of a returned file has, and the type of
the definition is not marked. -/
structure Resolver.NamedAsFile (language : Language) (graph : Graph) (registry : Registry)
    (nullable : Bool) (id : NodeId) : Prop where
  definition : (graph.actualNode id).isTypeDefinition = true
  name : registry.nameOf? (graph.actual id) = some language.fileResponse
  unmarked : language.nullableIf nullable language.fileResponse = language.fileResponse

namespace Responses

/-- What a row says of the shape of its schema. -/
structure Shaped (language : Language) (graph : Graph) (registry : Registry) (response : Response)
    (row : ResponseModel) : Prop where
  hasType : row.hasType = false ↔ response.schema = none
  isFile : row.isFile = true ↔ ∃ id, response.schema = some id ∧ (graph.isFileShape id = true
    ∨ Resolver.NamedAsFile language graph registry
      (Resolver.admitsNull graph id (usage row.isSuccess response)) id)

theorem void_ne_fileResponse {language : Language} (hlanguage : language ∈ Language.known) :
    language.void ≠ language.fileResponse :=
  (Resolver.fileType_ne_void hlanguage (usage true {})).symm

theorem shaped_of_row {language : Language} {graph : Graph} {registry : Registry}
    (hlanguage : language ∈ Language.known) (hnamed : registry.WellNamed language graph)
    {codes : List String} {entry : String × Response} {type : String} {s t : Typing}
    (ht : t.registry = registry)
    (hrun : runStep ((Resolver.ofLanguage language).resolve graph entry.2.schema
      (usage ((successCodes codes).contains entry.1) entry.2)) s = (.ok type, t)) :
    Shaped language graph registry entry.2 (row language graph codes entry type) := by
  have htyped : (row language graph codes entry type).hasType = false ↔ type = language.void := by
    simp [ResponseModel.hasType, row]
  have hfiles : (row language graph codes entry type).isFile = true
      ↔ type = language.fileResponse := by
    simp [row]
  cases hschema : entry.2.schema with
  | none =>
    rw [hschema] at hrun
    cases hrun
    constructor
    · rw [htyped, hschema]
      exact iff_of_true rfl rfl
    · rw [hfiles, hschema]
      refine iff_of_false (void_ne_fileResponse hlanguage) ?_
      rintro ⟨id, hid, -⟩
      cases hid
  | some id =>
    rw [hschema, Resolver.resolve_eq_typeAs] at hrun
    have hmade := Resolver.made_of_typeAs hrun
    rw [ht] at hmade
    constructor
    · rw [htyped, hschema]
      exact iff_of_false (hmade.ne_void hlanguage hnamed) (by simp)
    · rw [hfiles, hmade.eq_fileResponse_iff hlanguage rfl, hschema]
      constructor
      · rintro (hfile | ⟨hdefinition, hname, hmark⟩)
        · exact ⟨id, rfl, .inl hfile⟩
        · exact ⟨id, rfl, .inr ⟨hdefinition, hname, hmark⟩⟩
      · rintro ⟨_, ⟨⟩, hfile | ⟨hdefinition, hname, hmark⟩⟩
        · exact .inl hfile
        · exact .inr ⟨hdefinition, hname, hmark⟩

end Responses

/-! ### Results -/

namespace Builder

variable {settings : Settings} {language : Language} {unwrapped client : String}

/-- What a result to come is of where results are wrapped: of the wrapper, around the type if there
is one. -/
def wrapped (settings : Settings) (language : Language) (unwrapped client : String) : String :=
  if unwrapped = language.void then settings.responseClassName client
  else Language.genericOf (settings.responseClassName client) unwrapped

theorem resultType_wrapped (hwrap : settings.wrapResponses = true) :
    resultType settings language unwrapped client =
      if unwrapped = language.fileResponse then language.asyncOf unwrapped
      else language.asyncOf (wrapped settings language unwrapped client) := by
  unfold resultType wrapped
  by_cases hfile : unwrapped = language.fileResponse
  · rw [if_pos hfile, if_pos hfile, hfile]
  · rw [if_neg hfile, if_neg hfile, if_pos hwrap]
    by_cases hvoid : unwrapped = language.void
    · rw [if_pos hvoid, if_pos hvoid]
    · rw [if_neg hvoid, if_neg hvoid]

/-- A wrapper around a type makes another result of it. -/
theorem asyncOf_wrapped_ne (hlanguage : language ∈ Language.known)
    (htype : unwrapped ≠ language.void) :
    language.asyncOf (wrapped settings language unwrapped client) ≠ language.asyncOf unwrapped := by
  have hvoid : Language.genericOf (settings.responseClassName client) unwrapped ≠ language.void := by
    have hmark : ∀ language ∈ Language.known, '>' ∉ language.void.toList := by decide
    intro hvoid
    apply hmark language hlanguage
    rw [← hvoid]
    simp [Language.genericOf]
  have hlonger : Language.genericOf (settings.responseClassName client) unwrapped ≠ unwrapped := by
    intro hsame
    have hsize := congrArg String.utf8ByteSize hsame
    have hbracket : "<".utf8ByteSize = 1 := by decide
    simp only [Language.genericOf, String.utf8ByteSize_append] at hsize
    omega
  rw [wrapped, if_neg htype, Language.asyncOf, Language.asyncOf, if_neg hvoid, if_neg htype]
  intro hsame
  exact hlonger (Frame.around_injective _ hsame)

end Builder

/-! ### The models of a pass -/

/-- What a model says of the shapes of its responses, and what its result is made of. -/
structure OperationModel.ByShape (settings : Settings) (language : Language) (graph : Graph)
    (registry : Registry) (operation : Operation) (model : OperationModel) : Prop where
  key : model.key = operation.key
  rows : ∃ responses,
    operation.responses = some (responses.map fun (code, response) => (code, some response))
      ∧ List.Forall₂ (fun entry row => Responses.Shaped language graph registry entry.2 row)
        responses model.responses
  result : settings.wrapResponses = true → model.result =
    if model.primary.any (·.isFile) then language.asyncOf model.unwrappedResult
    else language.asyncOf (Builder.wrapped settings language model.unwrappedResult model.client)
  /-- Where there is a result, this says whether it is wrapped. -/
  unwrapped : settings.wrapResponses = true → model.hasResult = true →
    (model.result = language.asyncOf model.unwrappedResult ↔ model.primary.any (·.isFile) = true)

namespace Builder

variable {settings : Settings} {language : Language} {graph : Graph} {registry : Registry}
  {names : List (String × Naming.OperationName)} {operation : Operation} {model : OperationModel}
  {s t : Typing}

theorem byShape_of_build (hlanguage : language ∈ Language.known)
    (hnamed : registry.WellNamed language graph) (hfrozen : registry.frozen = true)
    (hs : s.registry = registry)
    (h : runStep (Builder.build ⟨settings, .ofLanguage language, graph, names⟩ operation) s =
      (.ok model, t)) : model.ByShape settings language graph registry operation := by
  obtain ⟨⟨_, hname⟩, parameters, identifiers, models, u, v, hstages⟩ := build_stages h
  have hkept := (Resolver.steady_ofLanguage language).keeps hfrozen graph
  have hu := (hstages.parameterRows hkept hs).1
  obtain ⟨responses, hchecked⟩ := Responses.checked_of_models hstages.responses
  have hrows := (Responses.rows_of_models hkept hchecked hu hstages.responses).2
  have hshaped : List.Forall₂ (fun entry row => Responses.Shaped language graph registry entry.2 row)
      responses model.responses := by
    refine hrows.imp ?_
    rintro entry row ⟨w, type, x, hw, htype, rfl⟩
    exact Responses.shaped_of_row hlanguage hnamed (hkept hw htype) htype
  have hread := (Responses.tabulated_of_models hchecked hstages.responses).readOff
  -- the unwrapped result is the type of the primary row, so the flags of this row tell it
  have hunwrapped : (model.primary.any (·.isFile) = true ↔
        model.unwrappedResult = language.fileResponse)
      ∧ (model.hasResult = true → model.unwrappedResult ≠ language.void) := by
    rw [OperationModel.hasResult, hstages.unwrapped]
    cases hprimary : model.primary with
    | none => exact ⟨iff_of_false (by simp) (Responses.void_ne_fileResponse hlanguage), by simp⟩
    | some row =>
      have hmem : row ∈ model.responses :=
        List.mem_of_find?_eq_some (hstages.primary.symm.trans hprimary)
      obtain ⟨htyped, hfile⟩ := hread row hmem
      refine ⟨hfile, ?_⟩
      intro hhas hvoid
      rw [Option.any_some, htyped.mpr hvoid] at hhas
      cases hhas
  have hresult : settings.wrapResponses = true → model.result =
      if model.primary.any (·.isFile) then language.asyncOf model.unwrappedResult
      else language.asyncOf (wrapped settings language model.unwrappedResult model.client) := by
    intro hwrap
    simp only [hstages.result, hunwrapped.1]
    exact resultType_wrapped hwrap
  refine ⟨hname.key, ⟨responses, Responses.declared_of_checked hchecked, hshaped⟩, hresult, ?_⟩
  intro hwrap hhas
  rw [hresult hwrap]
  by_cases hfile : model.primary.any (·.isFile) = true
  · simp only [hfile, if_true]
  · simp only [hfile, if_false, Bool.false_eq_true, iff_false]
    exact asyncOf_wrapped_ne hlanguage (hunwrapped.2 hhas)

end Builder

namespace Generation

variable {settings : Settings} {graph : Graph} {schemas : List NodeId}
  {operations : List Operation} {journal : Journal} {report : Report} {t : Typing}

/-- In the models of a pass a row has no type exactly if its response has no schema.  A row is one of
a file exactly if its schema is a file, or if it is a type definition that has the name of a file's
type and is not marked; so it tells files wherever no type is emitted under this name.  Where results
are wrapped, all are but those of which the primary row is one of a file. -/
theorem results_by_shape
    (h : runStep (run settings graph schemas operations) { journal := journal } = (.ok report, t)) :
    ∃ language, settings.targetLanguage = .ok language
      ∧ (∀ model ∈ report.models, ∃ operation ∈ operations,
        model.ByShape settings language graph t.registry operation)
      ∧ ((∀ id, (language.fileResponse, id) ∉ report.namedTypes) → ∀ response row,
        Responses.Shaped language graph t.registry response row →
          (row.isFile = true ↔ ∃ id, response.schema = some id ∧ graph.isFileShape id = true)) := by
  obtain ⟨language, builder, hlanguage, rfl, hfrozen, hbuilt⟩ := built_of_run h
  have hknown := Settings.mem_known hlanguage
  have hnamed := wellNamed_of_run h hlanguage
  refine ⟨language, hlanguage, ?_, ?_⟩
  · intro model hmodel
    obtain ⟨operation, hoperation, u, v, hu, hrun⟩ := hbuilt model hmodel
    exact ⟨operation, hoperation, Builder.byShape_of_build hknown hnamed hfrozen hu hrun⟩
  · intro hfree response row hrow
    rw [hrow.isFile]
    constructor
    · rintro ⟨id, hid, hfile | hnamesake⟩
      · exact ⟨id, hid, hfile⟩
      · obtain ⟨other, hlisted⟩ :=
          Registry.listed_of_named hnamed.consistent hnamesake.name
        rw [← (types_of_run h).2.2] at hlisted
        exact absurd hlisted (hfree other)
    · rintro ⟨id, hid, hfile⟩
      exact ⟨id, hid, .inl hfile⟩

/-- Pets, and a photo. -/
def photoGraph : Graph where
  nodes := #[
    { kinds := Kinds.ofList [.object], typeName := .str "Pet" },
    { kinds := Kinds.ofList [.file] }]

def photoOperations : List Operation :=
  let answers (code : String) (schema : Option NodeId) := some [(code, some { schema := schema })]
  [{ method := "GET", path := "/pets", responses := answers "200" (some 0) },
   { method := "GET", path := "/photo", responses := answers "200" (some 1) },
   { method := "DELETE", path := "/pets", responses := answers "204" none }]

theorem results_by_shape_photo : ∃ report t,
    runStep (run { language := "rust", wrapResponses := true } photoGraph [] photoOperations) {} =
        (.ok report, t)
      ∧ (∀ model ∈ report.models, ∃ operation ∈ photoOperations,
        model.ByShape { language := "rust", wrapResponses := true } Language.rust photoGraph
          t.registry operation)
      ∧ report.models.map (·.result) =
        ["impl std::future::Future<Output = SwaggerResponse<Pet>>",
          "impl std::future::Future<Output = FileResponse>",
          "impl std::future::Future<Output = SwaggerResponse>"] := by
  have hvisit : photoGraph.typeDefinitions (roots [] photoOperations) = [0] := by
    have hwalk : photoGraph.visit [] (roots [] photoOperations) = [0, 1] := by
      simp [Graph.visit, photoGraph, Graph.node, Node.children, roots, photoOperations,
        Operation.schemas]
    rw [Graph.typeDefinitions, hwalk]
    decide +kernel
  have hresults : (runStep (run { language := "rust", wrapResponses := true } photoGraph []
      photoOperations) {}).1.toOption.map (·.models.map (·.result)) =
        some ["impl std::future::Future<Output = SwaggerResponse<Pet>>",
          "impl std::future::Future<Output = FileResponse>",
          "impl std::future::Future<Output = SwaggerResponse>"] := by
    unfold run prepare
    rw [hvisit]
    decide +kernel
  obtain ⟨report, hreport, hresults⟩ := Except.ok_of_toOption_map hresults
  have hrun : runStep (run { language := "rust", wrapResponses := true } photoGraph []
      photoOperations) {} = (.ok report, _) := Prod.ext hreport rfl
  obtain ⟨language, hlanguage, hmodels, -⟩ := results_by_shape hrun
  have hrust : Settings.targetLanguage { language := "rust", wrapResponses := true } =
      .ok Language.rust := by decide +kernel
  cases hrust.symm.trans hlanguage
  exact ⟨report, _, hrun, hmodels, hresults⟩

/-- A definition that is called like the type of a returned file. -/
def uploadData : Json :=
  .obj [
    ("openapi", .str "3.0.0"),
    ("paths", .obj [("/upload", .obj [("get", .obj [
      ("responses", .obj [("200", .obj [
        ("content", .obj [("application/json", .obj [
          ("schema", .obj [("$ref", .str "#/components/schemas/FileResponse")])])])])])])])]),
    ("components", .obj [("schemas", .obj [
      ("FileResponse", .obj [
        ("type", .str "object"),
        ("properties", .obj [("url", .obj [("type", .str "string")])])])])])]

def uploadGraph : Graph where
  nodes := #[
    { kinds := Kinds.ofList [.object], typeName := .str "FileResponse", properties := [("url", 1)] },
    { kinds := Kinds.ofList [.string] }]

def uploadOperation : Operation where
  method := "GET"
  path := "/upload"
  responses := some [("200", some { schema := some 0, contentTypes := [.str "application/json"] })]

/-- An object is taken for a file, and the result is not wrapped. -/
theorem object_taken_for_file : ∃ document s report,
    Reading.read {} uploadData = (.ok document, s)
      ∧ document.operations = [uploadOperation]
      ∧ document.graph.isFileShape 0 = false
      ∧ (Generation.report { wrapResponses := true } document.graph document.definitions
          document.operations []).1 = .ok report
      ∧ report.models.map (fun model => (model.responses.map (·.isFile), model.result))
        = [([true], "System.Threading.Tasks.Task<FileResponse>")] := by
  have hvisit : uploadGraph.typeDefinitions (roots [0] [uploadOperation]) = [0] := by
    have hwalk : uploadGraph.visit [] (roots [0] [uploadOperation]) = [0, 1] := by
      simp [Graph.visit, uploadGraph, Graph.node, Node.children, roots, uploadOperation,
        Operation.schemas]
    rw [Graph.typeDefinitions, hwalk]
    decide +kernel
  have hresults : (Generation.report { wrapResponses := true } uploadGraph [0] [uploadOperation]
      []).1.toOption.map (·.models.map fun model => (model.responses.map (·.isFile), model.result))
      = some [([true], "System.Threading.Tasks.Task<FileResponse>")] := by
    unfold Generation.report run prepare
    rw [hvisit]
    decide +kernel
  obtain ⟨document, s, report, hread, hgraph, hoperations, hreport, hresults⟩ :=
    Reading.report_of_parts uploadData [(.str "FileResponse", 0)] (by decide +kernel) hresults
  refine ⟨document, s, report, hread, hoperations, ?_, hreport, hresults⟩
  rw [hgraph]
  decide +kernel

end Generation

end ApiClients
