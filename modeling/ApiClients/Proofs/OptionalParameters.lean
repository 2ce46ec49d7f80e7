import ApiClients.Proofs.BuiltModels
import ApiClients.Proofs.ParameterTable
import ApiClients.Proofs.WithoutNull

/-!
# Optional parameters

A parameter that may be left out admits null.  Its type is the one that it has without null
(`bareType`), and this is marked; but the type of a file is never marked, nor the one that stands for
an absent schema (`isUnmarked`).  In a language that marks every type these parameters are the only
ones whose type does not say that they may be null (`optional_parameters`).

The type without null is the one of the same parameter, required, where no node of its chain of
references admits null (`Bare`).
-/

namespace ApiClients

/-- The parameter, required whatever the document says. -/
def Parameter.asRequired (parameter : Parameter) : Parameter := { parameter with required := true }

namespace Builder

section

variable {builder : Builder} {parameters : List Parameter} {parameter : Parameter}
  {row : ParameterModel} {language : Language} {registry : Registry} {id : NodeId} {bare : String}
  {s t : Typing}

/-! ### Types without null -/

/-- The type that a parameter has without null. -/
def bareType (builder : Builder) (parameter : Parameter) : TypingM String :=
  match parameter.schema with
  | none => pure builder.language.any
  | some id => builder.resolver.typeAs builder.graph false id (builder.parameterUsage parameter)

/-- Whether the type of a parameter is never marked: that of a file, and that of no schema. -/
def isUnmarked (builder : Builder) (parameter : Parameter) : Bool :=
  parameter.schema.all builder.graph.isFileShape

theorem bareType_none (h : parameter.schema = none) :
    builder.bareType parameter = pure builder.language.any := by
  simp only [bareType, h]

theorem bareType_some (h : parameter.schema = some id) : builder.bareType parameter =
    builder.resolver.typeAs builder.graph false id (builder.parameterUsage parameter) := by
  simp only [bareType, h]

theorem isUnmarked_none (h : parameter.schema = none) : builder.isUnmarked parameter = true := by
  rw [isUnmarked, h, Option.all_none]

theorem isUnmarked_some (h : parameter.schema = some id) :
    builder.isUnmarked parameter = builder.graph.isFileShape id := by
  rw [isUnmarked, h, Option.all_some]

/-- The type of a row is the one without null, marked if the row admits null. -/
theorem ParameterRow.marked {P : Typing → Prop}
    (h : builder.ParameterRow P parameters parameter row) (hmarks : builder.resolver.MarksNull) :
    ∃ bare s t, P s ∧ P t ∧ runStep (builder.bareType parameter) s = (.ok bare, t)
      ∧ row.type = builder.language.nullableIf
        (row.isNullable && !builder.isUnmarked parameter) bare := by
  cases hschema : parameter.schema with
  | none =>
    obtain ⟨-, s, type, t, hs, -, -, hrow⟩ := h
    have htype : row.type = builder.language.any := by
      rw [hrow, parameterRow, hschema]
      rfl
    rw [bareType_none hschema, isUnmarked_none hschema, Bool.not_true, Bool.and_false]
    exact ⟨builder.language.any, s, s, hs, hs, rfl, htype⟩
  | some id =>
    obtain ⟨-, s, t, hs, ht, htype⟩ := h.typed hschema
    rw [bareType_some hschema, isUnmarked_some hschema]
    cases hfile : builder.graph.isFileShape id with
    | true =>
      rw [Resolver.typeAs_file hfile] at htype ⊢
      rw [Bool.not_true, Bool.and_false]
      exact ⟨row.type, s, t, hs, ht, htype, rfl⟩
    | false =>
      obtain ⟨bare, hbare, htype⟩ := Resolver.typeAs_run hmarks hfile htype
      rw [Bool.not_false, Bool.and_true]
      exact ⟨bare, s, t, hs, ht, hbare, htype⟩

/-- The type without null of a parameter that is not marked is the type of anything or of a file. -/
theorem bareType_of_unmarked (h : builder.isUnmarked parameter = true)
    (hbare : runStep (builder.bareType parameter) s = (.ok bare, t)) :
    bare ∈ [builder.language.any, builder.language.fileResponse, builder.language.fileSequence,
      builder.language.fileParameter] := by
  cases hschema : parameter.schema with
  | none =>
    rw [bareType_none hschema] at hbare
    cases hbare
    exact List.mem_cons_self
  | some id =>
    rw [isUnmarked_some hschema] at h
    rw [bareType_some hschema, Resolver.typeAs_file h] at hbare
    cases hbare
    exact List.mem_cons_of_mem _ (Resolver.fileType_mem _ _)

/-- These types are no value types, so they are marked only where every type is. -/
theorem nullableOf_unmarked (hlanguage : language ∈ Language.known)
    (h : bare ∈ [language.any, language.fileResponse, language.fileSequence,
      language.fileParameter]) :
    bare = language.nullableOf bare ↔ language.marksAllNullable = false := by
  have hall : ∀ language ∈ Language.known, ∀ type ∈ [language.any, language.fileResponse,
      language.fileSequence, language.fileParameter],
      type = language.nullableOf type ↔ language.marksAllNullable = false := by decide
  exact hall language hlanguage bare h

/-- The type without null of a parameter that is marked is not that of an absent result. -/
theorem bareType_ne_void (h : builder.isUnmarked parameter = false)
    (hresolver : builder.resolver = .ofLanguage builder.language)
    (hlanguage : builder.language ∈ Language.known)
    (hnamed : t.registry.WellNamed builder.language builder.graph)
    (hbare : runStep (builder.bareType parameter) s = (.ok bare, t)) :
    bare ≠ builder.language.void := by
  cases hschema : parameter.schema with
  | none =>
    rw [isUnmarked_none hschema] at h
    cases h
  | some id =>
    rw [bareType_some hschema, hresolver] at hbare
    exact (Resolver.made_of_typeAs hbare).ne_void hlanguage hnamed

/-! ### The same parameter where there is no null -/

/-- The parameter has this type, and is not said to be nullable, where it is required. -/
def Bare (builder : Builder) (registry : Registry) (parameter : Parameter) (type : String) : Prop :=
  ∀ identifier s, s.registry = registry → ∃ row,
    (runStep (builder.parameterModel parameter.asRequired identifier) s).1 = .ok row
      ∧ row.isNullable = false ∧ row.type = type

/-- What is built where some nodes do not admit null. -/
def withoutNull (builder : Builder) (nodes : List NodeId) : Builder :=
  { builder with graph := builder.graph.withoutNull nodes }

/-- A required parameter whose schema admits no null has the type without null. -/
theorem parameterModel_asRequired (h : admitsNull builder.graph parameter.schema = false)
    (identifier : String) :
    builder.parameterModel parameter.asRequired identifier =
      builder.parameterRow parameter.asRequired identifier <$> builder.bareType parameter := by
  rw [parameterModel_eq]
  cases hschema : parameter.schema with
  | none =>
    have hrequired : parameter.asRequired.schema = none := hschema
    rw [bareType_none hschema, hrequired]
    change builder.parameterRow parameter.asRequired identifier <$> pure _ = _
    rw [map_pure, map_pure, parameterRow, parameterRow, hrequired]
    rfl
  | some id =>
    have hrequired : parameter.asRequired.schema = some id := hschema
    have hnone : Resolver.admitsNull builder.graph id
        (builder.parameterUsage parameter.asRequired) = false := by
      rw [admitsNull_parameterUsage hrequired]
      exact h
    rw [bareType_some hschema, hrequired, Resolver.resolve_eq_typeAs, hnone]
    rfl

theorem bare_of_outcome (h : admitsNull builder.graph parameter.schema = false)
    (hsteady : builder.resolver.Steady) (hfrozen : s.registry.frozen = true)
    (hbare : (runStep (builder.bareType parameter) s).1 = .ok bare) :
    builder.Bare s.registry parameter bare := by
  intro identifier u hu
  have hdecided : Decided (fun t : Typing => t.registry = s.registry)
      (builder.parameterModel parameter.asRequired identifier) := by
    rw [parameterModel_eq, map_eq_pure_bind]
    exact decided_bind (Resolver.decided_resolve hsteady hfrozen _ _ _) fun _ => decided_pure _
  have hrow : runStep (builder.parameterModel parameter.asRequired identifier) s =
      (.ok (builder.parameterRow parameter.asRequired identifier bare),
        (runStep (builder.bareType parameter) s).2) := by
    rw [parameterModel_asRequired h]
    exact runStep_map_ok.mpr ⟨bare, Prod.ext hbare rfl, rfl⟩
  refine ⟨_, (hdecided.same hu rfl).trans (congrArg Prod.fst hrow), h, ?_⟩
  cases hschema : parameter.schema with
  | none =>
    rw [bareType_none hschema] at hbare
    cases hbare
    simp [parameterRow, Parameter.asRequired, hschema]
  | some id => simp [parameterRow, Parameter.asRequired, hschema]

/-- Where no node of its chain of references admits null, a parameter has the type without null. -/
theorem bare_withoutNull {last : NodeId} {nodes : List NodeId}
    (hschema : parameter.schema = some id) (hchain : builder.graph.ReferenceChain id nodes last)
    (hkinds : (builder.graph.node last).kinds ≠ Kinds.ofList [.null])
    (hapart : Resolver.Apart builder.graph nodes last)
    (hresolver : builder.resolver = .ofLanguage builder.language)
    (hfrozen : s.registry.frozen = true)
    (hbare : (runStep (builder.bareType parameter) s).1 = .ok bare) :
    (builder.withoutNull nodes).Bare s.registry parameter bare := by
  refine bare_of_outcome ?none (hresolver ▸ Resolver.steady_ofLanguage _) hfrozen ?same
  case none =>
    rw [hschema]
    exact admitsNull_withoutNull hchain
  case same =>
    rw [bareType_some hschema] at hbare ⊢
    change (runStep (builder.resolver.typeAs (builder.graph.withoutNull nodes) false id
      (builder.parameterUsage parameter)) s).1 = .ok bare
    rw [hresolver] at hbare ⊢
    rw [Resolver.typeAs_withoutNull hchain hkinds hapart hfrozen]
    exact hbare

/-! ### Null in the types of parameters -/

/-- How null stands in the type of a row, with the type that its parameter has without null. -/
structure NullInType (builder : Builder) (registry : Registry) (parameter : Parameter)
    (row : ParameterModel) (bare : String) : Prop where
  name : row.name = parameter.name
  optional : parameter.required = false → row.isNullable = true
  resolved : ∃ s t, s.registry = registry ∧ runStep (builder.bareType parameter) s = (.ok bare, t)
  /-- Where the schema admits no null, being required is all that the type without null asks for. -/
  required : admitsNull builder.graph parameter.schema = false → builder.Bare registry parameter bare
  /-- Elsewhere null is taken away from the chain of references, if the chain stands apart from what
  its last node holds. -/
  withoutNull : ∀ id nodes last, parameter.schema = some id →
    builder.graph.ReferenceChain id nodes last →
    (builder.graph.node last).kinds ≠ Kinds.ofList [.null] →
    Resolver.Apart builder.graph nodes last → (builder.withoutNull nodes).Bare registry parameter bare
  type : row.type =
    builder.language.nullableIf (row.isNullable && !builder.isUnmarked parameter) bare
  marked : row.isNullable = true → (row.type = builder.language.nullableOf bare ↔
    builder.language.marksAllNullable = false ∨ builder.isUnmarked parameter = false)
  framed : builder.language.marksAllNullable = true → row.isNullable = true →
    builder.isUnmarked parameter = false → row.type = builder.language.nullable.around bare

theorem ParameterRow.nullInType (hresolver : builder.resolver = .ofLanguage builder.language)
    (hlanguage : builder.language ∈ Language.known) (hfrozen : registry.frozen = true)
    (hnamed : registry.WellNamed builder.language builder.graph)
    (h : builder.ParameterRow (fun s => s.registry = registry) parameters parameter row) :
    ∃ bare, builder.NullInType registry parameter row bare := by
  have hmarks : builder.resolver.MarksNull := hresolver ▸ Resolver.marksNull_ofLanguage _
  have hsteady : builder.resolver.Steady := hresolver ▸ Resolver.steady_ofLanguage _
  obtain ⟨bare, s, t, rfl, ht, hbare, htype⟩ := h.marked hmarks
  have houtcome := congrArg Prod.fst hbare
  refine ⟨bare, ?name, ?optional, ⟨s, t, rfl, hbare⟩, ?required, ?withoutNull, htype, ?marked,
    ?framed⟩
  case name =>
    obtain ⟨-, _, _, _, -, -, -, hrow⟩ := h
    exact congrArg ParameterModel.name hrow
  case optional =>
    intro hoptional
    rw [h.isNullable_eq, hoptional]
    rfl
  case required => exact fun hnone => bare_of_outcome hnone hsteady hfrozen houtcome
  case withoutNull =>
    intro id nodes last hschema hchain hkinds hapart
    exact bare_withoutNull hschema hchain hkinds hapart hresolver hfrozen houtcome
  case marked =>
    intro hnull
    rw [htype, hnull, Bool.true_and]
    cases hunmarked : builder.isUnmarked parameter with
    | true =>
      rw [Bool.not_true, or_iff_left (Bool.noConfusion : ¬true = false)]
      exact nullableOf_unmarked hlanguage (bareType_of_unmarked hunmarked hbare)
    | false => exact iff_of_true rfl (.inr rfl)
  case framed =>
    intro hmarked hnull hunmarked
    have hvoid := bareType_ne_void hunmarked hresolver hlanguage (ht ▸ hnamed) hbare
    rw [htype, hnull, hunmarked]
    simp [Language.nullableIf, Language.nullableOf, hvoid, hmarked]

end

end Builder

namespace Generation

variable {settings : Settings} {graph : Graph} {schemas : List NodeId}
  {operations : List Operation} {journal : Journal} {report : Report} {t : Typing}

/-- In the models of a pass the type of a nullable parameter is the marked one of the type without
null, exactly if the language leaves some types unmarked or the parameter is neither a file nor
without a schema.  In a language that marks every type it is then an option of the type without
null. -/
theorem optional_parameters
    (h : runStep (run settings graph schemas operations) { journal := journal } = (.ok report, t)) :
    ∃ language builder, settings.targetLanguage = .ok language
      ∧ builder = ⟨settings, .ofLanguage language, graph, Naming.assign settings.policy operations⟩
      ∧ ∀ model ∈ report.models, ∃ operation ∈ operations, model.key = operation.key
        ∧ ∃ parameters rows, operation.parameters = some parameters ∧ model.parameters.Perm rows
          ∧ List.Forall₂ (fun parameter row =>
              ∃ bare, Builder.NullInType builder t.registry parameter row bare) parameters rows := by
  obtain ⟨language, builder, hlanguage, hbuilder, hfrozen, hbuilt⟩ := built_of_run h
  have hknown := Settings.mem_known hlanguage
  have hnamed := wellNamed_of_run h hlanguage
  refine ⟨language, builder, hlanguage, hbuilder, ?_⟩
  subst hbuilder
  intro model hmodel
  obtain ⟨operation, hoperation, u, v, hu, hrun⟩ := hbuilt model hmodel
  obtain ⟨⟨_, hname⟩, parameters, _, rows, _, _, hstages⟩ := Builder.build_stages hrun
  have hkept := (Resolver.steady_ofLanguage language).keeps hfrozen graph
  have hrows := (hstages.parameterRows hkept hu).2
  refine ⟨operation, hoperation, hname.key, parameters, rows, hstages.declared, ?perm, ?types⟩
  case perm =>
    rw [hstages.arranged]
    exact Builder.arrange_perm _ _
  case types => exact hrows.imp fun _ _ hrow => hrow.nullInType rfl hknown hfrozen hnamed

/-- A pet, a text, a list of pets, a map of texts and a reference to a pet or null. -/
def petsGraph : Graph where
  nodes := #[
    { kinds := Kinds.ofList [.object], typeName := .str "Pet" },
    { kinds := Kinds.ofList [.string] },
    { kinds := Kinds.ofList [.array], items := some 0 },
    { kinds := Kinds.ofList [.object], additional := .shape 1 },
    { reference := some 0, nullable := true }]

def petsOperation : Operation where
  method := "GET"
  path := "/pets"
  parameters := some [
    { name := .str "name", schema := some 1 },
    { name := .str "like", schema := some 4, required := true },
    { name := .str "others", schema := some 2 },
    { name := .str "labels", schema := some 3 },
    { name := .str "breed", schema := some 1, required := true }]

theorem optional_parameters_pets : ∃ report t builder,
    runStep (run { language := "rust" } petsGraph [] [petsOperation]) {} = (.ok report, t)
      ∧ report.models.map (·.parameters.map (·.type)) = [["Option<String>", "Option<Pet>",
        "Option<Vec<Pet>>", "Option<std::collections::HashMap<String, String>>", "String"]]
      ∧ ∀ model ∈ report.models, ∃ operation ∈ [petsOperation], model.key = operation.key
        ∧ ∃ parameters rows, operation.parameters = some parameters ∧ model.parameters.Perm rows
          ∧ List.Forall₂ (fun parameter row =>
              ∃ bare, Builder.NullInType builder t.registry parameter row bare) parameters rows := by
  have hvisit : petsGraph.typeDefinitions (roots [] [petsOperation]) = [0] := by
    have hwalk : petsGraph.visit [] (roots [] [petsOperation]) = [1, 4, 0, 2, 3] := by
      simp [Graph.visit, petsGraph, Graph.node, Node.children, roots, petsOperation,
        Operation.schemas]
    rw [Graph.typeDefinitions, hwalk]
    decide +kernel
  have htypes : (runStep (run { language := "rust" } petsGraph [] [petsOperation])
      {}).1.toOption.map (·.models.map (·.parameters.map (·.type))) =
        some [["Option<String>", "Option<Pet>", "Option<Vec<Pet>>",
          "Option<std::collections::HashMap<String, String>>", "String"]] := by
    unfold run prepare
    rw [hvisit]
    decide +kernel
  obtain ⟨report, hreport, htypes⟩ := Except.ok_of_toOption_map htypes
  have hrun : runStep (run { language := "rust" } petsGraph [] [petsOperation]) {} =
      (.ok report, _) := Prod.ext hreport rfl
  obtain ⟨_, builder, -, -, hmodels⟩ := optional_parameters hrun
  exact ⟨report, _, builder, hrun, htypes, hmodels⟩

/-- A form with a file and a text, both of which may be left out. -/
def formData : Json :=
  .obj [
    ("swagger", .str "2.0"),
    ("paths", .obj [("/photo", .obj [("post", .obj [
      ("parameters", .arr [
        .obj [("name", .str "photo"), ("in", .str "formData"), ("type", .str "file")],
        .obj [("name", .str "note"), ("in", .str "formData"), ("type", .str "string")]]),
      ("responses", .obj [("204", .obj [])])])])])]

def formGraph : Graph where
  nodes := #[{ kinds := Kinds.ofList [.file] }, { kinds := Kinds.ofList [.string] }]

def photo : Parameter where
  name := .str "photo"
  location := .formData
  schema := some 0

def formOperation : Operation where
  method := "POST"
  path := "/photo"
  parameters := some [photo, { photo with name := .str "note", schema := some 1 }]
  responses := some [("204", some {})]

/-- The file may be left out, and has the type that it would have if it were required. -/
theorem optional_file_unmarked : ∃ document s report,
    Reading.read {} formData = (.ok document, s)
      ∧ document.operations = [formOperation]
      ∧ (Generation.report { language := "rust" } document.graph document.definitions
          document.operations []).1 = .ok report
      ∧ report.models.map (·.parameters.map fun row => (row.name, row.type, row.isNullable))
        = [[(.str "photo", "FileParameter", true), (.str "note", "Option<String>", true)]]
      ∧ ∀ names (s : Typing), s.registry.frozen = true →
        Builder.Bare ⟨{ language := "rust" }, .ofLanguage .rust, document.graph, names⟩ s.registry
          photo "FileParameter" := by
  have hvisit : formGraph.typeDefinitions (roots [] [formOperation]) = [] := by
    have hwalk : formGraph.visit [] (roots [] [formOperation]) = [0, 1] := by
      simp [Graph.visit, formGraph, Graph.node, Node.children, roots, formOperation, photo,
        Operation.schemas]
    rw [Graph.typeDefinitions, hwalk]
    decide +kernel
  have hrows : (Generation.report { language := "rust" } formGraph [] [formOperation]
      []).1.toOption.map (·.models.map (·.parameters.map fun row =>
        (row.name, row.type, row.isNullable)))
      = some [[(.str "photo", "FileParameter", true), (.str "note", "Option<String>", true)]] := by
    unfold Generation.report run prepare
    rw [hvisit]
    decide +kernel
  obtain ⟨document, s, report, hread, hgraph, hoperations, hreport, hrows⟩ :=
    Reading.report_of_parts formData [] (by decide +kernel) hrows
  refine ⟨document, s, report, hread, hoperations, hreport, hrows, ?_⟩
  intro names s hfrozen
  rw [hgraph]
  have hfile : formGraph.isFileShape 0 = true := by decide +kernel
  have hnone : Builder.admitsNull formGraph photo.schema = false := by decide +kernel
  refine Builder.bare_of_outcome hnone (Resolver.steady_ofLanguage _) hfrozen ?_
  rw [Builder.bareType]
  exact congrArg (fun step => (runStep step s).1) (Resolver.typeAs_file hfile)

end Generation

end ApiClients
