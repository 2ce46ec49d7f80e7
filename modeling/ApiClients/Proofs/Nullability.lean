import ApiClients.Proofs.Reachability
import ApiClients.Proofs.ReadingOperations
import ApiClients.Proofs.Resolution

/-!
# Where null is admitted

Resolving a schema settles whether null is admitted and then marks the type of the shape.  The second
half on its own is `typeAs`, which is told whether null is admitted; so what resolving takes for
nullable is what it tells `typeAs` (`resolve_eq_typeAs`).  A marked type is the unmarked one with null
admitted, except that of a file, which is never marked (`typeAs_of_marks`).

Along a chain of references only the two ends are asked (`nullable_at_ends`): a node in between that
admits null is passed over.
-/

namespace ApiClients

/-- Whether a schema stands for a file: a file is neither a type definition nor an array. -/
def Graph.isFileShape (graph : Graph) (id : NodeId) : Bool :=
  !(graph.actualNode id).isTypeDefinition
    && ((graph.actualNode id).isFile && !(graph.actualNode id).isArray)

theorem Graph.isFileShape_iff {graph : Graph} {id : NodeId} :
    graph.isFileShape id = true ↔
      (graph.actualNode id).isTypeDefinition = false
        ∧ ((graph.actualNode id).isFile && !(graph.actualNode id).isArray) = true := by
  rw [isFileShape, Bool.and_eq_true, Bool.not_eq_true']

theorem Language.nullableIf_false (language : Language) : language.nullableIf false = id := rfl

theorem Language.nullableIf_cases (language : Language) (nullable : Bool) (type : String) :
    language.nullableIf nullable type = type
      ∨ language.nullableIf nullable type = language.nullable.around type := by
  unfold nullableIf nullableOf
  split
  · split
    · exact .inl rfl
    · split
      · exact .inr rfl
      · exact .inl rfl
  · exact .inl rfl

namespace Resolver

/-! ### Types with null admitted as told -/

/-- The type of a schema in a use by the rules of resolving, but with null admitted as told instead of
as the use and the nodes say. -/
def typeAs (resolver : Resolver) (graph : Graph) (nullable : Bool) (id : NodeId) (usage : Usage) :
    TypingM String :=
  let language := resolver.language
  let node := graph.actualNode id
  if node.isTypeDefinition then
    language.nullableIf nullable <$> Registry.name language graph (graph.actual id)
  else if node.isFile && !node.isArray then pure (fileType language usage)
  else if node.isContainer then
    if node.isArray then
      (language.nullableIf nullable ∘ language.sequenceOf) <$> itemType resolver graph [] id usage
    else
      (language.nullableIf nullable ∘ language.dictionaryOf) <$> valueType resolver graph [] id usage
  else resolver.baseType node nullable usage.fallbackName

/-- The base types are marked in the way of the language. -/
def MarksNull (resolver : Resolver) : Prop :=
  ∀ node use, resolver.baseType node true use =
    resolver.language.nullableOf <$> resolver.baseType node false use

section

variable {resolver : Resolver} {graph : Graph} {nullable : Bool} {id : NodeId} {usage : Usage}

theorem typeAs_definition (h : (graph.actualNode id).isTypeDefinition = true) :
    resolver.typeAs graph nullable id usage =
      resolver.language.nullableIf nullable
        <$> Registry.name resolver.language graph (graph.actual id) := by
  simp only [typeAs, h, if_true]

theorem typeAs_file (h : graph.isFileShape id = true) :
    resolver.typeAs graph nullable id usage = pure (fileType resolver.language usage) := by
  obtain ⟨hdefinition, hfile⟩ := Graph.isFileShape_iff.mp h
  simp only [typeAs, hdefinition, hfile, if_true, if_false, Bool.false_eq_true]

theorem typeAs_array (h : (graph.actualNode id).isTypeDefinition = false)
    (hcontainer : (graph.actualNode id).isContainer = true)
    (harray : (graph.actualNode id).isArray = true) :
    resolver.typeAs graph nullable id usage =
      (resolver.language.nullableIf nullable ∘ resolver.language.sequenceOf)
        <$> itemType resolver graph [] id usage := by
  simp only [typeAs, h, hcontainer, harray, Bool.not_true, Bool.and_false, if_true, if_false,
    Bool.false_eq_true]

theorem typeAs_map (h : (graph.actualNode id).isTypeDefinition = false)
    (hfile : ((graph.actualNode id).isFile && !(graph.actualNode id).isArray) = false)
    (hcontainer : (graph.actualNode id).isContainer = true)
    (harray : (graph.actualNode id).isArray = false) :
    resolver.typeAs graph nullable id usage =
      (resolver.language.nullableIf nullable ∘ resolver.language.dictionaryOf)
        <$> valueType resolver graph [] id usage := by
  rw [harray] at hfile
  simp only [typeAs, h, hfile, hcontainer, harray, if_true, if_false, Bool.false_eq_true]

theorem typeAs_base (h : (graph.actualNode id).isTypeDefinition = false)
    (hfile : ((graph.actualNode id).isFile && !(graph.actualNode id).isArray) = false)
    (hcontainer : (graph.actualNode id).isContainer = false) :
    resolver.typeAs graph nullable id usage =
      resolver.baseType (graph.actualNode id) nullable usage.fallbackName := by
  simp only [typeAs, h, hfile, hcontainer, if_false, Bool.false_eq_true]

/-- Null is admitted if the use, the node or the node that carries its shape admits it; nothing else
is asked. -/
theorem resolve_eq_typeAs (resolver : Resolver) (graph : Graph) (id : NodeId) (usage : Usage) :
    resolver.resolve graph (some id) usage =
      resolver.typeAs graph (admitsNull graph id usage) id usage := by
  change resolver.resolveWithin graph [] id usage = _
  cases branch graph [] id with
  | definition h =>
    rw [resolveWithin_definition h, typeAs_definition h, map_eq_pure_bind]
  | file h hfile =>
    rw [resolveWithin_file h hfile, typeAs_file (Graph.isFileShape_iff.mpr ⟨h, hfile⟩)]
  | recursive _ _ _ haround => cases haround
  | array h hcontainer haround harray =>
    rw [resolveWithin_array h hcontainer haround harray, typeAs_array h hcontainer harray,
      map_eq_pure_bind]
    rfl
  | map h hfile hcontainer haround harray =>
    rw [resolveWithin_map h hfile hcontainer haround harray, typeAs_map h hfile hcontainer harray,
      map_eq_pure_bind]
    rfl
  | base h hfile hcontainer =>
    rw [resolveWithin_base h hfile hcontainer, typeAs_base h hfile hcontainer]

theorem marksNull_ofLanguage (language : Language) : (ofLanguage language).MarksNull := by
  intro node use
  change primitiveType language node true use
    = language.nullableOf <$> primitiveType language node false use
  unfold primitiveType
  rw [map_eq_pure_bind]
  cases node.kinds.primitive? with
  | none =>
    by_cases hnoted : (!node.kinds.atMostObject || !node.properties.isEmpty) = true
    · simp only [hnoted, if_true, bind_assoc, pure_bind]
      rfl
    · simp only [hnoted, if_false, Bool.false_eq_true]
      rfl
  | some primitive =>
    simp only [bind_assoc]
    refine bind_congr fun type => ?_
    cases type with
    | some type => rfl
    | none =>
      simp only [bind_assoc, pure_bind]
      rfl

/-- A type is marked last, unless it is that of a file. -/
theorem typeAs_of_marks (hmarks : resolver.MarksNull) (h : graph.isFileShape id = false) :
    resolver.typeAs graph nullable id usage =
      resolver.language.nullableIf nullable <$> resolver.typeAs graph false id usage := by
  cases branch graph [] id with
  | definition hdefinition =>
    rw [typeAs_definition hdefinition, typeAs_definition hdefinition, Language.nullableIf_false,
      id_map]
  | file hdefinition hfile =>
    rw [Graph.isFileShape_iff.mpr ⟨hdefinition, hfile⟩] at h
    cases h
  | recursive _ _ _ haround => cases haround
  | array hdefinition hcontainer _ harray =>
    rw [typeAs_array hdefinition hcontainer harray, typeAs_array hdefinition hcontainer harray,
      Language.nullableIf_false, comp_map]
    rfl
  | map hdefinition hfile hcontainer _ harray =>
    rw [typeAs_map hdefinition hfile hcontainer harray, typeAs_map hdefinition hfile hcontainer harray,
      Language.nullableIf_false, comp_map]
    rfl
  | base hdefinition hfile hcontainer =>
    rw [typeAs_base hdefinition hfile hcontainer, typeAs_base hdefinition hfile hcontainer]
    cases nullable with
    | false => exact (id_map _).symm
    | true => exact hmarks _ _

/-- The type that a schema has is the one that it would have without null, marked if null is
admitted. -/
theorem typeAs_run {s t : Typing} {type : String} (hmarks : resolver.MarksNull)
    (h : graph.isFileShape id = false)
    (hrun : runStep (resolver.typeAs graph nullable id usage) s = (.ok type, t)) :
    ∃ bare, runStep (resolver.typeAs graph false id usage) s = (.ok bare, t)
      ∧ type = resolver.language.nullableIf nullable bare := by
  rw [typeAs_of_marks hmarks h] at hrun
  obtain ⟨bare, hbare, rfl⟩ := runStep_map_ok.mp hrun
  exact ⟨bare, hbare, rfl⟩

end

end Resolver

/-- A type that changes when null is admitted tells whether null is admitted. -/
theorem Language.nullableIf_inj {language : Language} {type : String}
    (h : language.nullableOf type ≠ type) {nullable nullable' : Bool} :
    language.nullableIf nullable type = language.nullableIf nullable' type ↔
      nullable = nullable' := by
  cases nullable <;> cases nullable' <;> simp [nullableIf, h, h.symm]

/-! ### Chains of references -/

/-- A chain of references with its nodes, from the first to one that has no reference. -/
inductive Graph.ReferenceChain (graph : Graph) : NodeId → List NodeId → NodeId → Prop
  | stop {id : NodeId} (h : (graph.node id).reference = none) : ReferenceChain graph id [id] id
  | step {id next last : NodeId} {nodes : List NodeId} (h : graph.StandsFor id next)
      (hrest : ReferenceChain graph next nodes last) : ReferenceChain graph id (id :: nodes) last

namespace Graph.ReferenceChain

variable {graph : Graph} {first last : NodeId} {nodes : List NodeId}

theorem first_mem (h : graph.ReferenceChain first nodes last) : first ∈ nodes := by
  cases h <;> exact List.mem_cons_self

theorem last_mem (h : graph.ReferenceChain first nodes last) : last ∈ nodes := by
  induction h with
  | stop => exact List.mem_cons_self
  | step _ _ ih => exact List.mem_cons_of_mem _ ih

theorem ends (h : graph.ReferenceChain first nodes last) :
    Relation.ReflTransGen graph.StandsFor first last ∧ (graph.node last).reference = none := by
  induction h with
  | stop hnone => exact ⟨.refl, hnone⟩
  | step hnext _ ih => exact ⟨ih.1.head hnext, ih.2⟩

theorem actual_eq (h : graph.ReferenceChain first nodes last) : graph.actual first = last :=
  Graph.actual_of_end h.ends.1 h.ends.2

end Graph.ReferenceChain

/-- Resolving the first node of a chain of references takes the value for nullable when the use, the
first node or the last one admits null.  So the nodes of the chain add up, each with its own null,
exactly if none of them admits null where neither the use nor an end of the chain does. -/
theorem nullable_at_ends (resolver : Resolver) {graph : Graph} {first last : NodeId}
    {nodes : List NodeId} (h : graph.ReferenceChain first nodes last) (usage : Usage) :
    let admitted := usage.nullable || (graph.node first).isNullable || (graph.node last).isNullable
    let accumulated := usage.nullable || nodes.any fun id => (graph.node id).isNullable
    resolver.resolve graph (some first) usage = resolver.typeAs graph admitted first usage
      ∧ (admitted = accumulated ↔
        ∀ id ∈ nodes, (graph.node id).isNullable = true → admitted = true)
      ∧ (resolver.MarksNull → graph.isFileShape first = false → ∀ s type t,
        runStep (resolver.resolve graph (some first) usage) s = (.ok type, t) →
        ∃ bare, runStep (resolver.typeAs graph false first usage) s = (.ok bare, t)
          ∧ type = resolver.language.nullableIf admitted bare
          ∧ (resolver.language.nullableOf bare ≠ bare →
            (type = resolver.language.nullableIf accumulated bare ↔ admitted = accumulated))) := by
  intro admitted accumulated
  have hends : Resolver.admitsNull graph first usage = admitted := by
    rw [Resolver.admitsNull, Graph.actualNode, h.actual_eq]
  have hresolve : resolver.resolve graph (some first) usage
      = resolver.typeAs graph admitted first usage := by
    rw [Resolver.resolve_eq_typeAs, hends]
  refine ⟨hresolve, ⟨?passed, ?added⟩, ?marked⟩
  case passed =>
    intro hsame id hid hnull
    have hany : (nodes.any fun id => (graph.node id).isNullable) = true :=
      List.any_eq_true.mpr ⟨id, hid, hnull⟩
    rw [hsame]
    simp only [accumulated, hany, Bool.or_true]
  case added =>
    intro hall
    -- the ends are nodes of the chain
    refine Bool.eq_iff_iff.mpr ⟨fun hadmitted => ?_, fun haccumulated => ?_⟩
    · simp only [admitted, Bool.or_eq_true, or_assoc] at hadmitted
      simp only [accumulated, Bool.or_eq_true, List.any_eq_true]
      exact hadmitted.imp_right (Or.elim · (⟨first, h.first_mem, ·⟩) (⟨last, h.last_mem, ·⟩))
    · simp only [accumulated, Bool.or_eq_true, List.any_eq_true] at haccumulated
      rcases haccumulated with husage | ⟨id, hid, hnull⟩
      · simp only [admitted, husage, Bool.true_or]
      · exact hall id hid hnull
  case marked =>
    intro hmarks hfile s type t hrun
    rw [hresolve] at hrun
    obtain ⟨bare, hbare, rfl⟩ := Resolver.typeAs_run hmarks hfile hrun
    exact ⟨bare, hbare, rfl, fun hmarked => Language.nullableIf_inj hmarked⟩

/-- A definition that stands for a shape outside the definitions, which is a pet or null.  It is the
response in one place, and is admitted to be null in the other. -/
def foundData : Json :=
  let found := ("$ref", Json.str "#/components/schemas/Found")
  let content (shape : Json) : Json :=
    .obj [("content", .obj [("application/json", .obj [("schema", shape)])])]
  .obj [
    ("openapi", .str "3.0.0"),
    ("x-shapes", .obj [("MaybePet", .obj [
      ("$ref", .str "#/components/schemas/Pet"), ("nullable", .bool true)])]),
    ("paths", .obj [("/pets", .obj [("get", .obj [
      ("responses", .obj [
        ("200", content (.obj [found])),
        ("default", content (.obj [found, ("nullable", .bool true)]))])])])]),
    ("components", .obj [("schemas", .obj [
      ("Pet", .obj [("type", .str "object")]),
      ("Found", .obj [("$ref", .str "#/x-shapes/MaybePet")])])])]

def foundGraph : Graph where
  nodes := #[
    { kinds := Kinds.ofList [.object], typeName := .str "Pet" },
    { typeName := .str "Found", reference := some 2 },
    { nullable := true, reference := some 0 },
    { nullable := true, reference := some 1 }]

def foundOperation : Operation :=
  let response (schema : NodeId) : Option Response :=
    some { schema := some schema, contentTypes := [.str "application/json"] }
  { method := "GET", path := "/pets"
    responses := some [("200", response 1), ("default", response 3)] }

/-- The default response: its own reference admits null. -/
theorem foundGraph_chain : foundGraph.ReferenceChain 3 [3, 1, 2, 0] 0 :=
  .step rfl (.step rfl (.step rfl (.stop rfl)))

theorem nullable_at_ends_found :
    let rust := Resolver.ofLanguage Language.rust
    foundGraph.ReferenceChain 3 [3, 1, 2, 0] 0
      ∧ rust.MarksNull ∧ foundGraph.isFileShape 3 = false
      ∧ ∃ t, runStep (rust.resolve foundGraph (some 3) {}) {} = (.ok "Option<Pet>", t)
        ∧ ∃ bare, runStep (rust.typeAs foundGraph false 3 {}) {} = (.ok bare, t)
          ∧ "Option<Pet>" = Language.rust.nullableIf true bare := by
  intro rust
  have hmarks : rust.MarksNull := Resolver.marksNull_ofLanguage Language.rust
  have hfile : foundGraph.isFileShape 3 = false := by decide +kernel
  have htype : (runStep (rust.resolve foundGraph (some 3) {}) {}).1 = .ok "Option<Pet>" := by
    decide +kernel
  have hrun : runStep (rust.resolve foundGraph (some 3) {}) {} = (.ok "Option<Pet>", _) :=
    Prod.ext htype rfl
  obtain ⟨-, -, htypes⟩ := nullable_at_ends rust foundGraph_chain {}
  obtain ⟨bare, hbare, hmarked, -⟩ := htypes hmarks hfile _ _ _ hrun
  exact ⟨foundGraph_chain, hmarks, hfile, _, hrun, bare, hbare, hmarked⟩

/-- The shape that the definition stands for is a pet or null, and the node that says so is passed
over: the first response is a pet, while the second one, whose own reference admits null, is an
option. -/
theorem null_between_lost : ∃ document s report,
    Reading.read {} foundData = (.ok document, s)
      ∧ document.operations = [foundOperation]
      ∧ document.graph.ReferenceChain 1 [1, 2, 0] 0
      ∧ (document.graph.node 2).isNullable = true
      ∧ (Generation.report { language := "rust" } document.graph document.definitions
          document.operations []).1 = .ok report
      ∧ report.models.map (·.responses.map (·.type)) = [["Pet", "Option<Pet>"]] := by
  have hvisit : foundGraph.typeDefinitions (Generation.roots [0, 1] [foundOperation]) = [0] := by
    have hwalk : foundGraph.visit [] (Generation.roots [0, 1] [foundOperation]) = [0, 1, 2, 3] := by
      simp [Graph.visit, foundGraph, Graph.node, Node.children, Generation.roots, foundOperation,
        Operation.schemas]
    rw [Graph.typeDefinitions, hwalk]
    decide +kernel
  have htypes : (Generation.report { language := "rust" } foundGraph [0, 1] [foundOperation]
      []).1.toOption.map (·.models.map (·.responses.map (·.type))) =
        some [["Pet", "Option<Pet>"]] := by
    unfold Generation.report Generation.run Generation.prepare
    rw [hvisit]
    decide +kernel
  obtain ⟨document, s, report, hread, hgraph, hoperations, hreport, htypes⟩ :=
    Reading.report_of_parts foundData [(.str "Pet", 0), (.str "Found", 1)] (by decide +kernel)
      htypes
  refine ⟨document, s, report, hread, hoperations, ?_, ?_, hreport, htypes⟩
  · rw [hgraph]
    exact .step rfl (.step rfl (.stop rfl))
  · rw [hgraph]
    decide +kernel

end ApiClients
