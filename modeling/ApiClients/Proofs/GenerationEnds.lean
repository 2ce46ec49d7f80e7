import ApiClients.Proofs.KeywordKinds

/-!
# Generation ends in a report

A pass over the operations of a document ends in a report unless a type definition has a shape
without an end.  Nothing else can end a pass early on a document whose references name definitions
and whose keywords have values of their kinds: type definitions have names to be registered under
(`upholds_assign`), and in the second phase an operation fails for faults of its own only
(`no_error_of_outcomes`).
-/

namespace ApiClients

/-- A pass fails because the shape of a type definition has no end. -/
def Generation.Unending (graph : Graph) (e : Failure) : Prop :=
  e = .endless ∧ ∃ id, (graph.node id).isTypeDefinition = true ∧ graph.Endless id

namespace Reading.Prepared

open Generation

variable {settings : Settings} {language : Language} {document : Document}
  {schemas : List NodeId} {builder : Builder} {s t u : Typing} {e : Failure} (h : Prepared document)

include h

theorem sorted (id : NodeId) : Json.sort? (document.graph.node id).required ≠ none :=
  Json.sort?_texts (h.nodes id).required

/-- A type definition gets its name unless its shape has no end. -/
theorem upholds_assign {id : NodeId} (hid : (document.graph.node id).isTypeDefinition = true) :
    Upholds (fun s : Typing => s.registry.frozen = false) (Unending document.graph)
      (Registry.assign language document.graph id) := by
  intro s hs
  have hrun := Registry.assign_run language document.graph id s
  generalize runStep (Registry.assign language document.graph id) s = run at hrun
  obtain ⟨outcome, t⟩ := run
  cases hrun with
  | known _ _ => exact ⟨hs, fun _ he => by cases he⟩
  | shared _ _ _ _ _ _ _ => exact ⟨hs, fun _ he => by cases he⟩
  | fresh _ _ _ _ _ _ => exact ⟨hs, fun _ he => by cases he⟩
  | refused failure _ hreason =>
    refine ⟨hs, fun e he => ?_⟩
    cases he
    rcases hreason with hfingerprint | hidentity
    · obtain ⟨hendless, hshape⟩ := Graph.fingerprint_error h.sorted hfingerprint
      exact ⟨hendless, id, hid, hshape⟩
    · obtain ⟨name, hname⟩ := Json.isText_iff.mp (h.names id (Node.named_of_typeDefinition hid))
      rw [Registry.identity_of_str hname] at hidentity
      cases hidentity

/-- The first phase fails only because the shape of a type definition has no end. -/
theorem error_of_prepare (hs : s.registry.frozen = false) {operations : List Operation}
    (hrun : runStep (prepare settings language document.graph schemas operations) s = (.error e, t)) :
    Unending document.graph e := by
  unfold prepare at hrun
  rcases runStep_bind_error.mp hrun with hregister | ⟨_, u, -, hrest⟩
  · have hupholds : Upholds (fun s : Typing => s.registry.frozen = false)
        (Unending document.graph) (Registry.register language document.graph
          (document.graph.typeDefinitions (roots schemas operations))) := by
      refine Registry.upholds_register (P := (·.frozen = false))
        (fun id hid => h.upholds_assign hid) fun registry hopen hfrozen => ?_
      rw [hopen] at hfrozen
      cases hfrozen
    exact (hupholds s hs).2 e (by rw [hregister])
  · cases hrest

/-- The checks of an operation fail for faults of its own only: its parameters have texts for names. -/
theorem fails {operation : Operation} (hoperation : operation ∈ document.operations) :
    operation.Fails language (·.ofOperation = true) := by
  refine ⟨fun hfault => by cases hfault <;> rfl, fun hparameters hnames => ?_⟩
  rcases Naming.variableNames_error hnames with ⟨-, parameter, hparameter, hname⟩ | ⟨_, _, _, hsame⟩
  · obtain ⟨text, htext⟩ := Json.isText_iff.mp
      (h.parameters operation hoperation _ hparameters parameter hparameter)
    exact absurd htext (hname text)
  · cases hsame

/-- Types are resolved without a failure: all formats can be looked up. -/
theorem builds {registered : Registry} {nodes : List NodeId}
    (hcovers : registered.Covers document.graph nodes) :
    Builds registered.Extends (·.ofOperation = true) language document.graph nodes := by
  refine ⟨hcovers.mono, fun {id} _ nullable use => ?_⟩
  refine Resolver.upholds_primitiveType language _ nullable use fun hformat => ?_
  have hkey := Json.isKey_of_isTextOrNull (h.nodes (document.graph.actual id)).format
  exact absurd (hkey.symm.trans hformat) (by simp)

/-- In the second phase no operation ends the pass. -/
theorem no_error_of_outcomes
    (hprepare : runStep (prepare settings language document.graph schemas document.operations) s =
      (.ok builder, t)) :
    runStep (outcomes builder document.operations) t ≠ (.error e, u) := by
  intro hrun
  have hupholds : Upholds (fun v : Typing => t.registry.Extends v.registry) (fun _ => False)
      (outcomes builder document.operations) := by
    refine upholds_mapM fun operation hoperation => ?_
    have hready := ready_of_prepare hprepare operation hoperation
    obtain ⟨rfl, -⟩ := prepare_ok hprepare
    refine hready.upholds_attempt (h.builds hready.covers) (h.fails hoperation) ?_
    intro failure hown hother
    rw [hown] at hother
    cases hother
  exact (hupholds t (Registry.Extends.refl _)).2 e (by rw [hrun])

theorem error_of_run (hlanguage : settings.targetLanguage = .ok language)
    (hs : s.registry.frozen = false)
    (hrun : runStep (run settings document.graph schemas document.operations) s = (.error e, t)) :
    Unending document.graph e := by
  unfold run at hrun
  rcases runStep_bind_error.mp hrun with hfails | ⟨language', u, hfound, hrun⟩
  · cases hlanguage.symm.trans (congrArg Prod.fst hfails)
  cases hlanguage.symm.trans (congrArg Prod.fst hfound)
  cases congrArg Prod.snd hfound
  rcases runStep_bind_error.mp hrun with hprepare | ⟨builder, v, hprepare, hrun⟩
  · exact h.error_of_prepare hs hprepare
  rcases runStep_bind_error.mp hrun with houtcomes | ⟨tried, w, -, hrun⟩
  · exact absurd houtcomes (h.no_error_of_outcomes hprepare)
  · cases hrun

end Reading.Prepared

/-- Where its references name definitions and its keywords have values of their kinds, a document is
taken through a pass to a report exactly when the shapes of all its type definitions have an end: when
none of them leads, through what it is spelled out with, into a circle of nodes that are no type
definitions.  A shape has a fingerprint exactly when it has an end, and no other failure can come
between. -/
theorem generation_ends_iff {reader s : Reading} {data : Json} {document : Document}
    {defs : List (Json × Json)} {settings : Settings} {language : Language}
    (hread : Reading.read reader data = (.ok document, s))
    (hdefs : Json.definitions data = .ok defs) (hrefs : Reading.RefsNamed defs data)
    (hkinds : Reading.WellKinded defs data)
    (hlanguage : settings.targetLanguage = .ok language) (journal : Journal) :
    (∀ id, (∃ fingerprint, document.graph.fingerprint id = .ok fingerprint) ↔
        ¬ document.graph.Endless id)
      ∧ ((∃ report, (Generation.report settings document.graph document.definitions
            document.operations journal).1 = .ok report) ↔
          ∀ id ∈ document.definitions, (document.graph.node id).isTypeDefinition = true →
            ¬ document.graph.Endless id)
      ∧ ∀ e, (Generation.report settings document.graph document.definitions
          document.operations journal).1 = .error e → e = .endless := by
  have hprepared := Reading.kinded_of_read hread hdefs hrefs hkinds
  have hfingerprint := Graph.fingerprint_iff hprepared.sorted
  rcases hrun : runStep (Generation.run settings document.graph document.definitions
    document.operations) { journal := journal } with ⟨e | report, t⟩
  · have hreport : (Generation.report settings document.graph document.definitions
        document.operations journal).1 = .error e := congrArg Prod.fst hrun
    obtain ⟨rfl, id, hid, hendless⟩ := hprepared.error_of_run hlanguage rfl hrun
    refine ⟨hfingerprint, iff_of_false ?_ ?_, fun e he => ?_⟩
    · rintro ⟨report, hok⟩
      rw [hreport] at hok
      cases hok
    · exact fun hends => hends id (Reading.schema_of_typeDefinition hread hid) hid hendless
    · exact Except.error.inj (he.symm.trans hreport)
  · have hreport : (Generation.report settings document.graph document.definitions
        document.operations journal).1 = .ok report := congrArg Prod.fst hrun
    refine ⟨hfingerprint, iff_of_true ⟨report, hreport⟩ fun id _ hid => ?_, fun e he => ?_⟩
    · obtain ⟨name, hname⟩ := Generation.named_of_run hread hrun hid
      obtain ⟨-, ⟨hconsistent, -⟩, -⟩ := Generation.types_of_run hrun
      obtain ⟨identity, fingerprint, -, hok, -⟩ := hconsistent.named hname
      exact (hfingerprint id).mp ⟨fingerprint, hok⟩
    · rw [hreport] at he
      cases he

/-- Trees with a forest of branches each, and a nest of nests beside them. -/
def forestData : Json :=
  let pointer := fun name : String => Json.obj [("$ref", .str ("#/definitions/" ++ name))]
  .obj [
    ("definitions", .obj [
      ("Forest", .obj [("type", .str "array"), ("items", pointer "Tree")]),
      ("Tree", .obj [
        ("properties", .obj [("branches", pointer "Forest"), ("parent", pointer "Tree")]),
        ("required", .arr [.str "parent", .str "branches"])]),
      ("Nest", .obj [("type", .str "array"), ("items", pointer "Nest")])]),
    ("paths", .obj [])]

def forestGraph : Graph where
  nodes := #[
    { kinds := Kinds.ofList [.array], typeName := .str "Forest", items := some 1 },
    { kinds := Kinds.ofList [.object], typeName := .str "Tree",
      properties := [("branches", 0), ("parent", 1)],
      required := [.str "parent", .str "branches"] },
    { kinds := Kinds.ofList [.array], typeName := .str "Nest", items := some 2 }]

theorem generation_ends_forest : ∃ document s,
    Reading.read {} forestData = (.ok document, s)
      ∧ document.graph.Endless 2
      ∧ ∃ report, (Generation.report {} document.graph document.definitions document.operations
          []).1 = .ok report := by
  obtain ⟨document, s, hread, hgraph, -, hschemas⟩ :
      ∃ document s, Reading.read {} forestData = (.ok document, s)
        ∧ document.graph = forestGraph ∧ document.operations = []
        ∧ document.schemas = [(.str "Forest", 0), (.str "Tree", 1), (.str "Nest", 2)] :=
    Reading.read_of_parts (by decide +kernel)
  obtain ⟨hfingerprint, hreport, -⟩ := @generation_ends_iff {} s forestData document _ {} _ hread rfl
    (Reading.refsNamed_of_definitions _ (Reading.not_declares rfl) (by decide +kernel))
    (Reading.wellKinded_of_definitions (Reading.not_declares rfl) (by decide +kernel)
      (by decide +kernel)) rfl []
  refine ⟨document, s, hread, ?nest, hreport.mpr ?ends⟩
  case nest =>
    rw [hgraph]
    have hpart : forestGraph.Inlines 2 2 := by decide +kernel
    exact ⟨2, hpart.2, 2, .refl, .single hpart⟩
  case ends =>
    intro id hid hdefinition
    rw [Document.definitions, hschemas] at hid
    rw [hgraph] at hdefinition hfingerprint ⊢
    have htree : (forestGraph.fingerprint 1).toBool = true := by decide +kernel
    obtain rfl : id = 1 := by
      simp only [List.map_cons, List.map_nil, List.mem_cons, List.not_mem_nil, or_false] at hid
      rcases hid with rfl | rfl | rfl
      · exact absurd hdefinition (by decide +kernel)
      · rfl
      · exact absurd hdefinition (by decide +kernel)
    refine (hfingerprint 1).mp ?_
    cases hok : forestGraph.fingerprint 1 with
    | ok fingerprint => exact ⟨fingerprint, rfl⟩
    | error e =>
      rw [hok] at htree
      cases htree

/-- A box with a tree that is an array of itself. -/
def boxData : Json :=
  let tree := Json.obj [("$ref", .str "#/components/schemas/Tree")]
  .obj [
    ("openapi", .str "3.0.0"),
    ("info", .obj [("title", .str "t"), ("version", .str "1")]),
    ("paths", .obj []),
    ("components", .obj [("schemas", .obj [
      ("Tree", .obj [("type", .str "array"), ("items", tree)]),
      ("Box", .obj [("type", .str "object"), ("properties", .obj [("tree", tree)])])])])]

def boxGraph : Graph where
  nodes := #[
    { kinds := Kinds.ofList [.array], typeName := .str "Tree", items := some 0 },
    { kinds := Kinds.ofList [.object], typeName := .str "Box", properties := [("tree", 0)] }]

/-- The references of this document name definitions and its keywords have values of their kinds, but
there is no report: the fingerprint of the box never ends. -/
theorem generation_endless_box : ∃ document s defs,
    Reading.read {} boxData = (.ok document, s)
      ∧ Json.definitions boxData = .ok defs
      ∧ Reading.RefsNamed defs boxData ∧ Reading.WellKinded defs boxData
      ∧ (document.graph.node 1).typeName = .str "Box"
      ∧ document.graph.fingerprint 1 = .error .endless
      ∧ (Generation.report {} document.graph document.definitions document.operations []).1 =
          .error .endless := by
  obtain ⟨document, s, hread, hgraph, hoperations, hschemas⟩ :
      ∃ document s, Reading.read {} boxData = (.ok document, s)
        ∧ document.graph = boxGraph ∧ document.operations = []
        ∧ document.schemas = [(.str "Tree", 0), (.str "Box", 1)] :=
    Reading.read_of_parts (by decide +kernel)
  have hdefinitions : document.definitions = [0, 1] := by
    rw [Document.definitions, hschemas]
    rfl
  have hvisit : boxGraph.typeDefinitions (Generation.roots [0, 1] []) = [1] := by
    have hwalk : boxGraph.visit [] (Generation.roots [0, 1] []) = [0, 1] := by
      simp [Graph.visit, boxGraph, Graph.node, Node.children, Generation.roots]
    rw [Graph.typeDefinitions, hwalk]
    decide +kernel
  refine ⟨document, s, _, hread, rfl,
    Reading.refsNamed_of_definitions _ (Reading.not_declares rfl) (by decide +kernel),
    Reading.wellKinded_of_definitions (Reading.not_declares rfl) (by decide +kernel)
      (by decide +kernel), ?_⟩
  rw [hgraph, hdefinitions, hoperations]
  refine ⟨rfl, by decide +kernel, ?_⟩
  unfold Generation.report Generation.run Generation.prepare
  rw [hvisit]
  decide +kernel

end ApiClients
