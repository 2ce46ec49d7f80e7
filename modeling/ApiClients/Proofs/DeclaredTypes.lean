import ApiClients.Proofs.EmittedTypes
import ApiClients.Proofs.Fingerprints
import ApiClients.Proofs.TwoReadings

/-!
# Declared types do not depend on operations

Two documents with the same definitions may have whatever operations they like: the definitions get
the same nodes, and the types among them the same emitted names (`declared_types_same`).  Reading
operations adds nodes behind those of the definitions and leaves these alone; and a pass registers
what the definitions lead to before anything else, in an order and under names that depend on these
nodes alone.
-/

namespace ApiClients

/-! ### The nodes of definitions -/

/-- The nodes of some definitions in a document. -/
def Document.nodesOf (document : Document) (defs : List (Json × Json)) : List NodeId :=
  defs.filterMap fun entry => Entries.get? document.schemas entry.1

namespace Reading

section

variable {reader reader' s s' t : Reading} {data data' : Json} {document document' : Document}
  {defs : List (Json × Json)}

/-- The definitions of a document have been read before its operations, and what they have been read
to is the beginning of its graph and of its schemas. -/
theorem begins_of_read (h : Reading.read reader data = (.ok document, s))
    (hdefs : Json.definitions data = .ok defs) :
    ∃ t, runStep (readDefinitions defs) (reader.begin data defs) = (.ok (), t) ∧ t.Sound
      ∧ t.graph.Begins document.graph ∧ t.named <+: document.schemas
      ∧ ∀ entry ∈ defs, ∃ id, Entries.get? t.named entry.1 = some id := by
  obtain ⟨defs', t, u, operations, hdefs', hloop, hoperations, -, hschemas, hgraph⟩ := document_ok h
  cases hdefs.symm.trans hdefs'
  obtain ⟨⟨ht, -⟩, hnamed⟩ := named_of_readDefinitions (sound_begin reader data defs) hloop
  have hgrows := (stays_operations t ht.after).1.2
  rw [hoperations] at hgrows
  have hpasses := ((admits_all data).readDefinitions (s := reader.begin data defs) rfl
    (Scope.covers_all fun hname => by cases hname) _
    (Passes.refl (sound_begin reader data defs))).1 () t hloop
  have hclosed := hpasses.law (law_closed .all)
  refine ⟨t, hloop, ht, ⟨fun _ hchild => hclosed _ _ hchild, ?_, ?_⟩, ?_, hnamed⟩
  · exact hgraph ▸ hgrows.size
  · exact fun hid => hgraph ▸ hgrows.kept _ hid
  · exact hschemas ▸ hgrows.named

/-- Two documents with the same definitions begin alike, with a node for each definition. -/
theorem begin_alike (h : Reading.read reader data = (.ok document, s))
    (h' : Reading.read reader' data' = (.ok document', s'))
    (hdefs : Json.definitions data = .ok defs) (hdefs' : Json.definitions data' = .ok defs)
    (hrefs : RefsDefined defs) :
    ∃ (graph : Graph) (named : List (Json × NodeId)),
      graph.Begins document.graph ∧ graph.Begins document'.graph
      ∧ named <+: document.schemas ∧ named <+: document'.schemas
      ∧ (∀ id ∈ named.map (·.2), id < graph.size)
      ∧ ∀ entry ∈ defs, ∃ id, Entries.get? named entry.1 = some id := by
  obtain ⟨t, hloop, ht, hbegins, hnamed, hdone⟩ := begins_of_read h hdefs
  obtain ⟨t', hloop', -, hbegins', hnamed', -⟩ := begins_of_read h' hdefs'
  have hstart : Alike defs (reader.begin data defs) (reader'.begin data' defs) :=
    ⟨rfl, rfl, rfl, rfl⟩
  obtain ⟨-, halike⟩ := agree_readDefinitions hrefs _ _ hstart () t () t' hloop hloop'
  refine ⟨t.graph, t.named, hbegins, halike.graph ▸ hbegins', hnamed, halike.named ▸ hnamed', ?_,
    hdone⟩
  intro id hid
  obtain ⟨⟨name, _⟩, hentry, rfl⟩ := List.mem_map.mp hid
  exact (ht.known (Entries.get?_of_mem ht.distinct hentry)).1

end

end Reading

/-! ### The same names -/

namespace Registry

open Typing

section

variable {language : Language} {graph whole : Graph} {ids more : List NodeId}

/-- Two states with one registry. -/
def Same (s t : Typing) : Prop := s.registry = t.registry

/-- What naming a node does to the registry does not depend on the journal. -/
theorem agree_assign (language : Language) (graph : Graph) (id : NodeId) :
    Agree Same (assign language graph id) (assign language graph id) := by
  have hupdate : ∀ change, Agree Same (update change) (update change) := fun change =>
    agree_modify fun s t (h : s.registry = t.registry) => congrArg change h
  refine agree_get_bind fun s t h => ?_
  rw [show s.registry = t.registry from h]
  cases t.registry.nameOf? id with
  | some name => exact agree_pure name
  | none =>
    refine agree_mk_bind fun fingerprint _ => agree_mk_bind fun identity _ => ?_
    refine agree_get_bind fun s t h => ?_
    rw [show s.registry = t.registry from h]
    cases (t.registry.variantsOf identity).find? (·.1 = fingerprint) with
    | some variant => exact agree_bind (hupdate _) fun _ => agree_pure variant.2
    | none =>
      refine agree_get_bind fun s t h => ?_
      rw [show s.registry = t.registry from h]
      exact agree_bind (agree_modify fun _ _ h => h) fun _ => agree_bind (hupdate _) fun _ =>
        agree_pure _

theorem agree_registerAll (language : Language) (graph : Graph) (ids : List NodeId) :
    Agree Same (registerAll language graph ids) (registerAll language graph ids) := by
  induction ids with
  | nil => exact agree_pure ()
  | cons id ids ih =>
    cases hdefinition : (graph.actualNode id).isTypeDefinition with
    | true =>
      rw [registerAll_cons_definition hdefinition]
      exact agree_bind (agree_assign language graph _) fun _ => ih
    | false =>
      rw [registerAll_cons_other hdefinition]
      exact ih

/-- Nodes that a graph begins with are registered as they are in the beginning alone. -/
theorem registerAll_begins (h : graph.Begins whole) (hids : ∀ id ∈ ids, id < graph.size) :
    registerAll language whole ids = registerAll language graph ids := by
  induction ids with
  | nil => rw [registerAll_nil, registerAll_nil]
  | cons id ids ih =>
    have hrest := ih fun other hother => hids other (List.mem_cons_of_mem id hother)
    have hid := hids id List.mem_cons_self
    have hlt : graph.actual id < graph.size := Graph.follow_mem (C := (· < graph.size))
      (fun _ _ hlt hnext => h.closed hlt (Graph.refersTo_reference hnext)) [] hid
    have hnode : whole.actualNode id = graph.actualNode id := by
      unfold Graph.actualNode
      rw [h.actual hid, h.kept hlt]
    cases hdefinition : (graph.actualNode id).isTypeDefinition with
    | true =>
      have hassign : assign language whole (graph.actual id) =
          assign language graph (graph.actual id) := by
        unfold assign
        rw [h.fingerprint hlt, h.kept hlt]
      rw [registerAll_cons_definition hdefinition, registerAll_cons_definition (hnode ▸ hdefinition),
        h.actual hid, hassign, hrest]
    | false =>
      rw [registerAll_cons_other hdefinition, registerAll_cons_other (hnode ▸ hdefinition), hrest]

end

end Registry

namespace Generation

section

variable {settings : Settings} {graph whole whole' : Graph} {declared rest rest' : List NodeId}
  {operations operations' : List Operation} {journal journal' : Journal} {report report' : Report}
  {t t' : Typing}

/-- What comes first among the schemas to emit is registered first. -/
theorem registered_of_run (hbegins : graph.Begins whole) (hdeclared : ∀ id ∈ declared, id < graph.size)
    (h : runStep (run settings whole (declared ++ rest) operations) { journal := journal } =
      (.ok report, t)) :
    ∃ language v, settings.targetLanguage = .ok language
      ∧ runStep (Registry.registerAll language graph (graph.typeDefinitions declared))
          { journal := journal } = (.ok (), v)
      ∧ v.registry.Extends t.registry ∧ report.namedTypes = t.registry.definitions := by
  obtain ⟨language, builder, u, tried, hlanguage, hprepare, htried, rfl⟩ := run_ok h
  obtain ⟨-, w, hregister, hfrozen⟩ := prepare_ok hprepare
  have hregistry : t.registry = { w.registry with frozen := true } :=
    (registry_of_outcomes hprepare htried).trans hfrozen
  -- the walk from the roots begins with the walk from the declared ones
  obtain ⟨hvisit, hlt⟩ := hbegins.visit [] hdeclared
  obtain ⟨more, hmore⟩ : graph.typeDefinitions declared
      <+: whole.typeDefinitions (roots (declared ++ rest) operations) := by
    have hwalk := (whole.visit_prefix [] declared (rest ++ operations.flatMap Operation.schemas))
    rw [hvisit] at hwalk
    have hfilter : graph.typeDefinitions declared =
        (graph.visit [] declared).filter fun id => (whole.node id).isTypeDefinition :=
      List.filter_congr fun id hid => by rw [hbegins.kept (hlt id hid)]
    rw [hfilter, Graph.typeDefinitions, roots, List.append_assoc]
    exact hwalk.filter _
  rw [Registry.runStep_register, ← hmore, if_neg (by simp), Registry.registerAll_append,
    runStep_bind_ok] at hregister
  obtain ⟨_, v, hfirst, hlast⟩ := hregister
  have hdefinitions : ∀ id ∈ graph.typeDefinitions declared, id < graph.size :=
    fun id hid => hlt id (List.mem_of_mem_filter hid)
  rw [Registry.registerAll_begins hbegins hdefinitions] at hfirst
  have hextends := Registry.extends_registerAll language whole more v
  rw [hlast] at hextends
  exact ⟨language, v, hlanguage, hfirst, hregistry ▸ ⟨hextends.names, hextends.definitions⟩, rfl⟩

end

end Generation

/-! ### Declared types -/

/-- The types that definitions declare do not depend on the operations.  For two documents with the
same definitions, in which all references name definitions, each definition has one node in both, and
what these nodes lead to is the same in both.  When passes with the same settings end in a report for
both, whatever the operations are, both reports begin with the same types, and each type definition
that the definitions lead to is emitted under one and the same of their names. -/
theorem declared_types_same {reader reader' s s' : Reading} {data data' : Json}
    {document document' : Document} {defs : List (Json × Json)}
    (hread : Reading.read reader data = (.ok document, s))
    (hread' : Reading.read reader' data' = (.ok document', s'))
    (hdefs : Json.definitions data = .ok defs) (hdefs' : Json.definitions data' = .ok defs)
    (hrefs : Reading.RefsDefined defs) :
    (∀ entry ∈ defs, ∃ id, Entries.get? document.schemas entry.1 = some id
        ∧ Entries.get? document'.schemas entry.1 = some id)
      ∧ (∀ id, document.graph.Within (document.nodesOf defs) id ↔
          document'.graph.Within (document'.nodesOf defs) id)
      ∧ (∀ id, document.graph.Within (document.nodesOf defs) id →
          document.graph.node id = document'.graph.node id)
      ∧ ∀ settings operations operations' journal journal' report report' t t',
          runStep (Generation.run settings document.graph document.definitions operations)
              { journal := journal } = (.ok report, t) →
          runStep (Generation.run settings document'.graph document'.definitions operations')
              { journal := journal' } = (.ok report', t') →
            ∃ types, types <+: report.namedTypes ∧ types <+: report'.namedTypes
              ∧ ∀ id, document.graph.Within (document.nodesOf defs) id →
                (document.graph.node id).isTypeDefinition = true →
                  ∃ name ∈ types.map (·.1), t.registry.nameOf? id = some name
                    ∧ t'.registry.nameOf? id = some name := by
  obtain ⟨graph, named, hbegins, hbegins', hnamed, hnamed', hlt, hdone⟩ :=
    Reading.begin_alike hread hread' hdefs hdefs' hrefs
  have hnodes : ∀ entry ∈ defs, ∃ id ∈ named.map (·.2),
      Entries.get? document.schemas entry.1 = some id
        ∧ Entries.get? document'.schemas entry.1 = some id := by
    intro entry hentry
    obtain ⟨id, hid⟩ := hdone entry hentry
    exact ⟨id, List.mem_map_of_mem (Entries.mem_of_get? hid), Reading.get?_mono hnamed hid,
      Reading.get?_mono hnamed' hid⟩
  have hroots : document'.nodesOf defs = document.nodesOf defs :=
    List.filterMap_congr fun entry hentry => by
      obtain ⟨id, -, hid, hid'⟩ := hnodes entry hentry
      rw [hid, hid']
  have hdeclared : ∀ root ∈ document.nodesOf defs, root ∈ named.map (·.2) := by
    intro root hroot
    obtain ⟨entry, hentry, hid⟩ := List.mem_filterMap.mp hroot
    obtain ⟨id, hmem, hid', -⟩ := hnodes entry hentry
    cases hid.symm.trans hid'
    exact hmem
  have hrootsLt : ∀ root ∈ document.nodesOf defs, root < graph.size :=
    fun root hroot => hlt root (hdeclared root hroot)
  have hwithin : ∀ {id}, document.graph.Within (document.nodesOf defs) id →
      graph.Within (document.nodesOf defs) id ∧ id < graph.size := fun hid =>
    ⟨hbegins.within hrootsLt hid,
      (hbegins.within_whole hrootsLt (hbegins.within hrootsLt hid)).2⟩
  refine ⟨fun entry hentry => ?nodes, fun id => ⟨fun hid => ?_, fun hid => ?_⟩, fun id hid => ?_, ?_⟩
  case nodes =>
    obtain ⟨id, -, hboth⟩ := hnodes entry hentry
    exact ⟨id, hboth⟩
  · rw [hroots]
    exact (hbegins'.within_whole hrootsLt (hwithin hid).1).1
  · rw [hroots] at hid
    exact (hbegins.within_whole hrootsLt (hbegins'.within hrootsLt hid)).1
  · rw [hbegins.kept (hwithin hid).2, hbegins'.kept (hwithin hid).2]
  intro settings operations operations' journal journal' report report' t t' hrun hrun'
  obtain ⟨rest, hrest⟩ := hnamed.map (·.2)
  obtain ⟨rest', hrest'⟩ := hnamed'.map (·.2)
  rw [Document.definitions, ← hrest] at hrun
  rw [Document.definitions, ← hrest'] at hrun'
  obtain ⟨language, v, hlanguage, hregister, hextends, htypes⟩ :=
    Generation.registered_of_run hbegins hlt hrun
  obtain ⟨language', v', hlanguage', hregister', hextends', htypes'⟩ :=
    Generation.registered_of_run hbegins' hlt hrun'
  cases hlanguage.symm.trans hlanguage'
  obtain ⟨-, hsame⟩ := Registry.agree_registerAll language graph _ { journal := journal }
    { journal := journal' } rfl () v () v' hregister hregister'
  have hlists := Registry.Lists.registerAll (Registry.Lists.empty graph) rfl hregister
  refine ⟨v.registry.definitions, htypes ▸ hextends.definitions, ?_, ?_⟩
  · rw [htypes', show v.registry = v'.registry from hsame]
    exact hextends'.definitions
  · intro id hid hdefinition
    obtain ⟨hgraph, hidlt⟩ := hwithin hid
    have hactual : graph.actual id = id := by
      rw [← hbegins.actual hidlt, Reading.actual_of_typeDefinition hread hdefinition]
    rw [hbegins.kept hidlt] at hdefinition
    have hlisted : id ∈ graph.typeDefinitions (named.map (·.2)) := by
      refine Graph.mem_typeDefinitions ?_ hdefinition
      obtain ⟨root, hroot, hpath⟩ := hgraph
      exact ⟨root, hdeclared root hroot, hpath⟩
    have hknown := Registry.knows_of_registerAll hregister id hlisted
    rw [Registry.Knows, Graph.actualNode, hactual] at hknown
    obtain ⟨name, hname⟩ := hknown hdefinition
    obtain ⟨identity, fingerprint, -, -, hmem⟩ := hlists.consistent.named hname
    exact ⟨name, Entries.has_iff.mp (hlists.consistent.emitted hmem), hextends.names hname,
      hextends'.names (hsame ▸ hname)⟩

def petsDefinitions : List (Json × Json) :=
  let pet := Json.obj [("$ref", .str "#/definitions/Pet")]
  [(.str "Owner", .obj [("type", .str "object"), ("properties", .obj [("pet", pet)])]),
   (.str "Pet", .obj [("properties", .obj [("next", pet)])])]

/-- The pets without their operation, beside the pets with it. -/
theorem declared_types_same_pets : ∃ document s document' s' report report' t t',
    Reading.read {} (petsData petsPaths) = (.ok document, s)
      ∧ Reading.read {} (petsData []) = (.ok document', s')
      ∧ runStep (Generation.run {} document.graph document.definitions document.operations) {} =
          (.ok report, t)
      ∧ runStep (Generation.run {} document'.graph document'.definitions document'.operations) {} =
          (.ok report', t')
      ∧ report'.namedTypes = [("Owner", 0), ("Pet", 1)]
      ∧ document.graph.node 1 = document'.graph.node 1
      ∧ ∃ name, t.registry.nameOf? 1 = some name ∧ t'.registry.nameOf? 1 = some name := by
  obtain ⟨document, s, hread, hgraph, hoperations, hschemas⟩ := read_pets
  obtain ⟨report, t, hrun, -⟩ := run_pets
  obtain ⟨document', s', hread', hgraph', hoperations', hschemas'⟩ :
      ∃ document s, Reading.read {} (petsData []) = (.ok document, s)
        ∧ document.graph = ⟨petsGraph.nodes.take 2⟩ ∧ document.operations = []
        ∧ document.schemas = [(.str "Owner", 0), (.str "Pet", 1)] :=
    Reading.read_of_parts (by decide +kernel)
  have hdefinitions' : document'.definitions = [0, 1] := by
    rw [Document.definitions, hschemas']
    rfl
  have hvisit : Graph.typeDefinitions ⟨petsGraph.nodes.take 2⟩ (Generation.roots [0, 1] []) =
      [0, 1] := by
    have hwalk : Graph.visit ⟨petsGraph.nodes.take 2⟩ [] (Generation.roots [0, 1] []) = [0, 1] := by
      simp [Graph.visit, petsGraph, Graph.node, Node.children, Generation.roots]
    rw [Graph.typeDefinitions, hwalk]
    decide +kernel
  have htypes : (runStep (Generation.run {} ⟨petsGraph.nodes.take 2⟩ [0, 1] []) {}).1.toOption.map
      (·.namedTypes) = some [("Owner", 0), ("Pet", 1)] := by
    unfold Generation.run Generation.prepare
    rw [hvisit]
    decide +kernel
  rw [← hgraph', ← hdefinitions', ← hoperations'] at htypes
  rcases hrun' : runStep (Generation.run {} document'.graph document'.definitions
    document'.operations) {} with ⟨failure | report', t'⟩
  · rw [hrun'] at htypes
    cases htypes
  rw [hrun'] at htypes
  have hdefinitions : document.definitions = [0, 1, 2] := by
    rw [Document.definitions, hschemas]
    rfl
  rw [← hgraph, ← hdefinitions, ← hoperations] at hrun
  have hrefs : Reading.RefsDefined petsDefinitions :=
    Reading.refsDefined_of_namesOnly _ (by decide +kernel)
  obtain ⟨-, -, hsame, hemitted⟩ := declared_types_same hread hread' rfl rfl hrefs
  have hwithin : document.graph.Within (document.nodesOf petsDefinitions) 1 := by
    refine Graph.within_root ?_
    rw [Document.nodesOf, hschemas]
    decide +kernel
  obtain ⟨types, -, -, hnames⟩ := hemitted {} _ _ [] [] report report' t t' hrun hrun'
  obtain ⟨name, -, hname, hname'⟩ := hnames 1 hwithin (by rw [hgraph]; decide +kernel)
  exact ⟨document, s, document', s', report, report', t, t', hread, hread', hrun, hrun',
    Option.some.inj htypes, hsame 1 hwithin, name, hname, hname'⟩

end ApiClients
