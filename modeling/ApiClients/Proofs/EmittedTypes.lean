import ApiClients.Proofs.Counts
import ApiClients.Proofs.Coverage
import ApiClients.Proofs.Parsed

/-!
# One node and one emitted type for each definition

A document that has been read has one node for each name of a definition, whichever spelling of the
name is looked up.  A pass over its operations emits its type definitions and nothing else, each
under a name of its own (`emitted_once`).  What could come between is the registry, which lets
definitions of one name and one shape share an emitted name: definitions of different names share one
only if their names are both not given.
-/

namespace ApiClients

/-! ### Keys that compare equal -/

section

variable {α : Type}

theorem Json.normal_eq_str {value : Json} {text : String} :
    value.normal = .str text ↔ value = .str text := by
  cases value with
  | real x => cases h : x.toInt? <;> simp [normal, h]
  | _ => simp [normal]

theorem Json.normal_eq_null {value : Json} : value.normal = .null ↔ value = .null := by
  cases value with
  | real x => cases h : x.toInt? <;> simp [normal, h]
  | _ => simp [normal]

/-- A text compares equal to itself only. -/
theorem Json.equal_str {value : Json} {text : String} :
    Json.equal value (.str text) = true ↔ value = .str text := by
  simp only [equal, decide_eq_true_eq]
  exact normal_eq_str

theorem Json.equal_comm (a b : Json) : Json.equal a b = Json.equal b a := by
  simp only [equal, eq_comm]

/-- No two keys of some entries compare equal. -/
def KeysApart (entries : List (Json × α)) : Prop :=
  ∀ a ∈ entries.map (·.1), ∀ b ∈ entries.map (·.1), Json.equal a b = true → a = b

theorem KeysApart.subset {β : Type} {entries : List (Json × α)} {fewer : List (Json × β)}
    (h : KeysApart entries) (hfewer : fewer.map (·.1) ⊆ entries.map (·.1)) : KeysApart fewer :=
  fun a ha b hb => h a (hfewer ha) b (hfewer hb)

/-- A key more that is like none of the others. -/
theorem KeysApart.snoc {entries : List (Json × α)} (h : KeysApart entries) {key : Json}
    (hkey : ∀ a ∈ entries.map (·.1), Json.equal a key = true → a = key) (value : α) :
    KeysApart (entries ++ [(key, value)]) := by
  intro a ha b hb hequal
  rw [List.map_append, List.mem_append] at ha hb
  rcases ha with ha | ha <;> rcases hb with hb | hb
  · exact h a ha b hb hequal
  · obtain rfl := List.mem_singleton.mp hb
    exact hkey a ha hequal
  · obtain rfl := List.mem_singleton.mp ha
    exact (hkey b hb (Json.equal_comm _ _ ▸ hequal)).symm
  · exact (List.mem_singleton.mp ha).trans (List.mem_singleton.mp hb).symm

theorem keysApart_texts {entries : List (Json × α)}
    (h : ∀ a ∈ entries.map (·.1), ∃ text, a = .str text) : KeysApart entries := by
  intro a _ b hb hequal
  obtain ⟨text, rfl⟩ := h b hb
  exact Json.equal_str.mp hequal

/-- A value is put under the key that is like its own, or at the end if there is none. -/
theorem keys_putAlike {alike : Json → Json → Bool} {key : Json} {value : α}
    {entries : List (Json × α)} :
    (Entries.putAlike alike key value entries).map (·.1) = entries.map (·.1)
      ∨ (∀ a ∈ entries.map (·.1), alike a key = false)
        ∧ Entries.putAlike alike key value entries = entries ++ [(key, value)] := by
  induction entries with
  | nil => exact Or.inr ⟨fun _ ha => (by cases ha), rfl⟩
  | cons first rest ih =>
    by_cases hfirst : alike first.1 key = true
    · left
      simp [Entries.putAlike, hfirst]
    · rcases ih with ih | ⟨hnone, ih⟩
      · left
        simp [Entries.putAlike, hfirst, ih]
      · right
        refine ⟨?_, by simp [Entries.putAlike, hfirst, ih]⟩
        intro a ha
        rcases List.mem_cons.mp ha with rfl | ha
        · exact Bool.eq_false_iff.mpr hfirst
        · exact hnone a ha

theorem KeysApart.putAlike {entries : List (Json × α)} (h : KeysApart entries) (key : Json)
    (value : α) : KeysApart (Entries.putAlike Json.equal key value entries) := by
  rcases @keys_putAlike _ Json.equal key value entries with hkeys | ⟨hnone, hput⟩
  · exact h.subset fun _ ha => hkeys ▸ ha
  · rw [hput]
    refine h.snoc (fun a ha hequal => ?_) value
    rw [hnone a ha] at hequal
    cases hequal

end

namespace Json

theorem keysApart_pairs {items : List Json} {index : Nat} {entries found : List (Json × Json)}
    (hentries : KeysApart entries) (h : pairs index entries items = .ok found) :
    KeysApart found := by
  induction items generalizing index entries with
  | nil =>
    cases h
    exact hentries
  | cons value rest ih =>
    unfold pairs at h
    cases hpair : pair index value with
    | error e =>
      rw [hpair] at h
      cases h
    | ok entry =>
      rw [hpair] at h
      exact ih (hentries.putAlike entry.1 entry.2) h

theorem keysApart_mapping {value : Json} {found : List (Json × Json)}
    (h : mapping value = .ok found) : KeysApart found := by
  have hnil : KeysApart ([] : List (Json × Json)) := fun _ ha => by cases ha
  unfold mapping at h
  split at h
  · cases h
    exact hnil
  · split at h
    · cases h
      refine keysApart_texts fun a ha => ?_
      obtain ⟨_, hentry, rfl⟩ := List.mem_map.mp ha
      obtain ⟨member, -, rfl⟩ := List.mem_map.mp hentry
      exact ⟨member.1, rfl⟩
    · exact keysApart_pairs hnil h
    · exact keysApart_pairs hnil h
    · cases h

/-- The definitions of a document have names that can be told apart. -/
theorem keysApart_definitions {document : Json} {defs : List (Json × Json)}
    (h : definitions document = .ok defs) : KeysApart defs := by
  obtain ⟨value, hmapping, -⟩ := mapping_of_definitions h
  exact keysApart_mapping hmapping

end Json

/-! ### One node for a name -/

namespace Reading

section

variable {reader s : Reading} {data : Json} {document : Document}

/-- Promoted definitions have texts for names, so the names can be told apart with them too. -/
theorem History.keysApart {scope : Scope} {t : Reading} {moves : List Move}
    (h : History scope s moves t) (hs : KeysApart s.definitions) : KeysApart t.definitions := by
  refine h.keeps (P := fun u => KeysApart u.definitions) ?_ hs
  intro u move hallowed hu
  cases move with
  | define name data =>
    obtain ⟨⟨text, rfl⟩, -⟩ := hallowed
    show KeysApart (Entries.putNew u.definitions (.str text) data)
    unfold Entries.putNew
    split
    · exact hu
    · exact hu.snoc (fun a _ hequal => Json.equal_str.mp hequal) data
  | _ => exact hu

/-- The schemas are named as definitions are. -/
theorem names_subset (h : Reading.read reader data = (.ok document, s)) :
    document.schemas.map (·.1) ⊆ s.definitions.map (·.1) := by
  obtain ⟨defs, -, hpasses, hschemas, -⟩ := passes_of_read h
  have hcovers := hpasses.covers (Scope.covers_all fun hname => by cases hname)
  intro name hname
  rw [hschemas] at hname
  exact Entries.has_iff.mp (hcovers.declared (Entries.has_iff.mpr hname))

/-- The names that schemas have got can be told apart. -/
theorem keysApart_schemas (h : Reading.read reader data = (.ok document, s)) :
    KeysApart document.schemas := by
  obtain ⟨defs, hdefs, hpasses, -, -⟩ := passes_of_read h
  obtain ⟨moves, hcourse⟩ := hpasses.course
  have hbegin : KeysApart (reader.begin data defs).definitions := Json.keysApart_definitions hdefs
  exact (hcourse.history.keysApart hbegin).subset (names_subset h)

/-- A node that belongs to a definition is the node of this definition. -/
theorem schema_of_typeName (h : Reading.read reader data = (.ok document, s)) {id : NodeId}
    (hid : (document.graph.node id).typeName ≠ .null) :
    Entries.get? document.schemas (document.graph.node id).typeName = some id := by
  obtain ⟨defs, -, hpasses, hschemas, hgraph⟩ := passes_of_read h
  rw [hgraph] at hid ⊢
  rw [hschemas]
  exact hpasses.sound.owned hid

theorem typeName_of_schema (h : Reading.read reader data = (.ok document, s)) {name : Json}
    {id : NodeId} (hname : (name, id) ∈ document.schemas) :
    (document.graph.node id).typeName = name := by
  obtain ⟨defs, -, hpasses, hschemas, hgraph⟩ := passes_of_read h
  rw [hschemas] at hname
  rw [hgraph]
  exact (hpasses.sound.known (Entries.get?_of_mem hpasses.sound.distinct hname)).2

/-- Two nodes whose names compare equal are one node. -/
theorem node_of_equal_names (h : Reading.read reader data = (.ok document, s)) {id other : NodeId}
    (hid : (document.graph.node id).typeName ≠ .null)
    (hequal : Json.equal (document.graph.node id).typeName (document.graph.node other).typeName
      = true) : id = other := by
  have hother : (document.graph.node other).typeName ≠ .null := by
    intro hnull
    rw [hnull, Json.equal, decide_eq_true_eq] at hequal
    exact hid (Json.normal_eq_null.mp hequal)
  have hfirst := schema_of_typeName h hid
  have hsecond := schema_of_typeName h hother
  have hsame : (document.graph.node id).typeName = (document.graph.node other).typeName :=
    keysApart_schemas h _ (List.mem_map_of_mem (Entries.mem_of_get? hfirst)) _
      (List.mem_map_of_mem (Entries.mem_of_get? hsecond)) hequal
  rw [hsame, hsecond] at hfirst
  exact (Option.some.inj hfirst).symm

/-- Type definitions are among the schemas of the document. -/
theorem schema_of_typeDefinition (h : Reading.read reader data = (.ok document, s)) {id : NodeId}
    (hid : (document.graph.node id).isTypeDefinition = true) : id ∈ document.definitions := by
  have hname := schema_of_typeName h (Node.named_of_typeDefinition hid)
  exact List.mem_map_of_mem (Entries.mem_of_get? hname)

end

end Reading

/-! ### The definitions that the registry lists -/

namespace Registry

/-- The registry is consistent, and what it lists to be emitted are type definitions under the names
that they have. -/
structure Lists (graph : Graph) (registry : Registry) : Prop where
  consistent : registry.Consistent graph
  listed : ∀ {name id}, (name, id) ∈ registry.definitions →
    (graph.node id).isTypeDefinition = true ∧ registry.nameOf? id = some name

theorem Lists.empty (graph : Graph) : Lists graph {} :=
  ⟨Consistent.empty graph, fun h => by cases h⟩

theorem Lists.assign (language : Language) {graph : Graph} {id : NodeId}
    (hid : (graph.node id).isTypeDefinition = true) {s : Typing} (h : s.registry.Lists graph) :
    (runStep (assign language graph id) s).2.registry.Lists graph := by
  refine ⟨consistent_assign language id h.consistent, ?_⟩
  have hextends := extends_assign language graph id s
  have hrun := assign_run language graph id s
  generalize runStep (Registry.assign language graph id) s = run at hrun hextends
  obtain ⟨outcome, t⟩ := run
  intro name other hother
  cases hrun with
  | known _ _ => exact h.listed hother
  | refused _ _ _ => exact h.listed hother
  | shared _ _ _ _ _ _ _ =>
    obtain ⟨hdefinition, hname⟩ := h.listed hother
    exact ⟨hdefinition, hextends.names hname⟩
  | fresh fingerprint identity hunnamed _ _ _ =>
    rcases List.mem_append.mp hother with hold | hnew
    · obtain ⟨hdefinition, hname⟩ := h.listed hold
      exact ⟨hdefinition, hextends.names hname⟩
    · cases List.mem_singleton.mp hnew
      refine ⟨hid, ?_⟩
      rw [nameOf?_emit identity fingerprint hunnamed, if_pos rfl]

theorem Lists.register {language : Language} {graph : Graph} {ids : List NodeId} {s : Typing}
    (h : s.registry.Lists graph) :
    (runStep (register language graph ids) s).2.registry.Lists graph :=
  (upholds_register (P := fun registry => registry.Lists graph) (E := fun _ => True)
    (fun _ hid _ ht => ⟨Lists.assign language hid ht, fun _ _ => trivial⟩) (fun _ _ _ => trivial) s
    h).1

theorem Lists.registerAll {language : Language} {graph : Graph} {ids : List NodeId} {s t : Typing}
    (h : s.registry.Lists graph) (hfrozen : s.registry.frozen = false)
    (hrun : runStep (registerAll language graph ids) s = (.ok (), t)) :
    t.registry.Lists graph := by
  have hlists := @Lists.register language graph ids s h
  rw [runStep_register, if_neg (by simp [hfrozen]), hrun] at hlists
  exact hlists

end Registry

namespace Generation

section

variable {settings : Settings} {language : Language} {graph : Graph} {schemas : List NodeId}
  {operations : List Operation} {builder : Builder} {journal : Journal} {report : Report}
  {s t u : Typing}

/-- The second phase leaves the registry alone. -/
theorem registry_of_outcomes
    (h : runStep (prepare settings language graph schemas operations) s = (.ok builder, t))
    {tried : List (OperationModel ⊕ OperationFailure)}
    (htried : runStep (outcomes builder operations) t = (.ok tried, u)) :
    u.registry = t.registry := by
  refine (runStep_mapM_ok (P := fun v => v.registry = t.registry) (R := fun _ _ => True)
    ?_ rfl htried).1
  intro operation hoperation v w outcome hv hattempt
  have hready := ready_of_prepare h operation hoperation
  have hbuilds : Builds (· = t.registry) (operation.FaultOrEnd language) language builder.graph
      (roots schemas operations) :=
    ⟨fun hregistry => hregistry ▸ hready.covers, fun _ nullable use =>
      Resolver.upholds_primitiveType (P := (· = t.registry)) language _ nullable use fun _ =>
        operation.faultOrEnd_malformed language⟩
  have hkept := (hready.upholds_attempt (G := fun _ => True) hbuilds
    (Operation.fails_faultOrEnd operation language) (fun _ _ _ => trivial) v hv).1
  rw [hattempt] at hkept
  exact ⟨hkept, trivial⟩

/-- After a pass all nodes within reach have their names, and the types in the report are those that
the registry lists. -/
theorem types_of_run
    (h : runStep (run settings graph schemas operations) { journal := journal } =
      (.ok report, t)) :
    t.registry.Covers graph (roots schemas operations) ∧ t.registry.Lists graph
      ∧ report.namedTypes = t.registry.definitions := by
  obtain ⟨language, builder, u, tried, -, hprepare, htried, rfl⟩ := run_ok h
  have hcovers := covers_of_prepare hprepare
  obtain ⟨-, v, hregister, hfrozen⟩ := prepare_ok hprepare
  have hlists : (runStep (Registry.register language graph
      (graph.typeDefinitions (roots schemas operations))) { journal := journal }).2.registry.Lists
      graph := Registry.Lists.register (Registry.Lists.empty graph)
  rw [hregister] at hlists
  rw [registry_of_outcomes hprepare htried]
  refine ⟨hcovers, ?_, rfl⟩
  obtain ⟨⟨hnamed, hemitted, hsingle, hapart, hdistinct⟩, hlisted⟩ := hlists
  rw [hfrozen]
  exact ⟨⟨hnamed, hemitted, hsingle, hapart, hdistinct⟩, hlisted⟩

end

end Generation

/-! ### One type for a definition -/

/-- A definition whose name is given is registered under it. -/
theorem Registry.identity_given {node : Node} {text : String}
    (h : Registry.identity node = .ok text) (hgiven : node.typeName.given = true) :
    node.typeName = .str text := by
  unfold Registry.identity at h
  rw [hgiven] at h
  simp only [Bool.not_true, Bool.false_eq_true, if_false] at h
  split at h
  · rename_i name hname
    cases h
    exact hname
  · cases h

theorem Registry.identity_not_given {node : Node} (hgiven : node.typeName.given = false) :
    Registry.identity node = .ok "" := by
  unfold Registry.identity
  rw [hgiven]
  rfl

/-- Definitions with one emitted name have one name, unless their names are both not given. -/
theorem Registry.Consistent.typeName_of_name {graph : Graph} {registry : Registry}
    (h : registry.Consistent graph) {a b : NodeId} {name : String}
    (ha : registry.nameOf? a = some name) (hb : registry.nameOf? b = some name) :
    graph.fingerprint a = graph.fingerprint b
      ∧ ((graph.node a).typeName = (graph.node b).typeName
        ∨ (graph.node a).typeName.given = false ∧ (graph.node b).typeName.given = false) := by
  obtain ⟨identity, fingerprint, hidentity, hfingerprint, hmem⟩ := h.named ha
  obtain ⟨identity', fingerprint', hidentity', hfingerprint', hmem'⟩ := h.named hb
  obtain ⟨rfl, rfl⟩ := h.apart hmem hmem'
  refine ⟨hfingerprint.trans hfingerprint'.symm, ?_⟩
  have hempty : (Json.str "").given = false := by decide
  cases hgiven : (graph.node a).typeName.given with
  | true =>
    have hname := identity_given hidentity hgiven
    cases hgiven' : (graph.node b).typeName.given with
    | true => exact Or.inl (hname.trans (identity_given hidentity' hgiven').symm)
    | false =>
      cases hidentity'.symm.trans (identity_not_given hgiven')
      rw [hname, hempty] at hgiven
      cases hgiven
  | false =>
    cases hgiven' : (graph.node b).typeName.given with
    | false => exact Or.inr ⟨rfl, rfl⟩
    | true =>
      cases hidentity.symm.trans (identity_not_given hgiven)
      rw [identity_given hidentity' hgiven', hempty] at hgiven'
      cases hgiven'

/-- After a pass every type definition of a document has an emitted name: it stands for itself, so the
name that it is covered by is its own. -/
theorem Generation.named_of_run {reader s : Reading} {data : Json} {document : Document}
    {settings : Settings} {operations : List Operation} {journal : Journal} {report : Report}
    {t : Typing} (hread : Reading.read reader data = (.ok document, s))
    (hrun : runStep (Generation.run settings document.graph document.definitions operations)
      { journal := journal } = (.ok report, t)) {id : NodeId}
    (hid : (document.graph.node id).isTypeDefinition = true) :
    ∃ name, t.registry.nameOf? id = some name := by
  have hactual := Reading.actual_of_typeDefinition hread hid
  have hknown := (Generation.types_of_run hrun).1 id (Graph.within_root (List.mem_append_left _
    (Reading.schema_of_typeDefinition hread hid)))
  rw [Registry.Knows, Graph.actualNode, hactual] at hknown
  exact hknown hid

/-- One node and one emitted type for each definition.  Nodes of a document whose names compare equal
are one node, and it is the one that the schemas have under this name.  When a pass over any
operations with these schemas ends in a report, every type definition among them has an emitted name,
and two of them have the same one only if they have one shape and neither of their names is given; the
report lists type definitions of the document and nothing else, each name once. -/
theorem emitted_once {reader s : Reading} {data : Json} {document : Document}
    (hread : Reading.read reader data = (.ok document, s)) :
    (∀ id other, (document.graph.node id).typeName ≠ .null →
        Json.equal (document.graph.node id).typeName (document.graph.node other).typeName = true →
          id = other)
      ∧ (∀ name id, name ≠ .null →
          ((name, id) ∈ document.schemas ↔ (document.graph.node id).typeName = name))
      ∧ ∀ settings operations journal report t,
          runStep (Generation.run settings document.graph document.definitions operations)
              { journal := journal } = (.ok report, t) →
            (∀ id ∈ document.definitions, (document.graph.node id).isTypeDefinition = true →
              ∃ name ∈ report.namedTypes.map (·.1), t.registry.nameOf? id = some name)
            ∧ (∀ id other, (document.graph.node id).isTypeDefinition = true →
                (document.graph.node other).isTypeDefinition = true →
                  (t.registry.nameOf? id = t.registry.nameOf? other ↔ id = other
                    ∨ (document.graph.node id).typeName.given = false
                      ∧ (document.graph.node other).typeName.given = false
                      ∧ document.graph.fingerprint id = document.graph.fingerprint other))
            ∧ (∀ name id, (name, id) ∈ report.namedTypes → id ∈ document.definitions
                ∧ (document.graph.node id).isTypeDefinition = true
                ∧ t.registry.nameOf? id = some name)
            ∧ (report.namedTypes.map (·.1)).Nodup := by
  refine ⟨fun id other => Reading.node_of_equal_names hread, fun name id hname => ⟨?_, ?_⟩, ?_⟩
  · exact Reading.typeName_of_schema hread
  · rintro rfl
    exact Entries.mem_of_get? (Reading.schema_of_typeName hread hname)
  intro settings operations journal report t hrun
  obtain ⟨-, ⟨hconsistent, hlisted⟩, htypes⟩ := Generation.types_of_run hrun
  have hnamed : ∀ id, (document.graph.node id).isTypeDefinition = true →
      ∃ name, t.registry.nameOf? id = some name := fun _ => Generation.named_of_run hread hrun
  refine ⟨fun id _ hid => ?total, fun id other hid hother => ⟨?injective, ?shared⟩, ?listed, ?_⟩
  case total =>
    obtain ⟨name, hname⟩ := hnamed id hid
    obtain ⟨identity, fingerprint, -, -, hmem⟩ := hconsistent.named hname
    exact ⟨name, htypes ▸ Entries.has_iff.mp (hconsistent.emitted hmem), hname⟩
  case injective =>
    intro hsame
    obtain ⟨name, hname⟩ := hnamed other hother
    obtain ⟨hfingerprint, htypeName | ⟨hgiven, hgiven'⟩⟩ :=
      hconsistent.typeName_of_name (hsame.trans hname) hname
    · left
      exact Reading.node_of_equal_names hread (Node.named_of_typeDefinition hid)
        (by simp [Json.equal, htypeName])
    · exact Or.inr ⟨hgiven, hgiven', hfingerprint⟩
  case shared =>
    rintro (rfl | ⟨hgiven, hgiven', hfingerprint⟩)
    · rfl
    · obtain ⟨name, hname⟩ := hnamed id hid
      obtain ⟨name', hname'⟩ := hnamed other hother
      obtain ⟨identity, fingerprint, hidentity, hfirst, hmem⟩ := hconsistent.named hname
      obtain ⟨identity', fingerprint', hidentity', hsecond, hmem'⟩ := hconsistent.named hname'
      cases hidentity.symm.trans (Registry.identity_not_given hgiven)
      cases hidentity'.symm.trans (Registry.identity_not_given hgiven')
      cases hfirst.symm.trans (hfingerprint.trans hsecond)
      rw [hname, hname', hconsistent.single hmem hmem']
  case listed =>
    intro name id hentry
    rw [htypes] at hentry
    obtain ⟨hid, hname⟩ := hlisted hentry
    exact ⟨Reading.schema_of_typeDefinition hread hid, hid, hname⟩
  rw [htypes]
  exact hconsistent.distinct

/-- Owners and pets, under some paths. -/
def petsData (paths : List (String × Json)) : Json :=
  let pet := Json.obj [("$ref", .str "#/definitions/Pet")]
  .obj [
    ("definitions", .obj [
      ("Owner", .obj [("type", .str "object"), ("properties", .obj [("pet", pet)])]),
      ("Pet", .obj [("properties", .obj [("next", pet)])])]),
    ("paths", .obj paths)]

/-- An operation whose response spells out an object. -/
def petsPaths : List (String × Json) :=
  [("/pets", .obj [("get", .obj [
    ("operationId", .str "pets"),
    ("responses", .obj [("200", .obj [("schema", .obj [
      ("properties", .obj [("pet", .obj [("$ref", .str "#/definitions/Pet")])])])])])])])]

def petsGraph : Graph where
  nodes := #[
    { kinds := Kinds.ofList [.object], typeName := .str "Owner", properties := [("pet", 1)] },
    { kinds := Kinds.ofList [.object], typeName := .str "Pet", properties := [("next", 1)] },
    { kinds := Kinds.ofList [.object], typeName := .str "PetsResponse", properties := [("pet", 1)] }]

def petsOperations : List Operation :=
  [{ method := "GET", path := "/pets", operationId := some "pets",
     responses := some [("200", some { schema := some 2 })] }]

theorem read_pets : ∃ document s, Reading.read {} (petsData petsPaths) = (.ok document, s)
    ∧ document.graph = petsGraph ∧ document.operations = petsOperations
    ∧ document.schemas = [(.str "Owner", 0), (.str "Pet", 1), (.str "PetsResponse", 2)] :=
  Reading.read_of_parts (by decide +kernel)

theorem run_pets : ∃ report t,
    runStep (Generation.run {} petsGraph [0, 1, 2] petsOperations) {} = (.ok report, t)
      ∧ report.namedTypes = [("Owner", 0), ("Pet", 1), ("PetsResponse", 2)] := by
  have hvisit : petsGraph.typeDefinitions (Generation.roots [0, 1, 2] petsOperations) =
      [0, 1, 2] := by
    have hwalk : petsGraph.visit [] (Generation.roots [0, 1, 2] petsOperations) = [0, 1, 2] := by
      simp [Graph.visit, petsGraph, Graph.node, Node.children, Generation.roots, petsOperations,
        Operation.schemas]
    rw [Graph.typeDefinitions, hwalk]
    decide +kernel
  have htypes : (runStep (Generation.run {} petsGraph [0, 1, 2] petsOperations) {}).1.toOption.map
      (·.namedTypes) = some [("Owner", 0), ("Pet", 1), ("PetsResponse", 2)] := by
    unfold Generation.run Generation.prepare
    rw [hvisit]
    decide +kernel
  rcases hrun : runStep (Generation.run {} petsGraph [0, 1, 2] petsOperations) {} with
    ⟨failure | report, t⟩
  · rw [hrun] at htypes
    cases htypes
  · rw [hrun] at htypes
    exact ⟨report, t, rfl, Option.some.inj htypes⟩

theorem emitted_once_pets : ∃ document s report t,
    Reading.read {} (petsData petsPaths) = (.ok document, s)
      ∧ runStep (Generation.run {} document.graph document.definitions document.operations) {} =
          (.ok report, t)
      ∧ report.namedTypes = [("Owner", 0), ("Pet", 1), ("PetsResponse", 2)]
      ∧ (∀ id other, (document.graph.node id).typeName ≠ .null →
          Json.equal (document.graph.node id).typeName (document.graph.node other).typeName = true →
            id = other)
      ∧ t.registry.nameOf? 0 ≠ t.registry.nameOf? 2
      ∧ ∀ name id, (name, id) ∈ report.namedTypes → id ∈ document.definitions := by
  obtain ⟨document, s, hread, hgraph, hoperations, hschemas⟩ := read_pets
  obtain ⟨report, t, hrun, htypes⟩ := run_pets
  have hdefinitions : document.definitions = [0, 1, 2] := by
    rw [Document.definitions, hschemas]
    rfl
  rw [← hgraph, ← hdefinitions, ← hoperations] at hrun
  obtain ⟨hnode, -, hemitted⟩ := emitted_once hread
  obtain ⟨-, hapart, hlisted, -⟩ := hemitted {} document.operations [] report t hrun
  refine ⟨document, s, report, t, hread, hrun, htypes, hnode, fun hsame => ?_,
    fun name id hentry => (hlisted name id hentry).1⟩
  rw [hgraph] at hapart
  rcases (hapart 0 2 (by decide +kernel) (by decide +kernel)).mp hsame with hnever | ⟨hgiven, -⟩
  · cases hnever
  · exact absurd hgiven (by decide +kernel)

/-- Two definitions whose names are not given, listed as pairs because an object has one key of this
kind only. -/
def namelessData : Json :=
  .obj [
    ("swagger", .str "2.0"),
    ("info", .obj [("title", .str "t"), ("version", .str "1")]),
    ("paths", .obj []),
    ("definitions", .arr [
      .arr [.str "", .obj [("type", .str "object")]],
      .arr [.int 0, .obj [("type", .str "object")]]])]

def namelessGraph : Graph where
  nodes := #[
    { kinds := Kinds.ofList [.object], typeName := .str "" },
    { kinds := Kinds.ofList [.object], typeName := .int 0 }]

/-- Two type definitions of one shape that are emitted under one name, since no name is given for
either. -/
theorem emitted_together_nameless : ∃ document s report t,
    Reading.read {} namelessData = (.ok document, s)
      ∧ runStep (Generation.run {} document.graph document.definitions document.operations) {} =
          (.ok report, t)
      ∧ document.schemas = [(.str "", 0), (.int 0, 1)]
      ∧ (document.graph.node 0).isTypeDefinition = true
      ∧ (document.graph.node 1).isTypeDefinition = true
      ∧ t.registry.nameOf? 0 = some "Anonymous" ∧ t.registry.nameOf? 1 = some "Anonymous"
      ∧ report.namedTypes = [("Anonymous", 0)] := by
  obtain ⟨document, s, hread, hgraph, hoperations, hschemas⟩ :
      ∃ document s, Reading.read {} namelessData = (.ok document, s)
        ∧ document.graph = namelessGraph ∧ document.operations = []
        ∧ document.schemas = [(.str "", 0), (.int 0, 1)] :=
    Reading.read_of_parts (by decide +kernel)
  have hdefinitions : document.definitions = [0, 1] := by
    rw [Document.definitions, hschemas]
    rfl
  have hvisit : namelessGraph.typeDefinitions (Generation.roots [0, 1] []) = [0, 1] := by
    have hwalk : namelessGraph.visit [] (Generation.roots [0, 1] []) = [0, 1] := by
      simp [Graph.visit, namelessGraph, Graph.node, Node.children, Generation.roots]
    rw [Graph.typeDefinitions, hwalk]
    decide +kernel
  have hpass : (runStep (Generation.run {} namelessGraph [0, 1] []) {}).1.toOption.map
        (·.namedTypes) = some [("Anonymous", 0)]
      ∧ (runStep (Generation.run {} namelessGraph [0, 1] []) {}).2.registry.names =
        [(0, "Anonymous"), (1, "Anonymous")] := by
    unfold Generation.run Generation.prepare
    rw [hvisit]
    decide +kernel
  rcases hrun : runStep (Generation.run {} namelessGraph [0, 1] []) {} with ⟨failure | report, t⟩
  · rw [hrun] at hpass
    cases hpass.1
  rw [hrun] at hpass
  have hnameOf : ∀ id, t.registry.nameOf? id =
      Entries.get? [(0, "Anonymous"), (1, "Anonymous")] id := fun id => by
    rw [← hpass.2]
    rfl
  refine ⟨document, s, report, t, hread, ?_⟩
  rw [hgraph, hdefinitions, hoperations]
  exact ⟨hrun, hschemas, by decide +kernel, by decide +kernel, hnameOf 0, hnameOf 1,
    Option.some.inj hpass.1⟩

end ApiClients
