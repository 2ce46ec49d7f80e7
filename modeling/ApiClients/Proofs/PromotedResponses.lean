import ApiClients.Proofs.ResponseTurns

/-!
# Responses displace no definition

The schema of a response gets a definition of its own only under a name that no definition has.  So
what a document declares under a name is what the node of this name is built from, and every other
named node is built from the schema of one response: the first one that the name stands for, in the
order of the document, where the operations of a path come in the order of their methods (`Earns`).
Every response after it that would get the same name is read as any other schema, and leaves the
node as it is (`names_earned_once`).
-/

namespace ApiClients.Reading

/-- The node of a definition has been built from some data: the definition has been read once, when
the data stood under its name, and the nodes that were put into the graph by that are as they were
then. -/
def BuiltFrom (first : Reading) (graph : Graph) (name data : Json) (id : NodeId) : Prop :=
  ∃ depth r r', first.After r ∧ Entries.get? r.definitions name = some data
    ∧ Entries.get? r.named name = none
    ∧ runStep (definition (schemaTo depth) name) r = (.ok id, r')
    ∧ r.graph.size ≤ id ∧ id < r'.graph.size
    ∧ ∀ node, r.graph.size ≤ node → node < r'.graph.size → graph.node node = r'.graph.node node

/-- A response is the first for which a name stands that no definition of the document has. -/
def Earns (defs : List (Json × Json)) (earlier : List DeclaredResponse)
    (response : DeclaredResponse) (name : Json) : Prop :=
  response.name? = some name ∧ Entries.has defs name = false
    ∧ ∀ other ∈ earlier, other.name? ≠ some name

/-- What has become of the definitions of a document and of its responses. -/
structure NamedOnce (defs : List (Json × Json)) (first start : Reading) (document : Document)
    (turns : List Turn) : Prop where
  distinct : (document.schemas.map (·.1)).Nodup
  /-- A definition that the document declares has its node before the first response gets its turn,
  and it is built from what it says there. -/
  declared : ∀ {name data}, Entries.get? defs name = some data →
    ∃ id, Entries.get? start.named name = some id ∧ Entries.get? document.schemas name = some id
      ∧ BuiltFrom first document.graph name data id
  /-- Any other definition has been earned by a response. -/
  earned : ∀ {name id}, Entries.get? document.schemas name = some id →
    Entries.has defs name = false → ∃ earlier turn later, turns = earlier ++ turn :: later
      ∧ Earns defs (earlier.map (·.response)) turn.response name ∧ turn.made = some id
  /-- It has been earned by no other response. -/
  once : ∀ {earlier other turn turn' later later' name}, turns = earlier ++ turn :: later →
    turns = other ++ turn' :: later' →
    Earns defs (earlier.map (·.response)) turn.response name →
    Earns defs (other.map (·.response)) turn'.response name → earlier = other ∧ turn = turn'
  /-- A response that earns a name is read as the definition of this name. -/
  promoted : ∀ {earlier turn later name}, turns = earlier ++ turn :: later →
    Earns defs (earlier.map (·.response)) turn.response name →
    ∃ id, turn.Promotes name id ∧ Entries.get? document.schemas name = some id
      ∧ BuiltFrom first document.graph name turn.response.data id
  /-- A response that earns no name is read as any other schema. -/
  inline : ∀ {earlier turn later}, turns = earlier ++ turn :: later →
    (∀ name, ¬ Earns defs (earlier.map (·.response)) turn.response name) → turn.Inline
  /-- What there is after a turn stays as it is. -/
  kept : ∀ {earlier turn later}, turns = earlier ++ turn :: later →
    turn.after.named <+: document.schemas
      ∧ ∀ id < turn.after.graph.size, document.graph.node id = turn.after.graph.node id

section

variable {reader first start s t : Reading} {data : Json} {document : Document}
  {defs : List (Json × Json)} {turns earlier later : List Turn} {turn : Turn} {name : Json}
  {id : NodeId}

/-- When the declared definitions have been read, they are all that has a name. -/
theorem filed_of_readDefinitions
    (h : runStep (readDefinitions defs) (reader.begin data defs) = (.ok (), t)) :
    Filed t ∧ t.definitions = defs := by
  have hsound := sound_begin reader data defs
  have hcovers : Scope.all.Covers (reader.begin data defs) :=
    Scope.covers_all fun hname => by cases hname
  have hread : Leads (Goes .all (reader.begin data defs))
      (fun _ => Goes .all (reader.begin data defs)) (fun _ _ => True) (readDefinitions defs) := by
    refine leads_forIn fun entry hentry => leads_get_bind fun u hu => ?_
    have hdeclared : Entries.has u.definitions entry.1 = true := by
      rw [hu.definitions]
      exact Entries.has_iff.mpr (List.mem_map_of_mem hentry)
    exact ((reads_all _).definition hu.after.1 (hu.covers hcovers) hdeclared).mono
      (fun _ hv => hv) (fun _ _ hv => hu.trans hv.1) fun _ _ _ => trivial
  have hgoes := (hread _ (Goes.refl hsound)).1 _ _ h
  obtain ⟨hafter, hnamed⟩ := named_of_readDefinitions hsound h
  refine ⟨⟨hafter.1, fun name => Bool.eq_iff_iff.mpr ⟨(hgoes.covers hcovers).declared, ?_⟩⟩,
    hgoes.definitions⟩
  rw [hgoes.definitions]
  intro hname
  obtain ⟨entry, hentry, rfl⟩ := List.mem_map.mp (Entries.has_iff.mp hname)
  exact Entries.has_iff_get?.mpr (hnamed entry hentry)

/-- A response earns a name if it stands for one that is free when its turn comes. -/
theorem Turns.earns_iff (h : Turns start earlier turn.before)
    (hstart : ∀ name, Entries.has start.named name = Entries.has defs name) :
    Earns defs (earlier.map (·.response)) turn.response name
      ↔ turn.response.name? = some name ∧ Entries.has turn.before.named name = false := by
  rw [Earns, ← hstart, ← Bool.not_eq_true (Entries.has turn.before.named name), h.has_named]
  simp [not_or]

/-- Two places in a list where a name is earned are one. -/
theorem Earns.unique {other : List Turn} {turn' : Turn} {later' : List Turn}
    (h : Earns defs (earlier.map (·.response)) turn.response name)
    (h' : Earns defs (other.map (·.response)) turn'.response name)
    (hsame : earlier ++ turn :: later = other ++ turn' :: later') :
    earlier = other ∧ turn = turn' := by
  have hnot : ∀ {earlier other : List Turn} {turn turn' : Turn},
      Earns defs (earlier.map (·.response)) turn.response name →
      Earns defs (other.map (·.response)) turn'.response name → turn ∉ other := fun h h' hmem =>
    h'.2.2 _ (List.mem_map_of_mem hmem) h.1
  rcases List.append_eq_append_iff.mp hsame with ⟨between, rfl, hrest⟩ | ⟨between, rfl, hrest⟩
  · cases between with
    | nil => exact ⟨(List.append_nil _).symm, (List.cons.inj hrest).1⟩
    | cons first between =>
      obtain rfl := (List.cons.inj hrest).1
      exact absurd (by simp) (hnot h h')
  · cases between with
    | nil => exact ⟨List.append_nil _, (List.cons.inj hrest).1.symm⟩
    | cons first between =>
      obtain rfl := (List.cons.inj hrest).1
      exact absurd (by simp) (hnot h' h)

/-- A definition that a response has got is built from the schema of the response. -/
theorem Turn.Promotes.builtFrom (h : turn.Promotes name id) (hfiled : Filed turn.before)
    (hbefore : first.After turn.before)
    (hfree : Entries.has turn.before.named name = false) (hlater : turn.after.After t) :
    BuiltFrom first t.graph name turn.response.data id := by
  have hrun := h.run
  unfold namedSchema at hrun
  rw [runStep_bind_of_ok (runStep_get _)] at hrun
  have hnew : Entries.get? (turn.before.declare name turn.response.data).named name = none :=
    Entries.has_eq_false_iff.mp hfree
  have hdata : Entries.get? (turn.before.declare name turn.response.data).definitions name
      = some turn.response.data := by
    rw [declare, Entries.get?_append,
      Entries.has_eq_false_iff.mp ((hfiled.alike name).symm.trans hfree)]
    simp [Entries.get?]
  have hdeclare := hbefore.declare name turn.response.data
  obtain ⟨-, -, hlow, hhigh⟩ := Formed.node_new hdeclare.1 hnew hrun
  exact ⟨_, _, _, hdeclare, hdata, hnew, hrun, hlow, hhigh, fun node _ hnode =>
    hlater.2.kept node hnode⟩

/-- A definition that has been read is built from what stood under its name at the beginning. -/
theorem Formed.builtFrom (h : Formed none first t name id)
    (hdata : Entries.get? first.definitions name = some data) :
    BuiltFrom first t.graph name data id := by
  obtain ⟨depth, r, r', hr, -, hname, hrun, hkept, hnode, -⟩ := h
  obtain ⟨-, -, hlow, hhigh⟩ := node_new hr.1 hname hrun
  refine ⟨depth, r, r', hr, get?_mono hr.2.definitions hdata, hname, hrun, hlow, hhigh,
    fun node hlow hhigh => ?_⟩
  by_cases hsame : node = id
  · rw [hsame, hnode]
  · exact hkept.nodes node hlow hhigh hsame

theorem builtFrom_of_read (h : Reading.read reader data = (.ok document, s))
    (hdefs : Json.definitions data = .ok defs) {shape : Json}
    (hshape : Entries.get? defs name = some shape)
    (hname : Entries.get? document.schemas name = some id) :
    BuiltFrom (reader.begin data defs) document.graph name shape id := by
  obtain ⟨defs', t, hdefs', hbred, hschemas, hgraph⟩ := bred_of_read h
  obtain rfl : defs' = defs := by simpa [hdefs'] using hdefs
  rw [hschemas] at hname
  rw [hgraph]
  rcases hbred.formed hname with hnone | hnone | hformed
  · cases hnone
  · cases hnone
  · exact hformed.builtFrom hshape

/-- Each name in a document that has been read is given once: to the definition that the document
declares under it, or else to the first of its responses, each read in its turn, that would get it. -/
theorem names_earned_once (h : Reading.read reader data = (.ok document, s))
    (hdefs : Json.definitions data = .ok defs) :
    ∃ start last turns, runStep (readDefinitions defs) (reader.begin data defs) = (.ok (), start)
      ∧ runStep operations start = (.ok document.operations, last) ∧ Turns start turns last
      ∧ turns.map (·.response) = declaredResponses data
      ∧ turns.map (·.made) = document.operations.flatMap Operation.responseSchemas
      ∧ NamedOnce defs (reader.begin data defs) start document turns := by
  obtain ⟨defs', start, last, operations, hdefs', hloop, hoperations, rfl, hschemas, hgraph⟩ :=
    document_ok h
  obtain rfl : defs' = defs := by simpa [hdefs'] using hdefs
  obtain ⟨hfiled, hdefinitions⟩ := filed_of_readDefinitions hloop
  have hstart := (named_of_readDefinitions (sound_begin reader data defs') hloop).1
  obtain ⟨turns, hresponses, hmade, hturns⟩ := givesTurns_operations hfiled .none hoperations
  rw [hstart.2.source] at hresponses
  rw [List.nil_append] at hturns
  refine ⟨start, last, turns, hloop, hoperations, hturns, hresponses, hmade, ?_⟩
  have halike : ∀ name, Entries.has start.named name = Entries.has defs' name :=
    fun name => hdefinitions ▸ hfiled.alike name
  refine ⟨?distinct, ?declared, ?earned, ?once, ?promoted, ?inline, ?kept⟩
  case distinct =>
    rw [hschemas]
    exact (hturns.after hfiled.sound).1.distinct
  case declared =>
    intro name shape hshape
    obtain ⟨id, hname⟩ : ∃ id, Entries.get? start.named name = some id :=
      Entries.has_iff_get?.mp (halike name ▸ Entries.has_iff_get?.mpr ⟨shape, hshape⟩)
    have hlast : Entries.get? document.schemas name = some id :=
      hschemas ▸ (hturns.after hfiled.sound).2.get? hname
    exact ⟨id, hname, hlast, builtFrom_of_read h hdefs' hshape hlast⟩
  case earned =>
    intro name id hname hnew
    rw [hschemas] at hname
    obtain ⟨earlier, turn, later, rfl, hpromotes, hown, hfree⟩ :=
      hturns.promoted (halike name ▸ hnew) hname
    exact ⟨earlier, turn, later, rfl, (hturns.split.1.earns_iff halike).mpr ⟨hown, hfree⟩,
      hpromotes.made⟩
  case once =>
    rintro earlier other turn turn' later later' name rfl hother hearns hearns'
    exact hearns.unique hearns' hother
  case promoted =>
    rintro earlier turn later name rfl hearns
    obtain ⟨hearlier, htaken, hlater⟩ := hturns.split
    obtain ⟨hown, hfree⟩ := (hearlier.earns_iff halike).mp hearns
    obtain ⟨id, hpromotes⟩ := htaken.promotes hown hfree
    have hbefore := hstart.trans (hearlier.after hfiled.sound)
    rw [hschemas, hgraph]
    exact ⟨id, hpromotes, hlater.2.get? (hpromotes.get? hfree),
      hpromotes.builtFrom (hearlier.filed hfiled) hbefore hfree hlater⟩
  case inline =>
    rintro earlier turn later rfl hearns
    obtain ⟨hearlier, htaken, -⟩ := hturns.split
    exact htaken.inlines fun name hfree => hearns name ((hearlier.earns_iff halike).mpr hfree)
  case kept =>
    rintro earlier turn later rfl
    obtain ⟨-, -, hlater⟩ := hturns.split
    rw [hschemas, hgraph]
    exact ⟨hlater.2.named, hlater.2.kept⟩

end

/-- An object with one property. -/
def objectWith (property : String) : Json :=
  .obj [("type", .str "object"), ("properties", .obj [(property, .obj [])])]

/-- An operation with one response. -/
def respondingWith (operationId code property : String) : Json :=
  .obj [("operationId", .str operationId),
    ("responses", .obj [(code, .obj [("schema", objectWith property)])])]

def promotedDefinitions : List (Json × Json) :=
  [(.str "AddPetResponse", .obj [("type", .str "string")])]

/-- Two operations whose ids come to one name, and one whose id comes to that of a definition. -/
def promotedData : Json :=
  .obj [
    ("definitions", .obj [("AddPetResponse", .obj [("type", .str "string")])]),
    ("paths", .obj [("/pets", .obj [
      ("get", respondingWith "listPets" "200" "names"),
      ("put", respondingWith "list-pets" "200" "count"),
      ("post", respondingWith "addPet" "201" "id")])])]

theorem names_earned_once_pets : ∃ document s, Reading.read {} promotedData = (.ok document, s)
    ∧ Json.definitions promotedData = .ok promotedDefinitions
    ∧ document.schemas = [(.str "AddPetResponse", 0), (.str "ListPetsResponse", 1)]
    ∧ document.operations.flatMap Operation.responseSchemas = [some 1, some 3, some 5]
    ∧ BuiltFrom (begin {} promotedData promotedDefinitions) document.graph (.str "AddPetResponse")
        (.obj [("type", .str "string")]) 0
    ∧ BuiltFrom (begin {} promotedData promotedDefinitions) document.graph (.str "ListPetsResponse")
        (objectWith "names") 1 := by
  have hdefs : Json.definitions promotedData = .ok promotedDefinitions := rfl
  have hshown : (Reading.read {} promotedData).1.toOption.map (fun document =>
      (document.schemas, document.operations.flatMap Operation.responseSchemas))
      = some ([(.str "AddPetResponse", 0), (.str "ListPetsResponse", 1)],
        [some 1, some 3, some 5]) := by decide +kernel
  rcases hread : Reading.read {} promotedData with ⟨outcome, s⟩
  rw [hread] at hshown
  obtain ⟨document, rfl, hparts⟩ := Except.ok_of_toOption_map hshown
  obtain ⟨hschemas, hnodes⟩ := Prod.mk.inj hparts
  obtain ⟨start, last, turns, -, -, -, hresponses, -, honce⟩ := names_earned_once hread hdefs
  refine ⟨document, s, rfl, hdefs, hschemas, hnodes, ?_, ?_⟩
  · have hshape : Entries.get? promotedDefinitions (.str "AddPetResponse")
        = some (.obj [("type", .str "string")]) := by decide
    obtain ⟨id, -, hname, hbuilt⟩ := honce.declared hshape
    have hid : Entries.get? document.schemas (.str "AddPetResponse") = some 0 := by
      rw [hschemas]
      decide
    rwa [Option.some.inj (hname.symm.trans hid)] at hbuilt
  · cases turns with
    | nil => cases hresponses
    | cons turn later =>
      have hfirst : turn.response = ⟨some "listPets", "200", objectWith "names"⟩ :=
        (List.cons.inj hresponses).1
      have hearns : Earns promotedDefinitions [] turn.response (.str "ListPetsResponse") := by
        rw [hfirst]
        exact ⟨by decide +kernel, by decide, nofun⟩
      obtain ⟨id, -, hname, hbuilt⟩ := @NamedOnce.promoted _ _ _ _ _ honce [] _ _ _ rfl hearns
      have hid : Entries.get? document.schemas (.str "ListPetsResponse") = some 1 := by
        rw [hschemas]
        decide
      rwa [Option.some.inj (hname.symm.trans hid), hfirst] at hbuilt

end ApiClients.Reading
