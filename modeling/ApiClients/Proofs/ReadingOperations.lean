import ApiClients.Proofs.Requests
import ApiClients.Report

/-!
# Reading operations keeps the definitions

Operations are read after the definitions.  They put nodes into the graph, and a response that
spells out an object even adds a definition; but the nodes that are there stay as they are, and so
do the definitions and their names (`stays_operations`).  The one node that is changed, that of a
parameter which spells out its schema itself, is a new one.
-/

namespace ApiClients.Reading

variable {s : Reading}

/-! ### Schemas from the top -/

theorem stays_schema (data : Json) : Stays s (schema data) :=
  upholds_get_bind fun t ht => (careful_schemaTo (t.depthBound data)).stays [] data t ht

/-- A schema that is spelled out at the top has a new node too. -/
theorem schema_of_plain (hs : s.Sound) {members : List (String × Json)} (h : Plain members) :
    s.After (runStep (schema (.obj members)) s).2
      ∧ ∀ id, (runStep (schema (.obj members)) s).1 = .ok (some id) → s.graph.size ≤ id := by
  have hcareful := careful_schemaTo (s.depthBound (.obj members)) [] (.obj members) s hs
  unfold schema
  rw [runStep_bind_of_ok (runStep_get s)]
  exact ⟨hcareful.1, fun id hid => (hcareful.2 id hid).2 members rfl h⟩

theorem stays_namedSchema (name : Json) : Stays s (namedSchema name) := by
  refine upholds_get_bind fun t ht => ⟨?_, fun _ _ => trivial⟩
  exact ht.trans (definition_after (careful_schemaTo (t.depthBound .null)) name ht.1).1

/-! ### Operations -/

theorem plain_inline (members : List (String × Json)) : Plain (inlineMembers members) := by
  have hnone : ∀ key, key ∉ inlineKeywords →
      Entries.get? (inlineMembers members) key = none := by
    intro key hkey
    cases hget : Entries.get? (inlineMembers members) key with
    | none => rfl
    | some value =>
      obtain ⟨word, hword, hentry⟩ := List.mem_filterMap.mp (Entries.mem_of_get? hget)
      obtain ⟨_, _, heq⟩ := Option.map_eq_some_iff.mp hentry
      cases heq
      exact absurd hword hkey
  have hsole := hnone "allOf" (by decide)
  refine ⟨hnone "$ref" (by decide), ?_, ?_⟩
  · simp only [variants?, hnone "oneOf" (by decide), hnone "anyOf" (by decide)]
  · simp only [soleReference?, hsole]

theorem prefix_putNew {α : Type} (entries : List (Json × α)) (name : Json) (value : α) :
    entries <+: Entries.putNew entries name value := by
  unfold Entries.putNew
  split
  · exact List.prefix_rfl
  · exact List.prefix_append _ _

/-- A definition that is added leaves the others as they are. -/
theorem After.define {t : Reading} (h : s.After t) (name data : Json) :
    s.After { t with definitions := Entries.putNew t.definitions name data } := by
  obtain ⟨hsound, hgrows⟩ := h
  refine ⟨⟨hsound.known, hsound.owned, hsound.distinct⟩, ⟨hgrows.source,
    hgrows.definitions.trans (prefix_putNew _ _ _), hgrows.named, hgrows.size, hgrows.kept,
    hgrows.fresh⟩⟩

theorem serves_stays (s : Reading) :
    Serves s.source s.After (fun _ t => s.After t ∧ True) := by
  refine ⟨⟨fun ht => ht.2.source, fun event ht => ht.note _, fun ht => ⟨ht, trivial⟩,
    fun _ => upholds_iff_leads.mp (stays_schema _), ?_⟩, ?_⟩
  · intro members _ _ t ht
    obtain ⟨hafter, hnew⟩ := schema_of_plain ht.1 (plain_inline members)
    refine ⟨?_, ?_⟩
    · intro made u hrun
      rw [hrun] at hafter hnew
      refine ⟨ht.trans hafter, ?_⟩
      rintro id rfl
      -- the node that is marked was put into the graph for the parameter
      exact (ht.trans hafter).change (Nat.le_trans ht.2.size (hnew id rfl)) fun _ => rfl
    · intro e u hrun
      rw [hrun] at hafter
      exact ⟨ht.trans hafter, trivial⟩
  · intro name code data _ _
    refine leads_bind (R := fun _ => s.After) (leads_modify fun t ht => ht.1.define _ _) fun _ => ?_
    exact (upholds_iff_leads.mp (stays_namedSchema _)).mono (fun _ ht => ht) (fun _ _ ht => ht)
      fun _ _ ht => ht

/-- The reading of operations keeps what there was. -/
theorem stays_operations : Stays s operations :=
  upholds_iff_leads.mpr ((serves_stays s).operations.mono (fun _ ht => ht) (fun _ _ ht => ht.1)
    fun _ _ ht => ht)

/-! ### Documents -/

/-- The state in which the definitions of a document are read. -/
def begin (reader : Reading) (data : Json) (defs : List (Json × Json)) : Reading :=
  { reader with source := data, definitions := defs, named := [], graph := {} }

/-- The definitions of a document are read one after the other. -/
def readDefinitions (defs : List (Json × Json)) : ReadingM Unit := do
  for entry in defs do
    let _ ← namedSchema entry.1

theorem readDefinitions_cons (entry : Json × Json) (defs : List (Json × Json)) :
    readDefinitions (entry :: defs) = (do
      let _ ← namedSchema entry.1
      readDefinitions defs) := by
  unfold readDefinitions
  simp only [List.forIn_cons, bind_assoc, pure_bind]

/-- Definitions that have been read have their nodes. -/
theorem named_of_readDefinitions {t : Reading} {defs : List (Json × Json)} (hs : s.Sound)
    (h : runStep (readDefinitions defs) s = (.ok (), t)) :
    s.After t ∧ ∀ entry ∈ defs, ∃ id, Entries.get? t.named entry.1 = some id := by
  induction defs generalizing s with
  | nil =>
    have hdone : runStep (readDefinitions []) s = (.ok (), s) := rfl
    cases hdone.symm.trans h
    exact ⟨hs.after, fun _ hentry => by cases hentry⟩
  | cons first rest ih =>
    rw [readDefinitions_cons] at h
    obtain ⟨id, u, hfirst, hrest⟩ := runStep_bind_ok.mp h
    obtain ⟨hafter, hname⟩ := definition_after
      (careful_schemaTo (s.depthBound .null)) first.1 hs
    unfold namedSchema at hfirst
    rw [runStep_bind_of_ok (runStep_get s)] at hfirst
    rw [hfirst] at hafter hname
    obtain ⟨hlater, hnamed⟩ := ih hafter.1 hrest
    refine ⟨hafter.trans hlater, fun entry hentry => ?_⟩
    rcases List.mem_cons.mp hentry with rfl | hentry
    · exact ⟨id, hlater.2.get? (hname id rfl)⟩
    · exact hnamed entry hentry

theorem document_ok {reader s : Reading} {data : Json} {document : Document}
    (h : runStep (Reading.document data) reader = (.ok document, s)) :
    ∃ defs t u operations, Json.definitions data = .ok defs
      ∧ runStep (readDefinitions defs) (reader.begin data defs) = (.ok (), t)
      ∧ runStep Reading.operations t = (.ok operations, u)
      ∧ document.operations = operations ∧ document.schemas = u.named
      ∧ document.graph = u.graph := by
  unfold Reading.document at h
  obtain ⟨_, s₁, hsource, h⟩ := runStep_bind_ok.mp h
  cases hsource
  cases hgiven : data.given with
  | false =>
    simp only [hgiven, Bool.not_false, if_true] at h
    cases h
  | true =>
    simp only [hgiven, Bool.not_true, Bool.false_eq_true, if_false] at h
    obtain ⟨defs, s₂, hdefs, h⟩ := runStep_bind_ok.mp h
    cases hdefs' : Json.definitions data with
    | error failure =>
      rw [hdefs'] at hdefs
      cases hdefs
    | ok defs' =>
      rw [hdefs'] at hdefs
      cases hdefs
      obtain ⟨_, s₃, hreset, h⟩ := runStep_bind_ok.mp h
      cases hreset
      obtain ⟨_, t, hloop, h⟩ := runStep_bind_ok.mp h
      obtain ⟨operations, u, hoperations, h⟩ := runStep_bind_ok.mp h
      rw [runStep_bind_of_ok (runStep_get u)] at h
      obtain ⟨_, v, hnote, h⟩ := runStep_bind_ok.mp h
      cases hnote
      obtain ⟨members, w, hmembers, h⟩ := runStep_bind_ok.mp h
      cases h
      refine ⟨defs, t, u, operations, rfl, ?_, hoperations, rfl, rfl, rfl⟩
      exact runStep_bind_ok.mpr ⟨_, t, hloop, rfl⟩

/-- A document whose parts have been found by evaluation. -/
theorem read_of_parts {data : Json} {graph : Graph} {operations : List Operation}
    {schemas : List (Json × NodeId)}
    (h : (Reading.read {} data).1.toOption.map
      (fun document => (document.graph.nodes, document.operations, document.schemas)) =
        some (graph.nodes, operations, schemas)) :
    ∃ document s, Reading.read {} data = (.ok document, s)
      ∧ document.graph = graph ∧ document.operations = operations ∧ document.schemas = schemas := by
  rcases hread : Reading.read {} data with ⟨failure | document, s⟩
  · rw [hread] at h
    cases h
  · rw [hread] at h
    simp only [Except.toOption, Option.map_some, Option.some.injEq, Prod.mk.injEq] at h
    obtain ⟨hnodes, hoperations, hschemas⟩ := h
    exact ⟨document, s, rfl, congrArg Graph.mk hnodes, hoperations, hschemas⟩

/-- A document and its report, of which the parts and a view have been found by evaluation. -/
theorem report_of_parts {β : Type} {graph : Graph} {operations : List Operation}
    {settings : Settings} {view : Report → β} {shown : β} (data : Json)
    (schemas : List (Json × NodeId))
    (h : (Reading.read {} data).1.toOption.map
      (fun document => (document.graph.nodes, document.operations, document.schemas)) =
        some (graph.nodes, operations, schemas))
    (hview : (Generation.report settings graph (schemas.map (·.2)) operations
      []).1.toOption.map view = some shown) :
    ∃ document s report, Reading.read {} data = (.ok document, s)
      ∧ document.graph = graph ∧ document.operations = operations
      ∧ (Generation.report settings document.graph document.definitions document.operations
          []).1 = .ok report
      ∧ view report = shown := by
  obtain ⟨document, s, hread, rfl, rfl, rfl⟩ := read_of_parts h
  obtain ⟨report, hreport, hshown⟩ := Except.ok_of_toOption_map hview
  exact ⟨document, s, report, hread, rfl, rfl, hreport, hshown⟩

end ApiClients.Reading
