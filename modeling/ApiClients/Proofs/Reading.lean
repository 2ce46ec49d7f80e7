import ApiClients.Document
import ApiClients.Proofs.Composition
import ApiClients.Proofs.Steps

/-!
# Reading keeps what it finds

Reading a schema puts nodes into the graph and names into the table of definitions.  It changes
the nodes that it has put there itself, but none that it has found (`Grows`): not where a
definition that is being read is met again, not where a union is marked as admitting null, and not
where reading fails halfway.  Beside this the table of definitions and the names of nodes agree at
any time (`Sound`).  Both are shown here for every step, up to the reading of all operations.
-/

namespace ApiClients

/-- The names of the properties of a node. -/
def Node.names (node : Node) : List String := node.properties.map (·.1)

namespace Reading

/-! ### States -/

/-- The table of definitions and the names of the nodes agree. -/
structure Sound (s : Reading) : Prop where
  known : ∀ {name id}, Entries.get? s.named name = some id →
    id < s.graph.size ∧ (s.graph.node id).typeName = name
  owned : ∀ {id}, (s.graph.node id).typeName ≠ .null →
    Entries.get? s.named (s.graph.node id).typeName = some id
  distinct : (s.named.map (·.1)).Nodup

/-- What there was stays as it was: definitions, their nodes, and all nodes of the graph. -/
structure Grows (s t : Reading) : Prop where
  source : t.source = s.source
  definitions : s.definitions <+: t.definitions
  named : s.named <+: t.named
  size : s.graph.size ≤ t.graph.size
  kept : ∀ id < s.graph.size, t.graph.node id = s.graph.node id
  fresh : ∀ {name id}, Entries.get? t.named name = some id →
    Entries.get? s.named name = some id ∨ s.graph.size ≤ id

/-- A state that reading may lead to. -/
def After (s t : Reading) : Prop := t.Sound ∧ s.Grows t

theorem Grows.refl (s : Reading) : s.Grows s :=
  ⟨rfl, List.prefix_rfl, List.prefix_rfl, Nat.le_refl _, fun _ _ => rfl, Or.inl⟩

theorem Grows.trans {s t u : Reading} (h : s.Grows t) (h' : t.Grows u) : s.Grows u where
  source := h'.source.trans h.source
  definitions := h.definitions.trans h'.definitions
  named := h.named.trans h'.named
  size := Nat.le_trans h.size h'.size
  kept id hid := (h'.kept id (Nat.lt_of_lt_of_le hid h.size)).trans (h.kept id hid)
  fresh hname := (h'.fresh hname).elim h.fresh fun hid => Or.inr (Nat.le_trans h.size hid)

theorem get?_mono {α : Type} {entries more : List (Json × α)} {name : Json} {value : α}
    (h : entries <+: more) (hname : Entries.get? entries name = some value) :
    Entries.get? more name = some value := by
  obtain ⟨rest, rfl⟩ := h
  rw [Entries.get?_append, hname, Option.some_or]

theorem Grows.get? {s t : Reading} (h : s.Grows t) {name : Json} {id : NodeId}
    (hname : Entries.get? s.named name = some id) : Entries.get? t.named name = some id :=
  get?_mono h.named hname

section Changes

variable {s t : Reading} {id : NodeId} {name : Json}

theorem typeName_modify (graph : Graph) {f : Node → Node}
    (hf : ∀ node, (f node).typeName = node.typeName) (id other : NodeId) :
    ((graph.modify id f).node other).typeName = (graph.node other).typeName := by
  by_cases hother : other = id
  · subst hother
    by_cases hsize : other < graph.size
    · rw [Graph.node_modify_self _ _ hsize, hf]
    · rw [Graph.node_eq_default _ (by simpa using hsize),
        Graph.node_eq_default _ (by simpa using hsize)]
  · rw [Graph.node_modify_of_ne _ _ hother]

theorem Sound.change (h : s.Sound) {f : Node → Node}
    (hf : ∀ node, (f node).typeName = node.typeName) :
    Sound { s with graph := s.graph.modify id f } := by
  have htypeName := typeName_modify s.graph hf id
  refine ⟨?_, ?_, h.distinct⟩
  · intro name other hother
    rw [Graph.size_modify, htypeName]
    exact h.known hother
  · intro other hother
    rw [htypeName] at hother ⊢
    exact h.owned hother

theorem After.change (h : s.After t) (hid : s.graph.size ≤ id) {f : Node → Node}
    (hf : ∀ node, (f node).typeName = node.typeName) :
    s.After { t with graph := t.graph.modify id f } := by
  obtain ⟨hsound, hgrows⟩ := h
  refine ⟨hsound.change hf, ⟨hgrows.source, hgrows.definitions, hgrows.named, ?size, ?kept,
    hgrows.fresh⟩⟩
  case size =>
    rw [Graph.size_modify]
    exact hgrows.size
  case kept =>
    intro other hother
    rw [Graph.node_modify_of_ne _ _ (Nat.ne_of_lt (Nat.lt_of_lt_of_le hother hid))]
    exact hgrows.kept other hother

theorem Sound.push (h : s.Sound) {node : Node} (hnode : node.typeName = .null) :
    Sound { s with graph := s.graph.push node } := by
  refine ⟨?_, ?_, h.distinct⟩
  · intro name other hother
    obtain ⟨hlt, htypeName⟩ := h.known hother
    rw [Graph.size_push, Graph.node_push_of_lt _ _ hlt]
    exact ⟨Nat.lt_succ_of_lt hlt, htypeName⟩
  · intro other hother
    rcases Nat.lt_trichotomy other s.graph.size with hlt | rfl | hgt
    · rw [Graph.node_push_of_lt _ _ hlt] at hother ⊢
      exact h.owned hother
    · rw [Graph.node_push_size] at hother
      exact absurd hnode hother
    · rw [Graph.node_eq_default _ (by rw [Graph.size_push]; exact hgt)] at hother
      exact absurd rfl hother

theorem After.push (h : s.After t) {node : Node} (hnode : node.typeName = .null) :
    s.After { t with graph := t.graph.push node } := by
  obtain ⟨hsound, hgrows⟩ := h
  refine ⟨hsound.push hnode, ⟨hgrows.source, hgrows.definitions, hgrows.named, ?size, ?kept,
    hgrows.fresh⟩⟩
  case size =>
    rw [Graph.size_push]
    exact Nat.le_succ_of_le hgrows.size
  case kept =>
    intro other hother
    rw [Graph.node_push_of_lt _ _ (Nat.lt_of_lt_of_le hother hgrows.size)]
    exact hgrows.kept other hother

theorem Sound.note (h : s.Sound) (journal : Journal) : Sound { s with journal := journal } :=
  ⟨h.known, h.owned, h.distinct⟩

theorem After.note (h : s.After t) (journal : Journal) : s.After { t with journal := journal } :=
  ⟨h.1.note journal, ⟨h.2.source, h.2.definitions, h.2.named, h.2.size, h.2.kept,
    h.2.fresh⟩⟩

/-- The state in which a definition has got its node. -/
def enter (s : Reading) (name : Json) : Reading :=
  { s with
    graph := s.graph.push { typeName := name }
    named := s.named ++ [(name, s.graph.size)] }

theorem size_enter (s : Reading) (name : Json) :
    (s.enter name).graph.size = s.graph.size + 1 :=
  Graph.size_push _ _

theorem lt_size_enter (s : Reading) (name : Json) : s.graph.size < (s.enter name).graph.size :=
  s.size_enter name ▸ Nat.lt_succ_self _

theorem node_enter (s : Reading) (name : Json) :
    (s.enter name).graph.node s.graph.size = { typeName := name } :=
  Graph.node_push_size _ _

theorem get?_named_enter (s : Reading) (name other : Json) :
    Entries.get? (s.enter name).named other =
      (Entries.get? s.named other).or (if other = name then some s.graph.size else none) := by
  show Entries.get? (s.named ++ [(name, s.graph.size)]) other = _
  rw [Entries.get?_append]
  by_cases h : other = name
  · simp [Entries.get?, h]
  · simp [Entries.get?, h, Ne.symm h]

theorem Sound.enter (h : s.Sound) (hname : Entries.get? s.named name = none) :
    Sound (s.enter name) := by
  refine ⟨?_, ?_, ?_⟩
  · intro other id hother
    rw [get?_named_enter] at hother
    show id < (s.graph.push _).size ∧ ((s.graph.push _).node id).typeName = other
    rw [Graph.size_push]
    cases hold : Entries.get? s.named other with
    | some old =>
      rw [hold, Option.some_or, Option.some.injEq] at hother
      subst hother
      obtain ⟨hlt, htypeName⟩ := h.known hold
      rw [Graph.node_push_of_lt _ _ hlt]
      exact ⟨Nat.lt_succ_of_lt hlt, htypeName⟩
    | none =>
      rw [hold, Option.none_or] at hother
      by_cases hsame : other = name
      · rw [if_pos hsame, Option.some.injEq] at hother
        rw [← hother, Graph.node_push_size, hsame]
        exact ⟨Nat.lt_succ_self _, rfl⟩
      · rw [if_neg hsame] at hother
        cases hother
  · intro id hid
    rw [get?_named_enter]
    change ((s.graph.push _).node id).typeName ≠ .null at hid
    show (Entries.get? s.named ((s.graph.push _).node id).typeName).or
      (if ((s.graph.push _).node id).typeName = name then _ else _) = _
    rcases Nat.lt_trichotomy id s.graph.size with hlt | rfl | hgt
    · rw [Graph.node_push_of_lt _ _ hlt] at hid ⊢
      rw [h.owned hid, Option.some_or]
    · rw [Graph.node_push_size, hname, if_pos rfl, Option.none_or]
    · rw [Graph.node_eq_default _ (by rw [Graph.size_push]; exact hgt)] at hid
      exact absurd rfl hid
  · show ((s.named ++ [(name, s.graph.size)]).map (·.1)).Nodup
    rw [List.map_append, List.map_singleton]
    refine List.nodup_append.mpr ⟨h.distinct, by simp, ?_⟩
    rintro other hother _ hname' rfl
    rw [List.mem_singleton.mp hname'] at hother
    obtain ⟨id, hid⟩ := Entries.has_iff_get?.mp (Entries.has_iff.mpr hother)
    rw [hname] at hid
    cases hid

theorem After.enter (h : s.After t) (hname : Entries.get? t.named name = none) :
    s.After (t.enter name) := by
  obtain ⟨hsound, hgrows⟩ := h
  refine ⟨hsound.enter hname, ⟨hgrows.source, hgrows.definitions, ?named, ?size, ?kept, ?fresh⟩⟩
  case named => exact hgrows.named.trans (List.prefix_append _ _)
  case size =>
    show s.graph.size ≤ (t.graph.push _).size
    rw [Graph.size_push]
    exact Nat.le_succ_of_le hgrows.size
  case kept =>
    intro other hother
    show (t.graph.push _).node other = _
    rw [Graph.node_push_of_lt _ _ (Nat.lt_of_lt_of_le hother hgrows.size)]
    exact hgrows.kept other hother
  case fresh =>
    intro other id hother
    rw [get?_named_enter, Option.or_eq_some_iff] at hother
    rcases hother with hold | ⟨-, hnew⟩
    · exact hgrows.fresh hold
    · rw [Option.ite_none_right_eq_some, Option.some.injEq] at hnew
      exact Or.inr (hnew.2 ▸ hgrows.size)

end Changes

/-! ### The stages of filling a node -/

/-- The simple keywords. -/
def fillKeywords (id : NodeId) (members : List (String × Json)) : ReadingM Unit := do
  change id fun n => { n with
    kinds := kindsOf (Json.field members "type") (Json.field members "format")
    format := Json.field members "format"
    nullable := n.nullable || Json.admitsNull members
    description := Json.field members "description"
    default := Json.field members "default" }
  let enumValues ← lift (Json.listed (Json.field members "enum"))
  change id fun n => { n with enumValues := enumValues }

/-- The items. -/
def fillItems (read : ReadSchema) (trail : List String) (id : NodeId)
    (members : List (String × Json)) : ReadingM Unit :=
  if Entries.has members "items" then do
    let items ← read trail (Json.field members "items")
    change id fun n => { n with items := items }
  else pure ()

/-- The additional properties. -/
def fillAdditional (read : ReadSchema) (trail : List String) (id : NodeId)
    (members : List (String × Json)) : ReadingM Unit :=
  match Json.field members "additionalProperties" with
  | .obj shape => do
    match ← read trail (.obj shape) with
    | some child => change id fun n => { n with additional := .shape child }
    | none => pure ()
  | .bool true => change id fun n => { n with additional := .allowed true }
  | _ => pure ()

/-- The required names. -/
def fillRequired (id : NodeId) (members : List (String × Json)) : ReadingM Unit := do
  let required ← lift (Json.listed (Json.field members "required"))
  change id fun n => { n with required := required }

/-- The properties. -/
def fillProperties (read : ReadSchema) (trail : List String) (id : NodeId)
    (members : List (String × Json)) : ReadingM Unit := do
  for property in ← lift (Json.fields (Json.field members "properties")) do
    readProperty read trail id property

/-- The parts. -/
def fillParts (read : ReadSchema) (trail : List String) (id : NodeId)
    (members : List (String × Json)) : ReadingM Unit := do
  for part in ← lift (Json.listed (Json.field members "allOf")) do
    readPart read trail id part

/-- Settling the kinds of a node leaves the rest of it alone. -/
theorem settleKinds_eq (node : Node) : ∃ kinds, settleKinds node = { node with kinds := kinds } := by
  unfold settleKinds
  split
  · split
    · exact ⟨_, rfl⟩
    · split
      · exact ⟨_, rfl⟩
      · exact ⟨node.kinds, rfl⟩
  · exact ⟨node.kinds, rfl⟩

theorem fill_eq (read : ReadSchema) (trail : List String) (id : NodeId)
    (members : List (String × Json)) :
    fill read trail id members = (do
      fillKeywords id members
      fillItems read trail id members
      fillAdditional read trail id members
      fillRequired id members
      fillProperties read trail id members
      fillParts read trail id members
      change id settleKinds) := by
  unfold fill fillKeywords fillItems fillAdditional fillRequired fillProperties fillParts
  simp only [bind_assoc, pure_bind]
  refine bind_congr fun _ => bind_congr fun _ => bind_congr fun _ => ?_
  cases Entries.has members "items"
  case' true =>
    simp only [if_true, bind_assoc]
    refine bind_congr fun _ => bind_congr fun _ => ?_
  case' false => simp only [Bool.false_eq_true, if_false, pure_bind]
  all_goals
    cases Json.field members "additionalProperties" with
    | obj shape =>
      simp only [bind_assoc]
      refine bind_congr fun child => ?_
      cases child <;> simp only [pure_bind]
    | bool yes => cases yes <;> simp only [pure_bind]
    | _ => simp only [pure_bind]

/-! ### Steps -/

/-- A step, failed or not, keeps what there was in a state. -/
abbrev Stays {α : Type} (s : Reading) (step : ReadingM α) : Prop :=
  Upholds s.After (fun _ => True) step

section Filling

variable {P : Reading → Prop} {read : ReadSchema} {id : NodeId}

/-- What the reading of nested schemas keeps, and every change of a node that leaves its name. -/
structure Filling (P : Reading → Prop) (read : ReadSchema) (id : NodeId) : Prop where
  read : ∀ trail data, Upholds P (fun _ => True) (read trail data)
  change : ∀ f : Node → Node, (∀ node, (f node).typeName = node.typeName) →
    Upholds P (fun _ => True) (change id f)

theorem Filling.readProperty (h : Filling P read id) (trail : List String)
    (property : String × Json) :
    Upholds P (fun _ => True) (readProperty read trail id property) := by
  refine upholds_bind (h.read _ _) fun child => ?_
  cases child with
  | none => exact upholds_pure _
  | some child => exact h.change _ fun _ => rfl

theorem Filling.readPart (h : Filling P read id) (trail : List String) (part : Json) :
    Upholds P (fun _ => True) (readPart read trail id part) := by
  refine upholds_bind (h.read _ _) fun child => ?_
  cases child with
  | none => exact upholds_pure _
  | some child =>
    refine upholds_get_bind fun t ht => ?_
    exact h.change (absorb · (t.graph.actualNode child)) (fun _ => rfl) t ht

theorem upholds_lift {α : Type} (result : Except Failure α) :
    Upholds P (fun _ => True) (lift result) :=
  upholds_mk fun _ _ => trivial

theorem upholds_steps {α : Type} {step : α → ReadingM Unit} {as : List α}
    (h : ∀ a, Upholds P (fun _ => True) (step a)) :
    Upholds P (fun _ => True) (do
      for a in as do
        step a) :=
  upholds_bind (upholds_forIn fun a _ => upholds_bind (h a) fun _ => upholds_pure _) fun _ =>
    upholds_pure _

theorem Filling.keywords (h : Filling P read id) (members : List (String × Json)) :
    Upholds P (fun _ => True) (fillKeywords id members) := by
  refine upholds_bind (h.change _ fun _ => rfl) fun _ => ?_
  exact upholds_bind (upholds_lift _) fun _ => h.change _ fun _ => rfl

theorem Filling.items (h : Filling P read id) (trail : List String)
    (members : List (String × Json)) :
    Upholds P (fun _ => True) (fillItems read trail id members) := by
  unfold fillItems
  by_cases hitems : Entries.has members "items" = true
  · rw [if_pos hitems]
    exact upholds_bind (h.read _ _) fun _ => h.change _ fun _ => rfl
  · rw [if_neg hitems]
    exact upholds_pure _

theorem Filling.additional (h : Filling P read id) (trail : List String)
    (members : List (String × Json)) :
    Upholds P (fun _ => True) (fillAdditional read trail id members) := by
  unfold fillAdditional
  cases Json.field members "additionalProperties" with
  | obj shape =>
    refine upholds_bind (h.read _ _) fun child => ?_
    cases child with
    | none => exact upholds_pure _
    | some child => exact h.change _ fun _ => rfl
  | bool yes =>
    cases yes with
    | true => exact h.change _ fun _ => rfl
    | false => exact upholds_pure _
  | _ => exact upholds_pure _

theorem Filling.required (h : Filling P read id) (members : List (String × Json)) :
    Upholds P (fun _ => True) (fillRequired id members) :=
  upholds_bind (upholds_lift _) fun _ => h.change _ fun _ => rfl

theorem Filling.properties (h : Filling P read id) (trail : List String)
    (members : List (String × Json)) :
    Upholds P (fun _ => True) (fillProperties read trail id members) :=
  upholds_bind (upholds_lift _) fun _ => upholds_steps (h.readProperty trail)

theorem Filling.parts (h : Filling P read id) (trail : List String)
    (members : List (String × Json)) :
    Upholds P (fun _ => True) (fillParts read trail id members) :=
  upholds_bind (upholds_lift _) fun _ => upholds_steps (h.readPart trail)

theorem Filling.settle (h : Filling P read id) :
    Upholds P (fun _ => True) (Reading.change id settleKinds) := by
  refine h.change _ fun node => ?_
  obtain ⟨kinds, hsettled⟩ := settleKinds_eq node
  rw [hsettled]

theorem Filling.fill (h : Filling P read id) (trail : List String)
    (members : List (String × Json)) :
    Upholds P (fun _ => True) (fill read trail id members) := by
  rw [fill_eq]
  exact upholds_bind (h.keywords members) fun _ => upholds_bind (h.items trail members) fun _ =>
    upholds_bind (h.additional trail members) fun _ => upholds_bind (h.required members) fun _ =>
    upholds_bind (h.properties trail members) fun _ => upholds_bind (h.parts trail members)
    fun _ => h.settle

end Filling

/-! ### Nodes that reading leads to -/

/-- A node that belongs to no definition. -/
def Unowned (s : Reading) (id : NodeId) : Prop := ∀ name, Entries.get? s.named name ≠ some id

theorem Unowned.mono {s t : Reading} {id : NodeId} (h : s.Unowned id) (hid : id < s.graph.size)
    (hgrows : s.Grows t) : t.Unowned id := by
  intro name hname
  rcases hgrows.fresh hname with hold | hnew
  · exact h name hold
  · exact absurd hid (Nat.not_lt_of_le hnew)

/-- The address of the next node belongs to no definition yet. -/
theorem Sound.unowned {s : Reading} (h : s.Sound) : s.Unowned s.graph.size :=
  fun _ hname => absurd (h.known hname).1 (Nat.lt_irrefl _)

/-- What a node that reading has led to is: put there on the way for no definition, or the node of a
definition. -/
def Result (s t : Reading) (id : NodeId) : Prop :=
  id < t.graph.size
    ∧ (s.graph.size ≤ id ∧ (t.graph.node id).typeName = .null ∧ t.Unowned id
      ∨ ∃ ref, Entries.get? t.named (.str ref) = some id)

theorem Result.mono {s t u : Reading} {id : NodeId} (h : s.Result t id) (hgrows : t.Grows u) :
    s.Result u id := by
  obtain ⟨hlt, ⟨hnew, hunnamed, hunowned⟩ | ⟨ref, href⟩⟩ := h
  · refine ⟨Nat.lt_of_lt_of_le hlt hgrows.size, Or.inl ⟨hnew, ?_, hunowned.mono hlt hgrows⟩⟩
    rw [hgrows.kept id hlt, hunnamed]
  · exact ⟨Nat.lt_of_lt_of_le hlt hgrows.size, Or.inr ⟨ref, hgrows.get? href⟩⟩

/-- A step that makes a node keeps what there was, and leads to such a node if it succeeds. -/
def Makes (step : ReadingM NodeId) : Prop :=
  ∀ s, s.Sound → s.After (runStep step s).2
    ∧ ∀ id, (runStep step s).1 = .ok id → s.Result (runStep step s).2 id

/-- A reading of schemas keeps what there was and leads to such nodes; a schema that is spelled out
has a new node. -/
def Careful (read : ReadSchema) : Prop :=
  ∀ trail data s, s.Sound → s.After (runStep (read trail data) s).2
    ∧ ∀ id, (runStep (read trail data) s).1 = .ok (some id) →
      s.Result (runStep (read trail data) s).2 id
        ∧ ∀ members, data = .obj members → Plain members → s.graph.size ≤ id

theorem Result.change {s t : Reading} {id : NodeId} (h : s.Result t id) (other : NodeId)
    {f : Node → Node} (hf : ∀ node, (f node).typeName = node.typeName) :
    s.Result { t with graph := t.graph.modify other f } id := by
  refine ⟨?_, h.2.imp (fun hnew => ⟨hnew.1, ?_, hnew.2.2⟩) fun hnamed => hnamed⟩
  · show id < (t.graph.modify other f).size
    rw [Graph.size_modify]
    exact h.1
  · show ((t.graph.modify other f).node id).typeName = .null
    rw [typeName_modify _ hf]
    exact hnew.2.1

section Nodes

variable {s t : Reading} {read : ReadSchema} {trail : List String} {id : NodeId}

theorem After.trans {u : Reading} (h : s.After t) (h' : t.After u) : s.After u :=
  ⟨h'.1, h.2.trans h'.2⟩

theorem Sound.after (h : s.Sound) : s.After s := ⟨h, Grows.refl s⟩

theorem Careful.stays (h : Careful read) (trail : List String) (data : Json) :
    Stays s (read trail data) :=
  fun t ht => ⟨ht.trans (h trail data t ht.1).1, fun _ _ => trivial⟩

theorem makes_throw (failure : Failure) : Makes (throw failure) :=
  fun _ hs => ⟨hs.after, fun _ h => by cases h⟩

theorem makes_bind {step : ReadingM NodeId} {next : NodeId → ReadingM NodeId} (h : Makes step)
    (hnext : ∀ (s t : Reading) id, s.After t → s.Result t id → s.After (runStep (next id) t).2
      ∧ ∀ other, (runStep (next id) t).1 = .ok other → s.Result (runStep (next id) t).2 other) :
    Makes (step >>= next) := by
  intro s hs
  have hfirst := h s hs
  rw [runStep_bind]
  rcases hrun : runStep step s with ⟨failure | id, t⟩
  · rw [hrun] at hfirst
    exact ⟨hfirst.1, fun _ h => by cases h⟩
  · rw [hrun] at hfirst
    exact hnext s t id hfirst.1 (hfirst.2 id rfl)

theorem After.add (h : s.After t) (node : Node) (hnode : node.typeName = .null) :
    s.After (runStep (add node) t).2 ∧ ∀ id, (runStep (add node) t).1 = .ok id →
      s.Result (runStep (add node) t).2 id ∧ s.graph.size ≤ id := by
  refine ⟨h.push hnode, ?_⟩
  intro id hid
  cases hid
  refine ⟨⟨?_, Or.inl ⟨h.2.size, ?_, h.1.unowned⟩⟩, h.2.size⟩
  · show t.graph.size < (t.graph.push node).size
    rw [Graph.size_push]
    exact Nat.lt_succ_self _
  · show ((t.graph.push node).node t.graph.size).typeName = .null
    rw [Graph.node_push_size, hnode]

theorem makes_nodeOf (hread : Careful read) (trail : List String) (data : Json) :
    Makes (nodeOf read trail data) := by
  intro s hs
  have hfirst := hread trail data s hs
  unfold nodeOf
  rw [runStep_bind]
  rcases hrun : runStep (read trail data) s with ⟨failure | child, t⟩
  · rw [hrun] at hfirst
    exact ⟨hfirst.1, fun _ h => by cases h⟩
  · rw [hrun] at hfirst
    cases child with
    | none =>
      obtain ⟨hafter, hresult⟩ := hfirst.1.add {} rfl
      exact ⟨hafter, fun id hid => (hresult id hid).1⟩
    | some child =>
      refine ⟨hfirst.1, ?_⟩
      intro id hid
      cases hid
      exact (hfirst.2 child rfl).1

theorem makes_nullable {step : ReadingM NodeId} (h : Makes step) (nullable : Bool) :
    Makes (step >>= nullableNode nullable) := by
  refine makes_bind h ?_
  intro s t id hafter hresult
  cases nullable with
  | false => exact ⟨hafter, fun other hother => by cases hother; exact hresult⟩
  | true =>
    obtain ⟨hlater, hwrapper⟩ :=
      hafter.add { reference := some id, nullable := true } rfl
    exact ⟨hlater, fun other hother => (hwrapper other hother).1⟩

/-! ### Definitions -/

/-- What the reading of a definition goes on with once the definition has its node. -/
def readDefinition (read : ReadSchema) (name : Json) (id : NodeId) : ReadingM Unit := do
  match Entries.get? (← get).definitions name with
  | some (.obj members) =>
    match members with
    | [("$ref", _)] =>
      let target ← nodeOf read [] (.obj members)
      if target ≠ id then change id fun n => { n with reference := some target }
    | _ => fill read [] id members
  | _ => note (.untypedDefinition name)

theorem definition_known {name : Json} (h : Entries.get? s.named name = some id) :
    runStep (definition read name) s = (.ok id, s) := by
  unfold definition
  rw [runStep_bind_of_ok (runStep_get s)]
  simp only [h, runStep_pure]

theorem definition_eq (read : ReadSchema) (name : Json) :
    definition read name = (do
      match Entries.get? (← get).named name with
      | some id => return id
      | none =>
        let id ← add { typeName := name }
        nameNode name id
        readDefinition read name id
        return id) := by
  unfold definition readDefinition
  refine bind_congr fun state => ?_
  cases Entries.get? state.named name with
  | some id => rfl
  | none =>
    simp only [bind_assoc]
    refine bind_congr fun id => bind_congr fun _ => bind_congr fun later => ?_
    generalize Entries.get? later.definitions name = data
    split
    · split
      · simp only [bind_assoc]
        refine bind_congr fun target => ?_
        by_cases htarget : target = id <;> simp [htarget]
      · simp only []
    · simp only []

theorem definition_new {name : Json} (h : Entries.get? s.named name = none) :
    runStep (definition read name) s =
      runStep (readDefinition read name s.graph.size >>= fun _ => pure s.graph.size)
        (s.enter name) := by
  rw [definition_eq, runStep_bind_of_ok (runStep_get s)]
  simp only [h]
  have hadd : runStep (add { typeName := name }) s =
      (.ok s.graph.size, { s with graph := s.graph.push { typeName := name } }) := rfl
  rw [runStep_bind_of_ok hadd]
  have hname : runStep (nameNode name s.graph.size)
      { s with graph := s.graph.push { typeName := name } } = (.ok (), s.enter name) := rfl
  rw [runStep_bind_of_ok hname]

theorem upholds_readDefinition {P : Reading → Prop} (h : Filling P read id)
    (hnode : ∀ data, Upholds P (fun _ => True) (nodeOf read [] data))
    (hnote : ∀ event, Upholds P (fun _ => True) (note event)) (name : Json) :
    Upholds P (fun _ => True) (readDefinition read name id) := by
  unfold readDefinition
  refine upholds_get_bind fun t ht => ?_
  generalize Entries.get? t.definitions name = data
  revert t
  show Upholds P (fun _ => True) _
  split
  · split
    · refine upholds_bind (hnode _) fun target => ?_
      by_cases htarget : target ≠ id
      · rw [if_pos htarget]
        exact h.change _ fun _ => rfl
      · rw [if_neg htarget]
        exact upholds_pure _
    · exact h.fill [] _
  · exact hnote _

/-- The node of a definition is found under its name afterwards. -/
theorem definition_after (hread : Careful read) (name : Json) (hs : s.Sound) :
    s.After (runStep (definition read name) s).2
      ∧ ∀ id, (runStep (definition read name) s).1 = .ok id →
        Entries.get? (runStep (definition read name) s).2.named name = some id := by
  cases hname : Entries.get? s.named name with
  | some id =>
    rw [definition_known hname]
    exact ⟨hs.after, fun other hother => by cases hother; exact hname⟩
  | none =>
    rw [definition_new hname]
    have hentered : Entries.get? (s.enter name).named name = some s.graph.size := by
      rw [get?_named_enter, hname, if_pos rfl, Option.none_or]
    have hread : Upholds (fun t => s.After t ∧ Entries.get? t.named name = some s.graph.size)
        (fun _ => True) (readDefinition read name s.graph.size) := by
      refine upholds_readDefinition ⟨?read, ?change⟩ ?node ?note name
      case read =>
        intro trail data t ht
        have hafter := (hread trail data t ht.1.1).1
        exact ⟨⟨ht.1.trans hafter, hafter.2.get? ht.2⟩, fun _ _ => trivial⟩
      case change =>
        exact fun f hf => upholds_modify fun t ht => ⟨ht.1.change (Nat.le_refl _) hf, ht.2⟩
      case node =>
        intro data t ht
        have hafter := (makes_nodeOf hread [] data t ht.1.1).1
        exact ⟨⟨ht.1.trans hafter, hafter.2.get? ht.2⟩, fun _ _ => trivial⟩
      case note => exact fun event => upholds_modify fun t ht => ⟨ht.1.note _, ht.2⟩
    have hdone := (upholds_bind hread fun _ => upholds_pure s.graph.size) (s.enter name)
      ⟨hs.after.enter hname, hentered⟩
    refine ⟨hdone.1.1, ?_⟩
    intro id hid
    rw [runStep_bind] at hid ⊢
    rcases hrun : runStep (readDefinition read name s.graph.size) (s.enter name) with ⟨e | _, t⟩
    · rw [hrun] at hid
      cases hid
    · rw [hrun] at hid
      cases hid
      have := hdone.1.2
      rwa [runStep_bind, hrun] at this

/-! ### Schemas -/

theorem makes_referenced (hread : Careful read) (trail : List String) (ref : Json) :
    Makes (referenced read trail ref) := by
  cases ref with
  | str ref =>
    intro s hs
    unfold referenced
    rw [runStep_bind_of_ok (runStep_get s)]
    by_cases hname : (Entries.has s.definitions (.str (Json.refName ref))
        || Entries.has s.named (.str (Json.refName ref))) = true
    · rw [if_pos hname]
      obtain ⟨hafter, hfound⟩ := definition_after hread (.str (Json.refName ref)) hs
      refine ⟨hafter, ?_⟩
      intro id hid
      exact ⟨(hafter.1.known (hfound id hid)).1, Or.inr ⟨_, hfound id hid⟩⟩
    · rw [if_neg hname]
      by_cases htrail : trail.contains ref = true
      · rw [if_pos htrail]
        exact makes_throw _ s hs
      · rw [if_neg htrail]
        exact makes_nodeOf hread _ _ s hs
  | _ => exact makes_throw _

/-- A node without a name that reading leads to is a new one. -/
theorem Result.new (h : s.Result t id) (hsound : t.Sound)
    (hunnamed : (t.graph.node id).isNamed = false) : s.graph.size ≤ id ∧ t.Unowned id := by
  obtain ⟨-, ⟨hnew, -, hunowned⟩ | ⟨ref, href⟩⟩ := h
  · exact ⟨hnew, hunowned⟩
  · have htypeName := (hsound.known href).2
    simp [Node.isNamed, htypeName] at hunnamed

/-- Null is admitted by what a node stands for: by the node itself, unless it belongs to a
definition. -/
def admitNull (id : NodeId) : ReadingM NodeId := do
  if (← node id).isNamed then nullableNode true id
  else
    change id fun n => { n with nullable := true }
    return id

theorem runStep_admitNull_of_named (h : (s.graph.node id).isNamed = true) :
    runStep (admitNull id) s = (.ok s.graph.size,
      { s with graph := s.graph.push { reference := some id, nullable := true } }) := by
  unfold admitNull
  have hnode : runStep (node id) s = (.ok (s.graph.node id), s) := rfl
  rw [runStep_bind_of_ok hnode, h]
  rfl

theorem runStep_admitNull_of_unnamed (h : (s.graph.node id).isNamed = false) :
    runStep (admitNull id) s =
      (.ok id, { s with graph := s.graph.modify id fun n => { n with nullable := true } }) := by
  unfold admitNull
  have hnode : runStep (node id) s = (.ok (s.graph.node id), s) := rfl
  rw [runStep_bind_of_ok hnode, h]
  rfl

theorem union_of_one {variants : List Json} {shape : Json} {nullable : Bool}
    (h : variants.filter (! isNullVariant ·) = [shape]) :
    union read trail variants nullable = (do
      let id ← nodeOf read trail shape
      if nullable || decide (1 < variants.length) then admitNull id else return id) := by
  unfold union admitNull
  simp only [h, List.length_singleton]
  refine bind_congr fun id => ?_
  cases nullable || decide (1 < variants.length) <;> rfl

/-- A node for an object of any shape. -/
def untypedObject (nullable : Bool) : Node :=
  { kinds := Kinds.none.insert .object, nullable := nullable }

theorem union_untyped {variants : List Json} {nullable : Bool}
    (h : ∀ shape, variants.filter (! isNullVariant ·) ≠ [shape]) :
    ∃ count, union read trail variants nullable = (do
      note (.untypedUnion count)
      add (untypedObject (nullable
        || decide ((variants.filter (! isNullVariant ·)).length < variants.length)))) := by
  refine ⟨(variants.filter (! isNullVariant ·)).length, ?_⟩
  unfold union
  dsimp only
  split
  · rename_i shape hshape
    exact absurd hshape (h shape)
  · rfl

theorem union_of_several {variants : List Json} {nullable : Bool}
    (h : ∀ shape, variants.filter (! isNullVariant ·) ≠ [shape]) :
    ∃ count node, node.typeName = .null ∧ node.reference = none ∧ node.names = []
      ∧ union read trail variants nullable = (do
        note (.untypedUnion count)
        add node) := by
  obtain ⟨count, hunion⟩ := @union_untyped read trail variants nullable h
  exact ⟨count, _, rfl, rfl, rfl, hunion⟩

theorem makes_union (hread : Careful read) (trail : List String) (variants : List Json)
    (nullable : Bool) : Makes (union read trail variants nullable) := by
  by_cases hone : ∃ shape, variants.filter (! isNullVariant ·) = [shape]
  · obtain ⟨shape, hshape⟩ := hone
    rw [union_of_one hshape]
    refine makes_bind (makes_nodeOf hread trail shape) ?_
    intro s t id hafter hresult
    cases nullable || decide (1 < variants.length) with
    | false => exact ⟨hafter, fun other hother => by cases hother; exact hresult⟩
    | true =>
      simp only [if_true]
      cases hnamed : (t.graph.node id).isNamed with
      | true =>
        rw [runStep_admitNull_of_named hnamed]
        obtain ⟨hlater, hwrapper⟩ := hafter.add { reference := some id, nullable := true } rfl
        exact ⟨hlater, fun other hother => (hwrapper other hother).1⟩
      | false =>
        -- the node that is marked has no name, so it was put there on the way
        have hnew := (hresult.new hafter.1 hnamed).1
        rw [runStep_admitNull_of_unnamed hnamed]
        refine ⟨hafter.change hnew fun _ => rfl, ?_⟩
        intro other hother
        cases hother
        exact hresult.change id fun _ => rfl
  · obtain ⟨count, node, hnode, -, -, hunion⟩ := union_of_several fun shape h => hone ⟨shape, h⟩
    rw [hunion]
    intro s hs
    obtain ⟨hafter, hresult⟩ := (hs.after.note (s.journal ++ [.untypedUnion count])).add node hnode
    exact ⟨hafter, fun id hid => (hresult id hid).1⟩

theorem schemaObject_of_points {members : List (String × Json)} {ref : Json}
    (h : Points members ref) :
    schemaObject read trail members = (do
      let id ← referenced read trail ref
      nullableNode (Json.admitsNull members) id) := by
  unfold schemaObject
  rcases h with href | ⟨href, hvariants, hsole⟩
  · simp only [href]
  · simp only [href, hvariants, hsole]

theorem schemaObject_of_union {members : List (String × Json)} {variants : List Json}
    (href : Entries.get? members "$ref" = none) (hvariants : variants? members = some variants) :
    schemaObject read trail members = union read trail variants (Json.admitsNull members) := by
  unfold schemaObject
  simp only [href, hvariants]

theorem schemaObject_of_plain {members : List (String × Json)} (h : Plain members) :
    schemaObject read trail members = (do
      let id ← add {}
      fill read trail id members
      return id) := by
  obtain ⟨href, hvariants, hsole⟩ := h
  unfold schemaObject
  simp only [href, hvariants, hsole]

/-- A schema that is spelled out has a new node. -/
theorem makes_plain (hread : Careful read) (trail : List String) {members : List (String × Json)}
    (h : Plain members) (hs : s.Sound) :
    s.After (runStep (schemaObject read trail members) s).2
      ∧ ∀ id, (runStep (schemaObject read trail members) s).1 = .ok id →
        s.Result (runStep (schemaObject read trail members) s).2 id ∧ s.graph.size ≤ id := by
  rw [schemaObject_of_plain h]
  have hadd : runStep (add {}) s = (.ok s.graph.size, { s with graph := s.graph.push {} }) := rfl
  obtain ⟨hafter, hresult⟩ := hs.after.add {} rfl
  rw [hadd] at hafter hresult
  rw [runStep_bind_of_ok hadd]
  have hfill : Upholds (fun t => s.After t ∧ s.Result t s.graph.size) (fun _ => True)
      (fill read trail s.graph.size members) := by
    refine Filling.fill ⟨?read, ?change⟩ trail members
    case read =>
      intro trail data t ht
      have hlater := (hread trail data t ht.1.1).1
      exact ⟨⟨ht.1.trans hlater, ht.2.mono hlater.2⟩, fun _ _ => trivial⟩
    case change =>
      exact fun f hf => upholds_modify fun t ht =>
        ⟨ht.1.change (Nat.le_refl _) hf, ht.2.change _ hf⟩
  have hdone := (upholds_bind hfill fun _ => upholds_pure s.graph.size) _
    ⟨hafter, (hresult _ rfl).1⟩
  refine ⟨hdone.1.1, ?_⟩
  intro id hid
  have hsame : id = s.graph.size := by
    rw [runStep_bind] at hid
    rcases hrun : runStep (fill read trail s.graph.size members) _ with ⟨failure | _, t⟩
    · rw [hrun] at hid
      cases hid
    · rw [hrun] at hid
      cases hid
      rfl
  rw [hsame]
  exact ⟨hdone.1.2, Nat.le_refl _⟩

theorem makes_schemaObject (hread : Careful read) (trail : List String)
    (members : List (String × Json)) : Makes (schemaObject read trail members) := by
  cases form members with
  | @points ref h =>
    rw [schemaObject_of_points h]
    exact makes_nullable (makes_referenced hread trail ref) _
  | @union variants href hvariants =>
    rw [schemaObject_of_union href hvariants]
    exact makes_union hread trail variants _
  | plain h =>
    intro s hs
    obtain ⟨hafter, hresult⟩ := makes_plain hread trail h hs
    exact ⟨hafter, fun id hid => (hresult id hid).1⟩

theorem schemaStep_obj (read : ReadSchema) (trail : List String) (members : List (String × Json)) :
    schemaStep read trail (.obj members) =
      (do let id ← schemaObject read trail members
          pure (some id)) := by
  show some <$> schemaObject read trail members = _
  rw [map_eq_pure_bind]

theorem careful_schemaStep (hread : Careful read) : Careful (schemaStep read) := by
  intro trail data s hs
  cases data with
  | null => exact ⟨hs.after, fun _ h => by cases h⟩
  | obj members =>
    rw [schemaStep_obj, runStep_bind]
    have hmakes := makes_schemaObject hread trail members s hs
    have hplain := fun h : Plain members => (makes_plain hread trail h hs).2
    rcases hrun : runStep (schemaObject read trail members) s with ⟨failure | made, t⟩
    · rw [hrun] at hmakes
      exact ⟨hmakes.1, fun _ h => by cases h⟩
    · rw [hrun] at hmakes hplain
      refine ⟨hmakes.1, ?_⟩
      intro id hid
      cases hid
      refine ⟨hmakes.2 made rfl, ?_⟩
      rintro _ ⟨⟩ h
      exact (hplain h made rfl).2
  | _ =>
    obtain ⟨hafter, hresult⟩ := hs.after.add {} rfl
    refine ⟨hafter, ?_⟩
    intro id hid
    cases hid
    exact ⟨(hresult _ rfl).1, fun _ h => by cases h⟩

theorem careful_schemaTo (depth : Nat) : Careful (schemaTo depth) := by
  induction depth with
  | zero => exact fun _ _ s hs => ⟨hs.after, fun _ h => by cases h⟩
  | succ depth ih => exact careful_schemaStep ih

end Nodes

end Reading

end ApiClients
