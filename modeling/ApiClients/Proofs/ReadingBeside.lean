import ApiClients.Proofs.Beside
import ApiClients.Proofs.ReadingOperations

/-!
# Reading beside earlier nodes

Reading puts nodes into a graph and passes their addresses on; it never asks an address for more
than the node that is there.  So a document may be read where nodes of other documents are still in
the graph: from a state beside one without them (`Beside`) each step of reading ends as it does
without them, but for the addresses, and in a state that is beside the other again.  What has been
noted before makes no difference either.
-/

namespace ApiClients.Reading

/-- A state of reading beside one without the earlier nodes. -/
structure Beside (earlier : Graph) (s t : Reading) : Prop where
  source : t.source = s.source
  definitions : t.definitions = s.definitions
  named : t.named = s.named.map (Prod.map id (earlier.size + ·))
  graph : t.graph = earlier.beside s.graph

/-- A way of reading schemas that takes addresses as they come. -/
def Shifts (earlier : Graph) (read : ReadSchema) : Prop :=
  ∀ trail data,
    Parallel (Beside earlier) (Option.map (earlier.size + ·)) (read trail data) (read trail data)

section

variable {earlier : Graph} {read : ReadSchema}

/-! ### Steps without nested schemas -/

theorem Beside.get?_named {s t : Reading} (h : Beside earlier s t) (name : Json) :
    Entries.get? t.named name = (Entries.get? s.named name).map (earlier.size + ·) := by
  rw [h.named, Entries.get?_map_snd]

theorem Beside.has_named {s t : Reading} (h : Beside earlier s t) (name : Json) :
    Entries.has t.named name = Entries.has s.named name := by
  rw [h.named, Entries.has_map_snd]

theorem parallel_note (event event' : Event) :
    Parallel (Beside earlier) id (note event) (note event') :=
  parallel_modify fun _ _ h => ⟨h.source, h.definitions, h.named, h.graph⟩

theorem parallel_lift {α : Type} (outcome : Except Failure α) :
    Parallel (Beside earlier) id (lift outcome) (lift outcome) :=
  parallel_mk outcome

theorem parallel_add (node : Node) :
    Parallel (Beside earlier) (earlier.size + ·) (add node) (add (node.shift earlier.size)) := by
  intro s t h
  constructor
  · show Except.ok t.graph.size = Except.ok (earlier.size + s.graph.size)
    rw [h.graph, Graph.size_beside]
  · refine ⟨h.source, h.definitions, h.named, ?_⟩
    show t.graph.push _ = earlier.beside (s.graph.push node)
    rw [h.graph, Graph.beside_push]

/-- A node is changed where it is, by what comes to the same there. -/
theorem parallel_change (place : NodeId) {f g : Node → Node}
    (hfg : ∀ node : Node, g (node.shift earlier.size) = (f node).shift earlier.size) :
    Parallel (Beside earlier) id (change place f) (change (earlier.size + place) g) := by
  refine parallel_modify fun s t h => ⟨h.source, h.definitions, h.named, ?_⟩
  show t.graph.modify _ g = earlier.beside (s.graph.modify place f)
  rw [h.graph, Graph.beside_modify earlier s.graph place hfg]

theorem parallel_nameNode (name : Json) (place : NodeId) :
    Parallel (Beside earlier) id (nameNode name place)
      (nameNode name (earlier.size + place)) := by
  refine parallel_modify fun s t h => ⟨h.source, h.definitions, ?_, h.graph⟩
  show t.named ++ _ = (s.named ++ [(name, place)]).map _
  rw [h.named, List.map_append]
  rfl

theorem parallel_node (place : NodeId) :
    Parallel (Beside earlier) (Node.shift earlier.size) (node place)
      (node (earlier.size + place)) := by
  refine parallel_get_bind fun s t h => parallel_pure ?_
  rw [h.graph, Graph.node_beside]

theorem parallel_nullableNode (nullable : Bool) (place : NodeId) :
    Parallel (Beside earlier) (earlier.size + ·) (nullableNode nullable place)
      (nullableNode nullable (earlier.size + place)) := by
  cases nullable with
  | false => exact parallel_pure rfl
  | true => exact parallel_add { reference := some place, nullable := true }

theorem parallel_admitNull (place : NodeId) :
    Parallel (Beside earlier) (earlier.size + ·) (admitNull place)
      (admitNull (earlier.size + place)) := by
  refine parallel_bind (parallel_node place) fun node => parallel_ite ?_ ?_
  · exact parallel_nullableNode true place
  · exact parallel_bind (parallel_change place fun _ => rfl) fun _ => parallel_pure rfl

/-! ### What a node says -/

theorem settleKinds_shift (offset : Nat) (node : Node) :
    settleKinds (node.shift offset) = (settleKinds node).shift offset := by
  unfold settleKinds
  simp only [Node.kinds_shift, Node.properties_shift, Node.admits_shift, Node.isSome_items_shift,
    List.isEmpty_map]
  split
  · split
    · rfl
    · split <;> rfl
  · rfl

/-- The properties of another shape are taken in at the new addresses. -/
theorem absorbed_shift (offset : Nat) (properties more : List (String × NodeId)) :
    (more.map (Prod.map id (offset + ·))).foldl
        (fun ps property => Entries.putNew ps property.1 property.2)
        (properties.map (Prod.map id (offset + ·))) =
      (more.foldl (fun ps property => Entries.putNew ps property.1 property.2) properties).map
        (Prod.map id (offset + ·)) := by
  induction more generalizing properties with
  | nil => rfl
  | cons property more ih =>
    have hfirst := Entries.putNew_map_snd (offset + ·) properties property.1 property.2
    rw [List.map_cons, List.foldl_cons, List.foldl_cons, ← ih, ← hfirst]
    rfl

theorem absorb_shift (offset : Nat) (node part : Node) :
    absorb (node.shift offset) (part.shift offset) = (absorb node part).shift offset := by
  have hproperties := absorbed_shift offset node.properties part.properties
  unfold absorb
  simp only [Node.kinds_shift, Node.properties_shift, Node.required_shift, List.isEmpty_map,
    hproperties]
  rfl

theorem put_property_shift (offset : Nat) (name : String) (child : NodeId) (node : Node) :
    { node.shift offset with
      properties := Entries.put name (offset + child) (node.shift offset).properties } =
      ({ node with properties := Entries.put name child node.properties } : Node).shift offset := by
  simp only [Node.properties_shift, Entries.put_map_snd]
  rfl

theorem parallel_fillKeywords (place : NodeId) (members : List (String × Json)) :
    Parallel (Beside earlier) id (fillKeywords place members)
      (fillKeywords (earlier.size + place) members) := by
  refine parallel_bind (parallel_change place fun _ => rfl) fun _ => ?_
  exact parallel_bind (parallel_lift _) fun _ => parallel_change place fun _ => rfl

theorem parallel_fillRequired (place : NodeId) (members : List (String × Json)) :
    Parallel (Beside earlier) id (fillRequired place members)
      (fillRequired (earlier.size + place) members) :=
  parallel_bind (parallel_lift _) fun _ => parallel_change place fun _ => rfl

/-! ### Nested schemas -/

namespace Shifts

theorem nodeOf (h : Shifts earlier read) (trail : List String) (data : Json) :
    Parallel (Beside earlier) (earlier.size + ·) (nodeOf read trail data)
      (Reading.nodeOf read trail data) := by
  refine parallel_bind (h trail data) fun made => ?_
  cases made with
  | none => exact parallel_add {}
  | some place => exact parallel_pure rfl

theorem fillItems (h : Shifts earlier read) (trail : List String) (place : NodeId)
    (members : List (String × Json)) :
    Parallel (Beside earlier) id (fillItems read trail place members)
      (Reading.fillItems read trail (earlier.size + place) members) := by
  refine parallel_ite ?_ (parallel_pure rfl)
  exact parallel_bind (h trail _) fun _ => parallel_change place fun _ => rfl

theorem fillAdditional (h : Shifts earlier read) (trail : List String) (place : NodeId)
    (members : List (String × Json)) :
    Parallel (Beside earlier) id (fillAdditional read trail place members)
      (Reading.fillAdditional read trail (earlier.size + place) members) := by
  unfold Reading.fillAdditional
  split
  · refine parallel_bind (h trail _) fun made => ?_
    cases made with
    | none => exact parallel_pure rfl
    | some child => exact parallel_change place fun _ => rfl
  · exact parallel_change place fun _ => rfl
  · exact parallel_pure rfl

theorem fillProperties (h : Shifts earlier read) (trail : List String) (place : NodeId)
    (members : List (String × Json)) :
    Parallel (Beside earlier) id (fillProperties read trail place members)
      (Reading.fillProperties read trail (earlier.size + place) members) := by
  refine parallel_bind (parallel_lift _) fun properties => parallel_forIn (f := id) fun property => ?_
  refine parallel_bind (h trail _) fun made => ?_
  cases made with
  | none => exact parallel_pure rfl
  | some child => exact parallel_change place (put_property_shift _ property.1 child)

theorem fillParts (h : Shifts earlier read) (trail : List String) (place : NodeId)
    (members : List (String × Json)) :
    Parallel (Beside earlier) id (fillParts read trail place members)
      (Reading.fillParts read trail (earlier.size + place) members) := by
  refine parallel_bind (parallel_lift _) fun parts => parallel_forIn (f := id) fun part => ?_
  refine parallel_bind (h trail _) fun made => ?_
  cases made with
  | none => exact parallel_pure rfl
  | some child =>
    refine parallel_get_bind fun s t hst => parallel_change place fun node => ?_
    rw [hst.graph, Graph.actualNode_beside, absorb_shift]

theorem fill (h : Shifts earlier read) (trail : List String) (place : NodeId)
    (members : List (String × Json)) :
    Parallel (Beside earlier) id (fill read trail place members)
      (Reading.fill read trail (earlier.size + place) members) := by
  rw [fill_eq, fill_eq]
  refine parallel_bind (parallel_fillKeywords place members) fun _ => ?_
  refine parallel_bind (h.fillItems trail place members) fun _ => ?_
  refine parallel_bind (h.fillAdditional trail place members) fun _ => ?_
  refine parallel_bind (parallel_fillRequired place members) fun _ => ?_
  refine parallel_bind (h.fillProperties trail place members) fun _ => ?_
  refine parallel_bind (h.fillParts trail place members) fun _ => ?_
  exact parallel_change place (settleKinds_shift _)

/-! ### Definitions and references -/

theorem readDefinition (h : Shifts earlier read) (name : Json) (place : NodeId) :
    Parallel (Beside earlier) id (readDefinition read name place)
      (Reading.readDefinition read name (earlier.size + place)) := by
  refine parallel_get_bind fun s t hst => ?_
  rw [hst.definitions]
  split
  · split
    · refine parallel_bind (h.nodeOf [] _) fun target => ?_
      by_cases htarget : target = place
      · simp only [htarget, ne_eq, not_true_eq_false, if_false]
        exact parallel_pure rfl
      · simp only [htarget, ne_eq, Nat.add_left_cancel_iff, not_false_eq_true, if_true]
        exact parallel_change place fun _ => rfl
    · exact h.fill [] place _
  · exact parallel_note _ _

theorem definition (h : Shifts earlier read) (name : Json) :
    Parallel (Beside earlier) (earlier.size + ·) (definition read name)
      (Reading.definition read name) := by
  rw [definition_eq]
  refine parallel_get_bind fun s t hst => ?_
  rw [hst.get?_named]
  cases Entries.get? s.named name with
  | some place => exact parallel_pure rfl
  | none =>
    refine parallel_bind (parallel_add { typeName := name }) fun place => ?_
    refine parallel_bind (parallel_nameNode name place) fun _ => ?_
    exact parallel_bind (h.readDefinition name place) fun _ => parallel_pure rfl

theorem referenced (h : Shifts earlier read) (trail : List String) (ref : Json) :
    Parallel (Beside earlier) (earlier.size + ·) (referenced read trail ref)
      (Reading.referenced read trail ref) := by
  cases ref with
  | str ref =>
    refine parallel_get_bind fun s t hst => ?_
    rw [hst.definitions, hst.has_named, hst.source]
    refine parallel_ite (h.definition _) (parallel_ite (parallel_throw _) ?_)
    exact h.nodeOf (ref :: trail) _
  | _ => exact parallel_throw _

/-! ### Schemas -/

theorem union (h : Shifts earlier read) (trail : List String) (variants : List Json)
    (nullable : Bool) :
    Parallel (Beside earlier) (earlier.size + ·) (union read trail variants nullable)
      (Reading.union read trail variants nullable) := by
  by_cases hone : ∃ shape, variants.filter (! isNullVariant ·) = [shape]
  · obtain ⟨shape, hshape⟩ := hone
    rw [union_of_one hshape]
    refine parallel_bind (h.nodeOf trail shape) fun place => parallel_ite ?_ (parallel_pure rfl)
    exact parallel_admitNull place
  · obtain ⟨count, hunion⟩ := @union_untyped read trail variants nullable
      fun shape hshape => hone ⟨shape, hshape⟩
    rw [hunion]
    exact parallel_bind (parallel_note _ _) fun _ => parallel_add (untypedObject _)

theorem schemaObject (h : Shifts earlier read) (trail : List String)
    (members : List (String × Json)) :
    Parallel (Beside earlier) (earlier.size + ·) (schemaObject read trail members)
      (Reading.schemaObject read trail members) := by
  cases form members with
  | points hpoints =>
    rw [schemaObject_of_points hpoints]
    exact parallel_bind (h.referenced trail _) fun place => parallel_nullableNode _ place
  | union href hvariants =>
    rw [schemaObject_of_union href hvariants]
    exact h.union trail _ _
  | plain hplain =>
    rw [schemaObject_of_plain hplain]
    refine parallel_bind (parallel_add {}) fun place => ?_
    exact parallel_bind (h.fill trail place members) fun _ => parallel_pure rfl

theorem schemaStep (h : Shifts earlier read) : Shifts earlier (schemaStep read) := by
  intro trail data
  cases data with
  | null => exact parallel_pure rfl
  | obj members =>
    rw [schemaStep_obj]
    exact parallel_bind (h.schemaObject trail members) fun _ => parallel_pure rfl
  | _ =>
    show Parallel _ _ (some <$> add {}) (some <$> add {})
    rw [map_eq_pure_bind]
    exact parallel_bind (parallel_add {}) fun _ => parallel_pure rfl

end Shifts

theorem shifts_schemaTo (depth : Nat) : Shifts earlier (schemaTo depth) := by
  induction depth with
  | zero => exact fun _ _ => parallel_throw _
  | succ depth ih => exact ih.schemaStep

/-- Both states admit schemas of one depth. -/
theorem Beside.depthBound {s t : Reading} (h : Beside earlier s t) (data : Json) :
    t.depthBound data = s.depthBound data := by
  unfold Reading.depthBound
  rw [h.source, h.definitions]

theorem parallel_schema (data : Json) :
    Parallel (Beside earlier) (Option.map (earlier.size + ·)) (schema data) (schema data) := by
  refine parallel_get_bind fun s t hst => ?_
  rw [hst.depthBound]
  exact shifts_schemaTo _ [] data

theorem parallel_namedSchema (name : Json) :
    Parallel (Beside earlier) (earlier.size + ·) (namedSchema name) (namedSchema name) := by
  refine parallel_get_bind fun s t hst => ?_
  rw [hst.depthBound]
  exact (shifts_schemaTo _).definition name

end

end ApiClients.Reading
