import ApiClients.Document
import ApiClients.Proofs.Reachability

/-!
# One graph behind another

A graph may be put behind another one: its nodes get new addresses, and what they say of other nodes
is said of the new addresses (`Graph.beside`).  Nothing that is asked of the graph has another answer
there, but for the addresses, and the nodes in front are none of its business: references are
followed as before (`actual_beside`), and a node that is put in or changed is put in or changed
there.
-/

namespace ApiClients

/-! ### Nodes at new addresses -/

def Additional.shift (offset : Nat) : Additional → Additional
  | .shape child => .shape (offset + child)
  | other => other

/-- A node that refers to addresses further on. -/
def Node.shift (offset : Nat) (node : Node) : Node :=
  { node with
    items := node.items.map (offset + ·)
    additional := node.additional.shift offset
    properties := node.properties.map (Prod.map id (offset + ·))
    reference := node.reference.map (offset + ·) }

namespace Node

variable (offset : Nat) (node : Node)

@[simp] theorem reference_shift :
    (node.shift offset).reference = node.reference.map (offset + ·) := rfl

@[simp] theorem properties_shift :
    (node.shift offset).properties = node.properties.map (Prod.map id (offset + ·)) := rfl

@[simp] theorem required_shift : (node.shift offset).required = node.required := rfl

@[simp] theorem kinds_shift : (node.shift offset).kinds = node.kinds := rfl

@[simp] theorem admits_shift : (node.shift offset).additional.admits = node.additional.admits := by
  cases hadditional : node.additional <;> simp [shift, hadditional, Additional.shift,
    Additional.admits]

@[simp] theorem isSome_items_shift : (node.shift offset).items.isSome = node.items.isSome := by
  simp [shift]

end Node

/-! ### Entries at new addresses -/

namespace Entries

variable {κ α β : Type} [DecidableEq κ] (f : α → β) (entries : List (κ × α)) (key : κ)

theorem get?_map_snd : get? (entries.map (Prod.map id f)) key = (get? entries key).map f := by
  induction entries with
  | nil => rfl
  | cons entry rest ih =>
    unfold get? at ih ⊢
    by_cases hkey : entry.1 = key <;> simp_all

theorem has_map_snd : has (entries.map (Prod.map id f)) key = has entries key := by
  simp [has, List.any_map, Function.comp_def]

theorem put_map_snd (value : α) :
    put key (f value) (entries.map (Prod.map id f)) =
      (put key value entries).map (Prod.map id f) := by
  induction entries with
  | nil => rfl
  | cons entry rest ih =>
    obtain ⟨first, held⟩ := entry
    unfold put at ih ⊢
    by_cases hkey : first = key <;> simp [putAlike, Prod.map, hkey, ih]

theorem putNew_map_snd (value : α) :
    putNew (entries.map (Prod.map id f)) key (f value) =
      (putNew entries key value).map (Prod.map id f) := by
  unfold putNew
  rw [has_map_snd]
  cases has entries key <;> simp

end Entries

/-! ### Graphs -/

namespace Graph

/-- A graph behind an earlier one. -/
def beside (earlier graph : Graph) : Graph :=
  ⟨earlier.nodes ++ graph.nodes.map (Node.shift earlier.size)⟩

variable (earlier graph : Graph)

@[simp] theorem size_beside : (earlier.beside graph).size = earlier.size + graph.size := by
  simp [beside, size]

/-- The nodes of the earlier graph stay. -/
theorem node_beside_of_lt {id : NodeId} (h : id < earlier.size) :
    (earlier.beside graph).node id = earlier.node id := by
  unfold size at h
  simp [beside, node, Array.getElem?_append_left h]

@[simp] theorem node_beside (id : NodeId) :
    (earlier.beside graph).node (earlier.size + id) = (graph.node id).shift earlier.size := by
  unfold beside node
  rw [Array.getElem?_append_right (by simp [size])]
  simp only [size, Nat.add_sub_cancel_left, Array.getElem?_map]
  cases graph.nodes[id]? <;> rfl

theorem beside_push (node : Node) :
    (earlier.beside graph).push (node.shift earlier.size) = earlier.beside (graph.push node) := by
  simp [beside, push]

theorem beside_modify (id : Nat) {f g : Node → Node}
    (hfg : ∀ node : Node, g (node.shift earlier.size) = (f node).shift earlier.size) :
    (earlier.beside graph).modify (earlier.size + id) g = earlier.beside (graph.modify id f) := by
  have hsize : earlier.size = earlier.nodes.size := rfl
  unfold beside modify
  congr 1
  apply Array.ext
  · simp
  intro i _ _
  simp only [Array.getElem_modify, Array.getElem_append, Array.getElem_map]
  by_cases hlt : i < earlier.nodes.size
  · have hother : earlier.size + id ≠ i := by omega
    simp [hlt, hother]
  · have hsame : earlier.size + id = i ↔ id = i - earlier.nodes.size := by omega
    simp only [hlt, dif_neg, not_false_eq_true, hsame]
    split
    · exact hfg _
    · rfl

/-! ### References -/

/-- References are followed in a graph behind another one as they are in the graph itself. -/
theorem follow_beside (seen : List NodeId) (id : NodeId) :
    (earlier.beside graph).follow (seen.map (earlier.size + ·)) (earlier.size + id) =
      earlier.size + graph.follow seen id := by
  have hshift : Function.Injective (earlier.size + ·) := fun _ _ => Nat.add_left_cancel
  exact follow_map (C := fun _ => True) hshift (fun _ _ _ _ => trivial)
    (fun id _ => by simp) seen trivial

theorem actual_beside (id : NodeId) :
    (earlier.beside graph).actual (earlier.size + id) = earlier.size + graph.actual id :=
  follow_beside earlier graph [] id

@[simp] theorem actualNode_beside (id : NodeId) :
    (earlier.beside graph).actualNode (earlier.size + id) =
      (graph.actualNode id).shift earlier.size := by
  unfold actualNode
  rw [actual_beside, node_beside]

end Graph

/-! ### Operations and documents -/

def Parameter.shift (offset : Nat) (parameter : Parameter) : Parameter :=
  { parameter with schema := parameter.schema.map (offset + ·) }

def Response.shift (offset : Nat) (response : Response) : Response :=
  { response with schema := response.schema.map (offset + ·) }

/-- An operation that refers to addresses further on. -/
def Operation.shift (offset : Nat) (operation : Operation) : Operation :=
  { operation with
    parameters := operation.parameters.map (List.map (Parameter.shift offset))
    responses := operation.responses.map
      (List.map (Prod.map id (Option.map (Response.shift offset)))) }

/-- A document whose graph lies behind an earlier one. -/
def Document.beside (earlier : Graph) (document : Document) : Document :=
  { document with
    operations := document.operations.map (Operation.shift earlier.size)
    schemas := document.schemas.map (Prod.map id (earlier.size + ·))
    graph := earlier.beside document.graph }

end ApiClients
