import ApiClients.Json
import ApiClients.Schema.Kinds

/-!
# Schema graphs

The shapes that a document describes form a graph: nodes are addressed by number, and a node refers
to others as its items, its additional properties, its properties, or as the node it stands for.
The graph may be cyclic.  A number without a node stands for an empty node, so every look-up has an
answer.

A node with a reference carries no shape of its own; `Graph.actual` follows references to the node
that does.
-/

namespace ApiClients

/-- The address of a node in a graph. -/
abbrev NodeId := Nat

/-- What a schema says about properties that it does not list. -/
inductive Additional where
  | unsaid
  | allowed (yes : Bool)
  | shape (node : NodeId)
  deriving DecidableEq, Repr, Inhabited

/-- Whether properties beyond the listed ones are admitted. -/
def Additional.admits : Additional → Bool
  | .unsaid => false
  | .allowed yes => yes
  | .shape _ => true

/-- A description of a data shape (`SchemaNode`).  Values that a document gives without a meaning
for the shape are kept as they are. -/
structure Node where
  kinds : Kinds := {}
  format : Json := .null
  items : Option NodeId := none
  additional : Additional := .unsaid
  properties : List (String × NodeId) := []
  required : List Json := []
  enumValues : List Json := []
  /-- The name of the definition that the node belongs to, or null.  References reach only a
  definition whose name is a text. -/
  typeName : Json := .null
  nullable : Bool := false
  description : Json := .null
  default : Json := .null
  reference : Option NodeId := none
  deriving DecidableEq, Repr, Inhabited

namespace Node

def isNamed (node : Node) : Bool := decide (node.typeName ≠ .null)

def isEnum (node : Node) : Bool := !node.enumValues.isEmpty

def isArray (node : Node) : Bool := node.kinds.has .array

def isFile (node : Node) : Bool := node.kinds.has .file

/-- Whether the shape is a map: no listed properties, others admitted, and no kind but object and
null. -/
def isDictionary (node : Node) : Bool :=
  node.properties.isEmpty && node.additional.admits
    && (node.kinds.atMostObject || decide (node.kinds = Kinds.ofList [.object, .null]))

/-- Whether the shape gets a generated type of its own: a named enumeration or object.  Other named
shapes are spelled out where they are used. -/
def isTypeDefinition (node : Node) : Bool :=
  node.isNamed
    && (node.isEnum
      || (!(node.isArray || node.isFile || node.isDictionary)
        && (!node.properties.isEmpty
          || decide (node.kinds.erase .null = Kinds.ofList [.object]))))

def isNullable (node : Node) : Bool := node.nullable || node.kinds.has .null

def isContainer (node : Node) : Bool := node.isArray || node.isDictionary

/-- Whether the node describes nothing. -/
def describesNothing (node : Node) : Bool :=
  !node.isTypeDefinition && node.kinds.atMostObject && node.properties.isEmpty
    && node.items.isNone && !node.additional.admits && !node.isEnum

/-- The nodes that a node refers to, in the order in which they are visited. -/
def children (node : Node) : List NodeId :=
  node.reference.toList ++ node.items.toList
    ++ (match node.additional with | .shape child => [child] | _ => [])
    ++ node.properties.map (·.2)

end Node

/-- A graph of nodes. -/
structure Graph where
  nodes : Array Node := #[]
  deriving Repr, Inhabited

namespace Graph

def size (graph : Graph) : Nat := graph.nodes.size

def node (graph : Graph) (id : NodeId) : Node := graph.nodes[id]?.getD {}

/-- The graph with a node more, whose address is the size of the old graph. -/
def push (graph : Graph) (node : Node) : Graph := ⟨graph.nodes.push node⟩

/-- The graph with the node at an address changed. -/
def modify (graph : Graph) (id : NodeId) (change : Node → Node) : Graph :=
  ⟨graph.nodes.modify id change⟩

@[simp] theorem size_push (graph : Graph) (node : Node) :
    (graph.push node).size = graph.size + 1 := by
  simp [size, push]

@[simp] theorem size_modify (graph : Graph) (id : NodeId) (change : Node → Node) :
    (graph.modify id change).size = graph.size := by
  simp [size, modify]

/-- The node that is put into a graph is found at the old size. -/
@[simp] theorem node_push_size (graph : Graph) (node : Node) :
    (graph.push node).node graph.size = node := by
  simp [Graph.node, push, size]

/-- Putting a node into a graph leaves the others as they are. -/
theorem node_push_of_lt (graph : Graph) (node : Node) {id : NodeId} (h : id < graph.size) :
    (graph.push node).node id = graph.node id := by
  simp only [size] at h
  simp [Graph.node, push, Array.getElem?_push_lt h, h]

theorem node_modify_of_ne (graph : Graph) (change : Node → Node) {id other : NodeId}
    (h : other ≠ id) : (graph.modify id change).node other = graph.node other := by
  rw [Graph.node, modify, Array.getElem?_modify, if_neg (Ne.symm h)]
  rfl

@[simp] theorem node_modify_self (graph : Graph) (change : Node → Node) {id : NodeId}
    (h : id < graph.size) : (graph.modify id change).node id = change (graph.node id) := by
  simp only [size] at h
  rw [Graph.node, modify, Array.getElem?_modify, if_pos rfl]
  simp [Graph.node, h]

/-- Beyond its size a graph has empty nodes. -/
theorem node_eq_default (graph : Graph) {id : NodeId} (h : graph.size ≤ id) :
    graph.node id = {} := by
  simp [node, size] at *
  simp [h]

/-- An address at which something is said lies in the graph. -/
theorem lt_size_of_node_ne (graph : Graph) {id : NodeId} (h : graph.node id ≠ {}) :
    id < graph.size :=
  Nat.lt_of_not_le fun le => h (graph.node_eq_default le)

/-- A container lies in the graph. -/
theorem lt_size_of_isContainer (graph : Graph) {id : NodeId}
    (h : (graph.node id).isContainer = true) : id < graph.size :=
  graph.lt_size_of_node_ne fun e => by rw [e] at h; exact absurd h (by decide)

/-! ### Addresses not yet seen -/

/-- How many addresses of the graph are not in a list. -/
def unseen (graph : Graph) (seen : List NodeId) : Nat :=
  (List.range graph.size).countP (· ∉ seen)

/-- A longer list misses no more addresses. -/
theorem countP_cons_le (seen : List NodeId) (id : NodeId) (ids : List NodeId) :
    ids.countP (· ∉ id :: seen) ≤ ids.countP (· ∉ seen) :=
  List.countP_mono_left fun a _ h => by
    simp only [List.mem_cons, not_or, decide_eq_true_eq] at *
    exact h.2

/-- Seeing an address more never leaves more unseen. -/
theorem unseen_cons_le (graph : Graph) (seen : List NodeId) (id : NodeId) :
    graph.unseen (id :: seen) ≤ graph.unseen seen :=
  countP_cons_le seen id _

/-- Seeing an address of the graph for the first time leaves fewer unseen. -/
theorem unseen_cons_lt (graph : Graph) {seen : List NodeId} {id : NodeId}
    (fresh : id ∉ seen) (h : id < graph.size) :
    graph.unseen (id :: seen) < graph.unseen seen := by
  obtain ⟨before, after, e⟩ := List.append_of_mem (List.mem_range.2 h)
  have left := countP_cons_le seen id before
  have right := countP_cons_le seen id after
  simp only [unseen, e, List.countP_append, List.countP_cons]
  simp only [fresh, List.mem_cons, true_or, not_true_eq_false, not_false_eq_true, decide_true,
    decide_false, if_true, if_false, Bool.false_eq_true]
  simp only [List.mem_cons] at left right
  omega

/-! ### References -/

/-- The node reached from a node by following references until one is missing or comes back to a
node seen before. -/
def follow (graph : Graph) (seen : List NodeId) (id : NodeId) : NodeId :=
  match _h : (graph.node id).reference with
  | none => id
  | some next => if _fresh : id ∈ seen then id else graph.follow (id :: seen) next
termination_by graph.unseen seen
decreasing_by
  refine graph.unseen_cons_lt _fresh (graph.lt_size_of_node_ne fun e => ?_)
  rw [e] at _h
  exact absurd _h (by simp)

/-- The address of the node that carries the shape of a node (`actual_schema`). -/
def actual (graph : Graph) (id : NodeId) : NodeId := graph.follow [] id

/-- The node that carries the shape of a node. -/
def actualNode (graph : Graph) (id : NodeId) : Node := graph.node (graph.actual id)

def isEmpty (graph : Graph) (id : NodeId) : Bool := (graph.actualNode id).describesNothing

end Graph

end ApiClients
