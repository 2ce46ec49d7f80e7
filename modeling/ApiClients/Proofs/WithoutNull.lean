import ApiClients.Proofs.FrozenResolution
import ApiClients.Proofs.Nullability
import ApiClients.Proofs.TwinNodes

/-!
# Graphs with null taken away

The type that a schema has without null, `typeAs` told so, is the type that it has in the graph in
which no node of its chain of references admits null (`typeAs_withoutNull`).  Of a container this
holds if what it holds does not lead back to the chain; where it does, null is taken away inside the
container too.  The names are given in both graphs, and so the registry is frozen.
-/

namespace ApiClients

/-! ### Nodes without null -/

namespace Node

/-- The node with null not admitted any more. -/
def withoutNull (node : Node) : Node :=
  { node with kinds := node.kinds.erase .null, nullable := false }

@[simp] theorem items_withoutNull (node : Node) : node.withoutNull.items = node.items := rfl

@[simp] theorem additional_withoutNull (node : Node) :
    node.withoutNull.additional = node.additional := rfl

@[simp] theorem isNullable_withoutNull (node : Node) : node.withoutNull.isNullable = false := rfl

@[simp] theorem isArray_withoutNull (node : Node) : node.withoutNull.isArray = node.isArray := rfl

@[simp] theorem isFile_withoutNull (node : Node) : node.withoutNull.isFile = node.isFile := rfl

theorem primitive?_withoutNull (node : Node) :
    node.withoutNull.kinds.primitive? = node.kinds.primitive? := rfl

/-- A shape that is not null alone is a map with null and without. -/
theorem isDictionary_withoutNull {node : Node} (h : node.kinds ≠ Kinds.ofList [.null]) :
    node.withoutNull.isDictionary = node.isDictionary := by
  have hkinds : ∀ string number integer boolean object array file null,
      let kinds : Kinds := ⟨string, number, integer, boolean, object, array, file, null⟩
      kinds ≠ Kinds.ofList [.null] →
        ((kinds.erase .null).atMostObject
            || decide (kinds.erase .null = Kinds.ofList [.object, .null]))
          = (kinds.atMostObject || decide (kinds = Kinds.ofList [.object, .null])) := by
    decide +kernel
  have hsame := hkinds _ _ _ _ _ _ _ _ h
  exact congrArg (node.properties.isEmpty && node.additional.admits && ·) hsame

theorem isContainer_withoutNull {node : Node} (h : node.kinds ≠ Kinds.ofList [.null]) :
    node.withoutNull.isContainer = node.isContainer := by
  rw [isContainer, isContainer, isDictionary_withoutNull h, isArray_withoutNull]

theorem isTypeDefinition_withoutNull {node : Node} (h : node.kinds ≠ Kinds.ofList [.null]) :
    node.withoutNull.isTypeDefinition = node.isTypeDefinition := by
  have hdictionary := isDictionary_withoutNull h
  unfold isTypeDefinition
  rw [hdictionary]
  rfl

end Node

namespace Graph

/-- The graph with null taken away from some nodes. -/
def withoutNull (graph : Graph) (ids : List NodeId) : Graph :=
  ⟨graph.nodes.mapIdx fun id node => if id ∈ ids then node.withoutNull else node⟩

section

variable {graph : Graph} {ids : List NodeId} {id : NodeId}

theorem node_withoutNull (graph : Graph) (ids : List NodeId) (id : NodeId) :
    (graph.withoutNull ids).node id
      = if id ∈ ids then (graph.node id).withoutNull else graph.node id := by
  unfold withoutNull node
  rw [Array.getElem?_mapIdx]
  cases graph.nodes[id]? with
  | some node => rfl
  | none =>
    have hempty : ({} : Node).withoutNull = {} := rfl
    simp [hempty]

theorem node_withoutNull_of_mem (h : id ∈ ids) :
    (graph.withoutNull ids).node id = (graph.node id).withoutNull := by
  rw [node_withoutNull, if_pos h]

theorem node_withoutNull_of_not_mem (h : id ∉ ids) :
    (graph.withoutNull ids).node id = graph.node id := by
  rw [node_withoutNull, if_neg h]

theorem reference_withoutNull (graph : Graph) (ids : List NodeId) (id : NodeId) :
    ((graph.withoutNull ids).node id).reference = (graph.node id).reference := by
  rw [node_withoutNull]
  split <;> rfl

theorem typeName_withoutNull (graph : Graph) (ids : List NodeId) (id : NodeId) :
    ((graph.withoutNull ids).node id).typeName = (graph.node id).typeName := by
  rw [node_withoutNull]
  split <;> rfl

@[simp] theorem actual_withoutNull (graph : Graph) (ids : List NodeId) (id : NodeId) :
    (graph.withoutNull ids).actual id = graph.actual id :=
  follow_congr (C := fun _ => True) (fun _ _ _ _ => trivial)
    (fun id _ => graph.reference_withoutNull ids id) [] trivial

end

end Graph

/-! ### Runs with the same frozen names -/

/-- Two states whose names are the same and frozen. -/
def SameFrozen (s t : Typing) : Prop := s.registry.frozen = true ∧ t.registry = s.registry

theorem parallel_note (event event' : Event) :
    Parallel SameFrozen id (Typing.note event) (Typing.note event') :=
  parallel_modify fun _ _ hst => hst

theorem parallel_map {α β : Type} {x y : TypingM α} (h : Parallel SameFrozen id x y) (f : α → β) :
    Parallel SameFrozen id (f <$> x) (f <$> y) := by
  rw [map_eq_pure_bind, map_eq_pure_bind]
  exact parallel_bind h fun _ => parallel_pure rfl

/-- A name that is looked up or refused is so by the registry and the name of the definition. -/
theorem parallel_name {language : Language} {graph bare : Graph} {last : NodeId}
    (h : (bare.node last).typeName = (graph.node last).typeName) :
    Parallel SameFrozen id (Registry.name language graph last)
      (Registry.name language bare last) := by
  unfold Registry.name
  apply parallel_get_bind
  intro s t hst
  obtain ⟨hfrozen, hsame⟩ := hst
  simp only [hsame, hfrozen, h, if_true]
  cases s.registry.nameOf? last with
  | some name => exact parallel_pure rfl
  | none => exact parallel_throw _

namespace Resolver

variable {language : Language} {graph : Graph} {ids around : List NodeId} {first : NodeId}
  {usage : Usage}

/-- The base types of two nodes are the same if the nodes are one primitive with one format. -/
theorem parallel_primitiveType (language : Language) {node other : Node}
    (hprimitive : other.kinds.primitive? = node.kinds.primitive?)
    (hformat : other.format = node.format) (nullable : Bool) (use : String) :
    Parallel SameFrozen id (primitiveType language node nullable use)
      (primitiveType language other nullable use) := by
  unfold primitiveType
  rw [hprimitive, hformat]
  cases node.kinds.primitive? with
  | none =>
    -- what is noted may differ, but the type does not
    intro s t hst
    by_cases hnoted : (!node.kinds.atMostObject || !node.properties.isEmpty) = true <;>
      by_cases hnoted' : (!other.kinds.atMostObject || !other.properties.isEmpty) = true <;>
      simp only [hnoted, hnoted', if_true, if_false, Bool.false_eq_true] <;>
      exact ⟨rfl, hst⟩
  | some primitive =>
    refine parallel_bind (parallel_mk _) fun type => ?_
    cases type with
    | some type => exact parallel_pure rfl
    | none => exact parallel_bind (parallel_note _ _) fun _ => parallel_pure rfl

section

variable {bare : Graph} (hactual : bare.actual first = graph.actual first)
include hactual

/-- What an array holds has one type in two graphs if the two hold one child there, and the child
has one type. -/
theorem parallel_itemType (hitems : (bare.actualNode first).items = (graph.actualNode first).items)
    (hfile : (bare.actualNode first).isFile = (graph.actualNode first).isFile)
    (hchild : ∀ child, graph.Follows (graph.actual first) child → ∀ use,
      Parallel SameFrozen id
        ((ofLanguage language).resolveWithin graph (graph.actual first :: around) child use)
        ((ofLanguage language).resolveWithin bare (graph.actual first :: around) child use)) :
    Parallel SameFrozen id (itemType (ofLanguage language) graph around first usage)
      (itemType (ofLanguage language) bare around first usage) := by
  unfold itemType
  rw [hitems, hfile, hactual]
  cases hfound : (graph.actualNode first).items with
  | none => exact parallel_pure rfl
  | some child => exact hchild child (Or.inr (Or.inl hfound)) _

theorem parallel_valueType
    (hadditional : (bare.actualNode first).additional = (graph.actualNode first).additional)
    (hchild : ∀ child, graph.Follows (graph.actual first) child → ∀ use,
      Parallel SameFrozen id
        ((ofLanguage language).resolveWithin graph (graph.actual first :: around) child use)
        ((ofLanguage language).resolveWithin bare (graph.actual first :: around) child use)) :
    Parallel SameFrozen id (valueType (ofLanguage language) graph around first usage)
      (valueType (ofLanguage language) bare around first usage) := by
  unfold valueType
  rw [hadditional, hactual]
  cases hfound : (graph.actualNode first).additional with
  | shape child => exact hchild child (Or.inr (Or.inr hfound)) _
  | unsaid => exact parallel_pure rfl
  | allowed _ => exact parallel_pure rfl

end

/-- Taking null away from nodes that a node does not lead to makes no difference to its type. -/
theorem parallel_resolveWithin
    (h : ∀ last, Relation.ReflTransGen graph.Follows first last → last ∉ ids) :
    Parallel SameFrozen id ((ofLanguage language).resolveWithin graph around first usage)
      ((ofLanguage language).resolveWithin (graph.withoutNull ids) around first usage) := by
  induction hsize : graph.unseen around using Nat.strongRecOn generalizing around first usage with
  | ind size ih =>
    subst hsize
    have hactual := graph.actual_withoutNull ids first
    have hlast := graph.follows_actual first
    have hnode : (graph.withoutNull ids).actualNode first = graph.actualNode first := by
      rw [Graph.actualNode, hactual, Graph.node_withoutNull_of_not_mem (h _ hlast), Graph.actualNode]
    have hadmits : admitsNull (graph.withoutNull ids) first usage
        = admitsNull graph first usage := by
      rw [admitsNull, admitsNull, hnode, Graph.node_withoutNull_of_not_mem (h _ .refl)]
    have hinner : ∀ child, graph.Follows (graph.actual first) child → ∀ last,
        Relation.ReflTransGen graph.Follows child last → last ∉ ids := by
      intro child hchild last hpath
      exact h last ((hlast.tail hchild).trans hpath)
    cases branch graph around first with
    | definition hdefinition =>
      rw [resolveWithin_definition hdefinition, resolveWithin_definition (hnode ▸ hdefinition),
        hactual, hadmits]
      refine parallel_bind (parallel_name ?_) fun _ => parallel_pure rfl
      exact graph.typeName_withoutNull ids _
    | file hdefinition hfile =>
      rw [resolveWithin_file hdefinition hfile,
        resolveWithin_file (hnode ▸ hdefinition) (hnode ▸ hfile)]
      exact parallel_pure rfl
    | recursive hdefinition hfile hcontainer haround =>
      rw [resolveWithin_recursive hdefinition hfile hcontainer haround,
        resolveWithin_recursive (hnode ▸ hdefinition) (hnode ▸ hfile) (hnode ▸ hcontainer)
          (hactual ▸ haround), hadmits]
      exact parallel_bind (parallel_note _ _) fun _ => parallel_pure rfl
    | array hdefinition hcontainer haround harray =>
      have hfewer := graph.unseen_cons_lt haround (graph.lt_size_of_isContainer hcontainer)
      rw [resolveWithin_array hdefinition hcontainer haround harray,
        resolveWithin_array (hnode ▸ hdefinition) (hnode ▸ hcontainer) (hactual ▸ haround)
          (hnode ▸ harray), hadmits]
      refine parallel_bind ?_ fun _ => parallel_pure rfl
      exact parallel_itemType hactual (congrArg Node.items hnode) (congrArg Node.isFile hnode)
        fun child hchild _ => ih _ hfewer (hinner child hchild) rfl
    | map hdefinition hfile hcontainer haround harray =>
      have hfewer := graph.unseen_cons_lt haround (graph.lt_size_of_isContainer hcontainer)
      rw [resolveWithin_map hdefinition hfile hcontainer haround harray,
        resolveWithin_map (hnode ▸ hdefinition) (hnode ▸ hfile) (hnode ▸ hcontainer)
          (hactual ▸ haround) (hnode ▸ harray), hadmits]
      refine parallel_bind ?_ fun _ => parallel_pure rfl
      exact parallel_valueType hactual (congrArg Node.additional hnode)
        fun child hchild _ => ih _ hfewer (hinner child hchild) rfl
    | base hdefinition hfile hcontainer =>
      rw [resolveWithin_base hdefinition hfile hcontainer,
        resolveWithin_base (hnode ▸ hdefinition) (hnode ▸ hfile) (hnode ▸ hcontainer), hnode, hadmits]
      exact parallel_primitiveType language rfl rfl _ _

variable {last : NodeId}

/-- If the last node of a chain of references is a container that is spelled out, what it holds does
not lead back to the chain. -/
def Apart (graph : Graph) (nodes : List NodeId) (last : NodeId) : Prop :=
  (graph.node last).isTypeDefinition = false → (graph.node last).isContainer = true →
    ∀ child, graph.Follows last child →
      ∀ node ∈ nodes, ¬ Relation.ReflTransGen graph.Follows child node

theorem parallel_typeAs (h : graph.ReferenceChain first ids last)
    (hkinds : (graph.node last).kinds ≠ Kinds.ofList [.null])
    (hapart : Apart graph ids last) :
    Parallel SameFrozen id ((ofLanguage language).typeAs graph false first usage)
      ((ofLanguage language).typeAs (graph.withoutNull ids) false first usage) := by
  have hactual := graph.actual_withoutNull ids first
  have hlast : graph.actual first = last := h.actual_eq
  have hnode : (graph.withoutNull ids).actualNode first = (graph.actualNode first).withoutNull := by
    rw [Graph.actualNode, hactual, hlast, Graph.node_withoutNull_of_mem h.last_mem,
      Graph.actualNode, hlast]
  have hkinds : (graph.actualNode first).kinds ≠ Kinds.ofList [.null] := by
    rwa [Graph.actualNode, hlast]
  have hdefined : ((graph.withoutNull ids).actualNode first).isTypeDefinition
      = (graph.actualNode first).isTypeDefinition := by
    rw [hnode, Node.isTypeDefinition_withoutNull hkinds]
  have hfiles : (((graph.withoutNull ids).actualNode first).isFile
        && !((graph.withoutNull ids).actualNode first).isArray)
      = ((graph.actualNode first).isFile && !(graph.actualNode first).isArray) := by
    rw [hnode, Node.isFile_withoutNull, Node.isArray_withoutNull]
  have hcontains : ((graph.withoutNull ids).actualNode first).isContainer
      = (graph.actualNode first).isContainer := by
    rw [hnode, Node.isContainer_withoutNull hkinds]
  have harrays : ((graph.withoutNull ids).actualNode first).isArray
      = (graph.actualNode first).isArray := by
    rw [hnode, Node.isArray_withoutNull]
  have hinner : (graph.actualNode first).isTypeDefinition = false →
      (graph.actualNode first).isContainer = true → ∀ child,
      graph.Follows (graph.actual first) child → ∀ node,
        Relation.ReflTransGen graph.Follows child node → node ∉ ids := by
    intro hspelled hcontainer child hchild node hpath hmem
    rw [Graph.actualNode, hlast] at hspelled hcontainer
    rw [hlast] at hchild
    exact hapart hspelled hcontainer child hchild node hmem hpath
  cases branch graph [] first with
  | definition hdefinition =>
    rw [typeAs_definition hdefinition, typeAs_definition (hdefined.trans hdefinition), hactual]
    exact parallel_map (parallel_name (graph.typeName_withoutNull ids _)) _
  | file hdefinition hfile =>
    rw [typeAs_file (Graph.isFileShape_iff.mpr ⟨hdefinition, hfile⟩), typeAs_file
      (Graph.isFileShape_iff.mpr ⟨hdefined.trans hdefinition, hfiles.trans hfile⟩)]
    exact parallel_pure rfl
  | recursive _ _ _ haround => cases haround
  | array hdefinition hcontainer _ harray =>
    rw [typeAs_array hdefinition hcontainer harray,
      typeAs_array (hdefined.trans hdefinition) (hcontains.trans hcontainer) (harrays.trans harray)]
    apply parallel_map
    exact parallel_itemType hactual (by rw [hnode, Node.items_withoutNull])
      (by rw [hnode, Node.isFile_withoutNull])
      fun child hchild _ => parallel_resolveWithin (hinner hdefinition hcontainer child hchild)
  | map hdefinition hfile hcontainer _ harray =>
    rw [typeAs_map hdefinition hfile hcontainer harray,
      typeAs_map (hdefined.trans hdefinition) (hfiles.trans hfile) (hcontains.trans hcontainer)
        (harrays.trans harray)]
    apply parallel_map
    exact parallel_valueType hactual (by rw [hnode, Node.additional_withoutNull])
      fun child hchild _ => parallel_resolveWithin (hinner hdefinition hcontainer child hchild)
  | base hdefinition hfile hcontainer =>
    rw [typeAs_base hdefinition hfile hcontainer, typeAs_base (hdefined.trans hdefinition)
      (hfiles.trans hfile) (hcontains.trans hcontainer), hnode]
    exact parallel_primitiveType language (Node.primitive?_withoutNull _) rfl _ _

/-- With frozen names, and if what the schema holds does not lead back to its chain of references,
the type without null is the one that the schema has where no node of the chain admits null. -/
theorem typeAs_withoutNull (h : graph.ReferenceChain first ids last)
    (hkinds : (graph.node last).kinds ≠ Kinds.ofList [.null]) (hapart : Apart graph ids last)
    {s : Typing} (hfrozen : s.registry.frozen = true) :
    (runStep ((ofLanguage language).typeAs (graph.withoutNull ids) false first usage) s).1
      = (runStep ((ofLanguage language).typeAs graph false first usage) s).1 := by
  have hsame : Parallel SameFrozen id ((ofLanguage language).typeAs graph false first usage)
      ((ofLanguage language).typeAs (graph.withoutNull ids) false first usage) :=
    parallel_typeAs h hkinds hapart
  rw [(hsame s s ⟨hfrozen, rfl⟩).1, Except.map_id]
  rfl

end Resolver

theorem Builder.admitsNull_withoutNull {graph : Graph} {ids : List NodeId} {first last : NodeId}
    (h : graph.ReferenceChain first ids last) :
    admitsNull (graph.withoutNull ids) (some first) = false := by
  rw [admitsNull, Option.any_some, Graph.actualNode, graph.actual_withoutNull, h.actual_eq,
    Graph.node_withoutNull_of_mem h.first_mem, Graph.node_withoutNull_of_mem h.last_mem,
    Node.isNullable_withoutNull, Node.isNullable_withoutNull, Bool.or_false]

end ApiClients
