import ApiClients.Proofs.Reachability
import ApiClients.Proofs.Resolution

/-!
# Nodes that have one type

Resolving a node depends on the containers around it only where the node leads back to one of them
(`resolveWithin_around`).  So two nodes that say the same of a shape, and whose parts do, have the
same type wherever it is asked for, provided that neither of them stands on a circle and that no
node without a name belongs to two others (`resolve_of_twins`).  What a node is called does not
matter, unless it is a type definition.
-/

namespace ApiClients

/-! ### What resolving follows -/

/-- A node refers to another one where its type is spelled out. -/
def Node.Links (node : Node) (next : NodeId) : Prop :=
  node.reference = some next ∨ node.items = some next ∨ node.additional = .shape next

namespace Graph

/-- One node leads to another where its type is spelled out. -/
def Follows (graph : Graph) (id next : NodeId) : Prop := (graph.node id).Links next

/-- Nodes that belong to no definition are followed from one node at most. -/
def OneParent (graph : Graph) : Prop :=
  ∀ id other child, graph.Follows id child → graph.Follows other child →
    (graph.node child).typeName = .null → id = other

/-- A node that is not come back to. -/
def Open (graph : Graph) (id : NodeId) : Prop := ¬ Relation.TransGen graph.Follows id id

section

variable {graph : Graph} {id child last : NodeId}

theorem follows_follow (seen : List NodeId) :
    Relation.ReflTransGen graph.Follows id (graph.follow seen id) :=
  follow_mem (C := Relation.ReflTransGen graph.Follows id)
    (fun _ _ hpath hnext => hpath.tail (Or.inl hnext)) seen .refl

theorem follows_actual (graph : Graph) (id : NodeId) :
    Relation.ReflTransGen graph.Follows id (graph.actual id) := follows_follow []

theorem Open.not_back (h : graph.Open id) (hchild : graph.Follows id child) :
    ¬ Relation.ReflTransGen graph.Follows child id :=
  fun hback => h (.head' hchild hback)

/-- A node without a name that is followed from an open one is open itself: a circle through it
would come by its only parent. -/
theorem Open.unnamed (h : graph.Open id) (hparents : graph.OneParent)
    (hchild : graph.Follows id child) (hname : (graph.node child).typeName = .null) :
    graph.Open child := by
  intro hcircle
  obtain ⟨last, hpath, hlast⟩ := Relation.TransGen.tail'_iff.mp hcircle
  have hsame : id = last := hparents id last child hchild hlast hname
  exact h.not_back hchild (hsame ▸ hpath)

/-- What a node stands for is found from the node itself if this is open. -/
theorem actual_of_reference (h : graph.Open id) (hnext : (graph.node id).reference = some child) :
    graph.actual id = graph.actual child := by
  have hback := h.not_back (Or.inl hnext)
  have hend : graph.follow ([] ++ [id]) child ∉ [id] := by
    rw [List.nil_append, List.mem_singleton]
    intro hsame
    exact hback (hsame ▸ follows_follow [id])
  unfold actual
  rw [follow_next hnext List.not_mem_nil]
  exact (follow_of_append [] [id] child hend).symm

end

end Graph

/-! ### The containers around a node -/

namespace Resolver

section

variable {resolver : Resolver} {graph : Graph} {around around' : List NodeId} {id other : NodeId}
  {usage : Usage}

/-- Containers around a node that it does not lead back to make no difference to its type. -/
theorem resolveWithin_around
    (h : ∀ last, Relation.ReflTransGen graph.Follows id last → (last ∈ around ↔ last ∈ around')) :
    resolver.resolveWithin graph around id usage
      = resolver.resolveWithin graph around' id usage := by
  induction hsize : graph.unseen around using Nat.strongRecOn
    generalizing around around' id usage with
  | ind size ih =>
    subst hsize
    have hactual := h _ (graph.follows_actual id)
    have hinner : ∀ child, graph.Follows (graph.actual id) child → ∀ last,
        Relation.ReflTransGen graph.Follows child last →
          (last ∈ graph.actual id :: around ↔ last ∈ graph.actual id :: around') := by
      intro child hchild last hlast
      have hpath := ((graph.follows_actual id).tail hchild).trans hlast
      rw [List.mem_cons, List.mem_cons, h last hpath]
    cases branch graph around id with
    | definition hdefinition =>
      rw [resolveWithin_definition hdefinition, resolveWithin_definition hdefinition]
    | file hdefinition hfile =>
      rw [resolveWithin_file hdefinition hfile, resolveWithin_file hdefinition hfile]
    | recursive hdefinition hfile hcontainer haround =>
      rw [resolveWithin_recursive hdefinition hfile hcontainer haround,
        resolveWithin_recursive hdefinition hfile hcontainer (hactual.mp haround)]
    | array hdefinition hcontainer haround harray =>
      have hfewer := graph.unseen_cons_lt haround (graph.lt_size_of_isContainer hcontainer)
      rw [resolveWithin_array hdefinition hcontainer haround harray,
        resolveWithin_array hdefinition hcontainer (mt hactual.mpr haround) harray]
      unfold itemType
      cases hitems : (graph.actualNode id).items with
      | none => rfl
      | some child =>
        exact congrArg (· >>= _) (ih _ hfewer (hinner child (Or.inr (Or.inl hitems))) rfl)
    | map hdefinition hfile hcontainer haround harray =>
      have hfewer := graph.unseen_cons_lt haround (graph.lt_size_of_isContainer hcontainer)
      rw [resolveWithin_map hdefinition hfile hcontainer haround harray,
        resolveWithin_map hdefinition hfile hcontainer (mt hactual.mpr haround) harray]
      unfold valueType
      cases hadditional : (graph.actualNode id).additional with
      | shape child =>
        exact congrArg (· >>= _) (ih _ hfewer (hinner child (Or.inr (Or.inr hadditional))) rfl)
      | _ => rfl
    | base hdefinition hfile hcontainer =>
      rw [resolveWithin_base hdefinition hfile hcontainer,
        resolveWithin_base hdefinition hfile hcontainer]

/-- Inside of an open node its parts have the types that they have anywhere. -/
theorem resolveWithin_child (h : graph.Open id) (hchild : graph.Follows id other) :
    resolver.resolveWithin graph [id] other usage
      = resolver.resolveWithin graph [] other usage := by
  refine resolveWithin_around fun last hlast => ?_
  have hapart : last ≠ id := by
    rintro rfl
    exact h.not_back hchild hlast
  simp [hapart]

/-- Two nodes with one node that carries their shape, and of which both or neither admit null, have
the same type. -/
theorem resolveWithin_actual (hactual : graph.actual id = graph.actual other)
    (hnullable : ((graph.node id).isNullable || (graph.actualNode id).isNullable)
      = ((graph.node other).isNullable || (graph.actualNode other).isNullable)) :
    resolver.resolveWithin graph around id usage
      = resolver.resolveWithin graph around other usage := by
  rw [Graph.actualNode, Graph.actualNode, hactual] at hnullable
  rw [resolveWithin]
  conv_rhs => rw [resolveWithin]
  simp only [hactual, Bool.or_assoc, hnullable]

end

end Resolver

/-! ### Nodes that say the same -/

/-- Two values for further properties that differ at most in the node of their shape. -/
inductive Additional.Rel (S : NodeId → NodeId → Prop) : Additional → Additional → Prop
  | unsaid : Rel S .unsaid .unsaid
  | allowed (yes : Bool) : Rel S (.allowed yes) (.allowed yes)
  | shape {id other : NodeId} (h : S id other) : Rel S (.shape id) (.shape other)

/-- Two nodes say the same of a shape, as far as its type depends on it, and their parts are
related. -/
structure Node.SameShape (S : NodeId → NodeId → Prop) (node other : Node) : Prop where
  left : node.reference = none
  right : other.reference = none
  kinds : node.kinds = other.kinds
  format : node.format = other.format
  nullable : node.nullable = other.nullable
  properties : node.properties.isEmpty = other.properties.isEmpty
  items : Option.Rel S node.items other.items
  additional : Additional.Rel S node.additional other.additional

namespace Node.SameShape

variable {S : NodeId → NodeId → Prop} {node other : Node}

theorem admits (h : SameShape S node other) : node.additional.admits = other.additional.admits := by
  have hadditional := h.additional
  generalize node.additional = first at hadditional ⊢
  generalize other.additional = second at hadditional ⊢
  cases hadditional <;> rfl

theorem isNullable (h : SameShape S node other) : node.isNullable = other.isNullable := by
  simp [Node.isNullable, h.kinds, h.nullable]

theorem isArray (h : SameShape S node other) : node.isArray = other.isArray := by
  simp [Node.isArray, h.kinds]

theorem isFile (h : SameShape S node other) : node.isFile = other.isFile := by
  simp [Node.isFile, h.kinds]

theorem isContainer (h : SameShape S node other) : node.isContainer = other.isContainer := by
  simp [Node.isContainer, h.isArray, isDictionary, h.properties, h.admits, h.kinds]

end Node.SameShape

namespace Graph

/-- Two nodes of a graph have one type: they are the same node, they stand for the same node, or
they belong to no definition and say the same of a shape, of which the parts have one type. -/
inductive Twins (graph : Graph) : NodeId → NodeId → Prop
  | same (id : NodeId) : Twins graph id id
  | stand {id other target : NodeId} (hid : (graph.node id).reference = some target)
      (hother : (graph.node other).reference = some target)
      (hnullable : (graph.node id).isNullable = (graph.node other).isNullable)
      (hunnamed : (graph.node id).typeName = .null)
      (hunnamed' : (graph.node other).typeName = .null) : Twins graph id other
  | shape {id other : NodeId} {S : NodeId → NodeId → Prop}
      (hparts : ∀ part part', S part part' → Twins graph part part')
      (hshape : (graph.node id).SameShape S (graph.node other))
      (hunnamed : (graph.node id).typeName = .null)
      (hunnamed' : (graph.node other).typeName = .null) : Twins graph id other

end Graph

namespace Resolver

variable {graph : Graph} {id other : NodeId}

section

variable {resolver : Resolver} {S : NodeId → NodeId → Prop} {usage : Usage}

/-- Nodes that say the same have items of one type if the parts of both have one type. -/
theorem itemType_of_sameShape (hshape : (graph.node id).SameShape S (graph.node other))
    (hparts : ∀ part part', graph.Follows id part → graph.Follows other part' → S part part' →
      ∀ usage, resolver.resolveWithin graph [id] part usage
        = resolver.resolveWithin graph [other] part' usage) :
    itemType resolver graph [] id usage = itemType resolver graph [] other usage := by
  have hactual : graph.actual id = id := Graph.follow_none [] hshape.left
  have hactual' : graph.actual other = other := Graph.follow_none [] hshape.right
  unfold itemType Graph.actualNode
  rw [hactual, hactual']
  have hitems := hshape.items
  cases hfirst : (graph.node id).items with
  | none =>
    rw [hfirst] at hitems
    cases hsecond : (graph.node other).items with
    | none => rw [hshape.isFile]
    | some part' =>
      rw [hsecond] at hitems
      cases hitems
  | some part =>
    rw [hfirst] at hitems
    cases hsecond : (graph.node other).items with
    | none =>
      rw [hsecond] at hitems
      cases hitems
    | some part' =>
      rw [hsecond] at hitems
      cases hitems with
      | some hrelated =>
        exact hparts part part' (Or.inr (Or.inl hfirst)) (Or.inr (Or.inl hsecond)) hrelated _

theorem valueType_of_sameShape (hshape : (graph.node id).SameShape S (graph.node other))
    (hparts : ∀ part part', graph.Follows id part → graph.Follows other part' → S part part' →
      ∀ usage, resolver.resolveWithin graph [id] part usage
        = resolver.resolveWithin graph [other] part' usage) :
    valueType resolver graph [] id usage = valueType resolver graph [] other usage := by
  have hactual : graph.actual id = id := Graph.follow_none [] hshape.left
  have hactual' : graph.actual other = other := Graph.follow_none [] hshape.right
  unfold valueType Graph.actualNode
  rw [hactual, hactual']
  have hadditional := hshape.additional
  cases hfirst : (graph.node id).additional with
  | shape part =>
    rw [hfirst] at hadditional
    cases hsecond : (graph.node other).additional with
    | shape part' =>
      rw [hsecond] at hadditional
      cases hadditional with
      | shape hrelated =>
        exact hparts part part' (Or.inr (Or.inr hfirst)) (Or.inr (Or.inr hsecond)) hrelated _
    | _ =>
      rw [hsecond] at hadditional
      cases hadditional
  | _ =>
    rw [hfirst] at hadditional
    generalize (graph.node other).additional = second at hadditional
    cases hadditional
    rfl

end

/-- By cases on how the first node is taken: the second one is taken in the same way. -/
theorem resolve_of_sameShape (language : Language) {S : NodeId → NodeId → Prop}
    (hshape : (graph.node id).SameShape S (graph.node other))
    (hid : (graph.node id).isTypeDefinition = false)
    (hother : (graph.node other).isTypeDefinition = false)
    (hparts : ∀ part part', graph.Follows id part → graph.Follows other part' → S part part' →
      ∀ usage, (ofLanguage language).resolveWithin graph [id] part usage
        = (ofLanguage language).resolveWithin graph [other] part' usage) (usage : Usage) :
    (ofLanguage language).resolveWithin graph [] id usage
      = (ofLanguage language).resolveWithin graph [] other usage := by
  have hnode : graph.actualNode id = graph.node id :=
    congrArg graph.node (Graph.follow_none [] hshape.left)
  have hnode' : graph.actualNode other = graph.node other :=
    congrArg graph.node (Graph.follow_none [] hshape.right)
  have hnull : admitsNull graph id usage = admitsNull graph other usage := by
    simp only [admitsNull, hnode, hnode', hshape.isNullable]
  have harrays : (graph.actualNode id).isArray = (graph.actualNode other).isArray := by
    rw [hnode, hnode', hshape.isArray]
  have hfiles : ((graph.actualNode id).isFile && !(graph.actualNode id).isArray)
      = ((graph.actualNode other).isFile && !(graph.actualNode other).isArray) := by
    rw [hnode, hnode', hshape.isFile, hshape.isArray]
  have hcontainers : (graph.actualNode id).isContainer = (graph.actualNode other).isContainer := by
    rw [hnode, hnode', hshape.isContainer]
  have hdefinition' : (graph.actualNode other).isTypeDefinition = false := hnode' ▸ hother
  cases branch graph [] id with
  | definition hdefinition =>
    rw [hnode, hid] at hdefinition
    cases hdefinition
  | file hdefinition hfile =>
    rw [resolveWithin_file hdefinition hfile,
      resolveWithin_file hdefinition' (hfiles ▸ hfile)]
  | recursive _ _ _ haround => cases haround
  | array hdefinition hcontainer haround harray =>
    rw [resolveWithin_array hdefinition hcontainer haround harray,
      resolveWithin_array hdefinition' (hcontainers ▸ hcontainer) List.not_mem_nil
        (harrays ▸ harray), hnull, itemType_of_sameShape hshape hparts]
  | map hdefinition hfile hcontainer haround harray =>
    rw [resolveWithin_map hdefinition hfile hcontainer haround harray,
      resolveWithin_map hdefinition' (hfiles ▸ hfile) (hcontainers ▸ hcontainer) List.not_mem_nil
        (harrays ▸ harray), hnull, valueType_of_sameShape hshape hparts]
  | base hdefinition hfile hcontainer =>
    rw [resolveWithin_base hdefinition hfile hcontainer,
      resolveWithin_base hdefinition' (hfiles ▸ hfile) (hcontainers ▸ hcontainer), hnull]
    simp only [ofLanguage, primitiveType, hnode, hnode', hshape.kinds, hshape.format,
      hshape.properties]

theorem not_typeDefinition_of_unnamed {node : Node} (h : node.typeName = .null) :
    node.isTypeDefinition = false := by
  simp [Node.isTypeDefinition, Node.isNamed, h]

/-- By induction on how the nodes are twins.  Around the parts stands the node itself, which they do
not lead back to because it is open. -/
theorem resolve_of_twins (language : Language) (hparents : graph.OneParent)
    (h : graph.Twins id other)
    (hid : (graph.node id).typeName = .null → graph.Open id)
    (hother : (graph.node other).typeName = .null → graph.Open other) (usage : Usage) :
    (ofLanguage language).resolveWithin graph [] id usage
      = (ofLanguage language).resolveWithin graph [] other usage := by
  induction h generalizing usage with
  | same => rfl
  | stand htarget htarget' hnullable hunnamed hunnamed' =>
    have hactual : graph.actual _ = graph.actual _ :=
      (Graph.actual_of_reference (hid hunnamed) htarget).trans
        (Graph.actual_of_reference (hother hunnamed') htarget').symm
    refine resolveWithin_actual hactual ?_
    rw [hnullable, Graph.actualNode, Graph.actualNode, hactual]
  | shape hparts hshape hunnamed hunnamed' ih =>
    have hopen := hid hunnamed
    have hopen' := hother hunnamed'
    refine resolve_of_sameShape language hshape (not_typeDefinition_of_unnamed hunnamed)
      (not_typeDefinition_of_unnamed hunnamed') ?_ usage
    intro part part' hpart hpart' hrelated usage
    rw [resolveWithin_child hopen hpart, resolveWithin_child hopen' hpart']
    exact ih part part' hrelated (hopen.unnamed hparents hpart) (hopen'.unnamed hparents hpart')
      usage

end Resolver

end ApiClients
