import ApiClients.Schema.Walk
import Mathlib.Logic.Relation

/-!
# What a schema graph holds within reach

Two things are said here of any finite graph, cyclic or not.  Following references to the node that
carries a shape is done after one round: that node stands for itself (`actual_actual`), also where
references go round in a circle.  And the walk from some roots meets every node within reach of them
(`mem_visit_of_within`), so the node that carries the shape of a node met is met too.
-/

namespace ApiClients

theorem Node.mem_children {node : Node} {child : NodeId} :
    child ∈ node.children ↔ node.reference = some child ∨ node.items = some child
      ∨ node.additional = .shape child ∨ ∃ name, (name, child) ∈ node.properties := by
  cases hadditional : node.additional with
  | shape other => simp [Node.children, hadditional, eq_comm]
  | _ => simp [Node.children, hadditional]

namespace Graph

variable {graph : Graph}

theorem modify_same (graph : Graph) (id : NodeId) : graph.modify id (fun node => node) = graph := by
  have hnodes : graph.nodes.modify id (fun node => node) = graph.nodes := by
    apply Array.ext
    · simp
    · intro i _ _
      simp [Array.getElem_modify]
  unfold modify
  rw [hnodes]

theorem unseen_of_subset (graph : Graph) {seen more : List NodeId} (h : seen ⊆ more) :
    graph.unseen more ≤ graph.unseen seen := by
  refine List.countP_mono_left fun id _ hid => ?_
  simp only [decide_eq_true_eq] at hid ⊢
  exact fun hseen => hid (h hseen)

/-! ### References -/

theorem follow_none {id : NodeId} (seen : List NodeId) (h : (graph.node id).reference = none) :
    graph.follow seen id = id := by
  rw [follow]
  split
  · rfl
  · rename_i next hnext
    rw [h] at hnext
    cases hnext

theorem follow_seen {seen : List NodeId} {id : NodeId} (h : id ∈ seen) :
    graph.follow seen id = id := by
  rw [follow]
  split
  · rfl
  · rw [dif_pos h]

theorem follow_next {seen : List NodeId} {id next : NodeId}
    (hnext : (graph.node id).reference = some next) (hfresh : id ∉ seen) :
    graph.follow seen id = graph.follow (id :: seen) next := by
  rw [follow]
  split
  · rename_i hnone
    rw [hnext] at hnone
    cases hnone
  · rename_i next' hnext'
    rw [dif_neg hfresh]
    rw [hnext, Option.some.injEq] at hnext'
    rw [hnext']

/-- Induction along a chain of references: it ends, comes back to a node seen before, or goes on. -/
@[elab_as_elim]
theorem follow_induction (graph : Graph) {motive : List NodeId → NodeId → Prop}
    (last : ∀ seen id, (graph.node id).reference = none → motive seen id)
    (back : ∀ seen id, id ∈ seen → motive seen id)
    (onward : ∀ seen id next, (graph.node id).reference = some next → id ∉ seen →
      motive (id :: seen) next → motive seen id) (seen : List NodeId) (id : NodeId) :
    motive seen id := by
  induction seen, id using Graph.follow.induct graph with
  | case1 seen id hnone => exact last seen id hnone
  | case2 seen id next _ hseen => exact back seen id hseen
  | case3 seen id next hnext hfresh ih => exact onward seen id next hnext hfresh ih

/-- Nodes seen before that the chain of references does not end in make no difference to it. -/
theorem follow_of_append (seen more : List NodeId) (id : NodeId)
    (h : graph.follow (seen ++ more) id ∉ more) :
    graph.follow seen id = graph.follow (seen ++ more) id := by
  induction seen, id using follow_induction graph with
  | last seen id hnone => rw [follow_none _ hnone, follow_none _ hnone]
  | back seen id hseen =>
    rw [follow_seen hseen, follow_seen (List.mem_append_left more hseen)]
  | onward seen id next hnext hfresh ih =>
    by_cases hmore : id ∈ more
    · rw [follow_seen (List.mem_append_right seen hmore)] at h
      exact absurd hmore h
    · have hboth : id ∉ seen ++ more := by simp [hfresh, hmore]
      rw [follow_next hnext hboth] at h
      rw [follow_next hnext hfresh, follow_next hnext hboth]
      exact ih h

/-- How a chain of references ends: in a node without a reference, in a node seen before the chain
was begun, or in a node of the chain itself, from which the chain comes back to it. -/
theorem follow_end (graph : Graph) (seen : List NodeId) (id : NodeId) :
    (graph.node (graph.follow seen id)).reference = none
      ∨ graph.follow seen id ∈ seen
      ∨ ∃ before, graph.follow seen id ∉ before
          ∧ graph.follow before (graph.follow seen id) = graph.follow seen id := by
  induction seen, id using follow_induction graph with
  | last seen id hnone =>
    rw [follow_none _ hnone]
    exact Or.inl hnone
  | back seen id hseen =>
    rw [follow_seen hseen]
    exact Or.inr (Or.inl hseen)
  | onward seen id next hnext hfresh ih =>
    rw [← follow_next hnext hfresh] at ih
    rcases ih with hnone | hmem | hloop
    · exact Or.inl hnone
    · rcases List.mem_cons.mp hmem with hid | hmem
      · -- the chain has come back to the node where it is now
        refine Or.inr (Or.inr ⟨seen, ?_, congrArg (graph.follow seen) hid⟩)
        rw [hid]
        exact hfresh
      · exact Or.inr (Or.inl hmem)
    · exact Or.inr (Or.inr hloop)

/-- The node that carries a shape stands for itself. -/
theorem actual_actual (graph : Graph) (id : NodeId) :
    graph.actual (graph.actual id) = graph.actual id := by
  unfold actual
  rcases follow_end graph [] id with hnone | hmem | ⟨before, hfresh, hloop⟩
  · exact follow_none [] hnone
  · cases hmem
  · have hsame := follow_of_append [] before (graph.follow [] id) (by
      rw [List.nil_append, hloop]
      exact hfresh)
    rw [hsame, List.nil_append, hloop]

/-- What a set of nodes that references do not lead out of has of a chain of references. -/
theorem follow_mem {C : NodeId → Prop}
    (hC : ∀ id next, C id → (graph.node id).reference = some next → C next)
    (seen : List NodeId) {id : NodeId} (hid : C id) : C (graph.follow seen id) := by
  induction seen, id using follow_induction graph with
  | last seen id hnone =>
    rw [follow_none _ hnone]
    exact hid
  | back seen id hseen =>
    rw [follow_seen hseen]
    exact hid
  | onward seen id next hnext hfresh ih =>
    rw [follow_next hnext hfresh]
    exact ih (hC id next hid hnext)

/-- A graph that has the references out of such a set, its nodes renamed one by one, has the chains
of the set too. -/
theorem follow_map {other : Graph} {f : NodeId → NodeId} {C : NodeId → Prop}
    (hf : Function.Injective f)
    (hC : ∀ id next, C id → (graph.node id).reference = some next → C next)
    (hother : ∀ id, C id → (other.node (f id)).reference = (graph.node id).reference.map f)
    (seen : List NodeId) {id : NodeId} (hid : C id) :
    other.follow (seen.map f) (f id) = f (graph.follow seen id) := by
  induction seen, id using follow_induction graph with
  | last seen id hnone =>
    have hnone' : (other.node (f id)).reference = none := by rw [hother id hid, hnone]; rfl
    rw [follow_none _ hnone, follow_none _ hnone']
  | back seen id hseen => rw [follow_seen hseen, follow_seen (List.mem_map_of_mem hseen)]
  | onward seen id next hnext hfresh ih =>
    have hnext' : (other.node (f id)).reference = some (f next) := by
      rw [hother id hid, hnext]
      rfl
    have hfresh' : f id ∉ seen.map f := by
      intro hmem
      obtain ⟨old, hold, hsame⟩ := List.mem_map.mp hmem
      rw [hf hsame] at hold
      exact hfresh hold
    rw [follow_next hnext hfresh, follow_next hnext' hfresh']
    exact ih (hC id next hid hnext)

/-- Two graphs with the same references out of such a set have the same chains in it. -/
theorem follow_congr {other : Graph} {C : NodeId → Prop}
    (hC : ∀ id next, C id → (graph.node id).reference = some next → C next)
    (hother : ∀ id, C id → (other.node id).reference = (graph.node id).reference)
    (seen : List NodeId) {id : NodeId} (hid : C id) :
    other.follow seen id = graph.follow seen id := by
  have hrenamed : ∀ id, C id →
      (other.node id).reference = (graph.node id).reference.map fun next => next := by
    intro id hid
    rw [Option.map_id']
    exact hother id hid
  have hsame := follow_map Function.injective_id hC hrenamed seen hid
  rwa [List.map_id] at hsame

/-- One node refers to another as what it stands for. -/
def StandsFor (graph : Graph) (id next : NodeId) : Prop := (graph.node id).reference = some next

/-- A chain of references that ends does not go round in a circle. -/
theorem not_circle_of_end {id last : NodeId} (h : Relation.ReflTransGen graph.StandsFor id last)
    (hlast : (graph.node last).reference = none) :
    ¬ Relation.TransGen graph.StandsFor id id := by
  induction h using Relation.ReflTransGen.head_induction_on with
  | refl =>
    intro hcircle
    obtain ⟨next, hnext, -⟩ := Relation.TransGen.head'_iff.mp hcircle
    simp [StandsFor, hlast] at hnext
  | head hfirst _ ih =>
    intro hcircle
    obtain ⟨next, hnext, hback⟩ := Relation.TransGen.head'_iff.mp hcircle
    have hsame : next = _ := Option.some.inj (hnext.symm.trans hfirst)
    rw [hsame] at hback
    exact ih (Relation.TransGen.tail' hback hfirst)

/-- The node that carries a shape is the one in which the chain of references ends. -/
theorem actual_of_end {id last : NodeId} (h : Relation.ReflTransGen graph.StandsFor id last)
    (hlast : (graph.node last).reference = none) : graph.actual id = last := by
  suffices hfollow : ∀ seen : List NodeId,
      (∀ old ∈ seen, Relation.TransGen graph.StandsFor old id) →
        graph.follow seen id = last from hfollow [] (by simp)
  induction h using Relation.ReflTransGen.head_induction_on with
  | refl => exact fun seen _ => follow_none seen hlast
  | head hfirst hrest ih =>
    intro seen hseen
    have hfresh := fun hmem => not_circle_of_end (.head hfirst hrest) hlast (hseen _ hmem)
    rw [follow_next hfirst hfresh]
    apply ih
    intro old hold
    rcases List.mem_cons.mp hold with rfl | hold
    · exact .single hfirst
    · exact (hseen old hold).tail hfirst

theorem actualNode_actual (graph : Graph) (id : NodeId) :
    graph.actualNode (graph.actual id) = graph.actualNode id := by
  unfold actualNode
  rw [actual_actual]

/-! ### Reach -/

/-- One node refers to another, in whatever place. -/
def RefersTo (graph : Graph) (id child : NodeId) : Prop := child ∈ (graph.node id).children

/-- A node is reached from some roots by going from nodes to the nodes that they refer to. -/
def Within (graph : Graph) (roots : List NodeId) (id : NodeId) : Prop :=
  ∃ root ∈ roots, Relation.ReflTransGen graph.RefersTo root id

section

variable {roots : List NodeId} {id child : NodeId}

theorem within_root (h : id ∈ roots) : graph.Within roots id := ⟨id, h, .refl⟩

theorem Within.step (h : graph.Within roots id) (hchild : graph.RefersTo id child) :
    graph.Within roots child := by
  obtain ⟨root, hroot, hpath⟩ := h
  exact ⟨root, hroot, hpath.tail hchild⟩

theorem refersTo_reference (h : (graph.node id).reference = some child) :
    graph.RefersTo id child :=
  Node.mem_children.mpr (Or.inl h)

theorem refersTo_items (h : (graph.node id).items = some child) : graph.RefersTo id child :=
  Node.mem_children.mpr (Or.inr (Or.inl h))

theorem refersTo_additional (h : (graph.node id).additional = .shape child) :
    graph.RefersTo id child :=
  Node.mem_children.mpr (Or.inr (Or.inr (Or.inl h)))

theorem Within.follow (seen : List NodeId) (h : graph.Within roots id) :
    graph.Within roots (graph.follow seen id) := by
  induction seen, id using follow_induction graph with
  | last seen id hnone =>
    rw [follow_none _ hnone]
    exact h
  | back seen id hseen =>
    rw [follow_seen hseen]
    exact h
  | onward seen id next hnext hfresh ih =>
    rw [follow_next hnext hfresh]
    exact ih (h.step (refersTo_reference hnext))

theorem Within.actual (h : graph.Within roots id) : graph.Within roots (graph.actual id) :=
  h.follow []

end

/-! ### The walk -/

@[simp] theorem visit_nil (graph : Graph) (seen : List NodeId) : graph.visit seen [] = [] := by
  rw [visit]

theorem typeDefinitions_nil (graph : Graph) : graph.typeDefinitions [] = [] := by
  rw [typeDefinitions, visit_nil, List.filter_nil]

theorem visit_seen {seen waiting : List NodeId} {id : NodeId} (h : id ∈ seen) :
    graph.visit seen (id :: waiting) = graph.visit seen waiting := by
  rw [visit, dif_pos h]

theorem visit_fresh {seen waiting : List NodeId} {id : NodeId} (h : id ∉ seen) :
    graph.visit seen (id :: waiting) =
      id :: graph.visit (id :: seen) ((graph.node id).children ++ waiting) := by
  rw [visit, dif_neg h]

/-- Induction along the walk: nothing waits, or the first node that waits is passed over or met. -/
@[elab_as_elim]
theorem visit_induction (graph : Graph) {motive : List NodeId → List NodeId → Prop}
    (done : ∀ seen, motive seen [])
    (passed : ∀ seen id waiting, id ∈ seen → motive seen waiting → motive seen (id :: waiting))
    (met : ∀ seen id waiting, id ∉ seen →
      motive (id :: seen) ((graph.node id).children ++ waiting) → motive seen (id :: waiting))
    (seen waiting : List NodeId) : motive seen waiting := by
  induction seen, waiting using Graph.visit.induct graph with
  | case1 seen => exact done seen
  | case2 seen id waiting hseen ih => exact passed seen id waiting hseen ih
  | case3 seen id waiting hfresh ih => exact met seen id waiting hfresh ih

/-- A node that is met once the first one has been is met from the first one on. -/
theorem mem_visit_of_fresh {seen waiting : List NodeId} {first id : NodeId} (hfresh : first ∉ seen)
    (h : id ∈ first :: seen
      ∨ id ∈ graph.visit (first :: seen) ((graph.node first).children ++ waiting)) :
    id ∈ seen ∨ id ∈ graph.visit seen (first :: waiting) := by
  rw [visit_fresh hfresh]
  rcases h with hseen | hvisit
  · rcases List.mem_cons.mp hseen with rfl | hseen
    · exact Or.inr List.mem_cons_self
    · exact Or.inl hseen
  · exact Or.inr (List.mem_cons_of_mem _ hvisit)

/-- What waits is met in the end, unless it has been met already. -/
theorem mem_visit_of_waiting (graph : Graph) (seen waiting : List NodeId) :
    ∀ id ∈ waiting, id ∈ seen ∨ id ∈ graph.visit seen waiting := by
  induction seen, waiting using visit_induction graph with
  | done seen => intro id hid; cases hid
  | passed seen first waiting hseen ih =>
    intro id hid
    rw [visit_seen hseen]
    rcases List.mem_cons.mp hid with rfl | hid
    · exact Or.inl hseen
    · exact ih id hid
  | met seen first waiting hfresh ih =>
    intro id hid
    rcases List.mem_cons.mp hid with rfl | hid
    · exact mem_visit_of_fresh hfresh (Or.inl List.mem_cons_self)
    · exact mem_visit_of_fresh hfresh (ih id (List.mem_append_right _ hid))

/-- The walk leaves no node out that a node met refers to. -/
theorem mem_visit_of_refersTo (graph : Graph) (seen waiting : List NodeId) :
    ∀ id ∈ graph.visit seen waiting, ∀ child, graph.RefersTo id child →
      child ∈ seen ∨ child ∈ graph.visit seen waiting := by
  induction seen, waiting using visit_induction graph with
  | done seen =>
    intro id hid
    simp at hid
  | passed seen first waiting hseen ih =>
    intro id hid
    rw [visit_seen hseen] at hid ⊢
    exact ih id hid
  | met seen first waiting hfresh ih =>
    intro id hid child hchild
    rw [visit_fresh hfresh] at hid
    apply mem_visit_of_fresh hfresh
    rcases List.mem_cons.mp hid with rfl | hid
    · exact mem_visit_of_waiting graph _ _ child (List.mem_append_left _ hchild)
    · exact ih id hid child hchild

/-- The walk from some roots meets every node within reach of them. -/
theorem mem_visit_of_within {roots : List NodeId} {id : NodeId} (h : graph.Within roots id) :
    id ∈ graph.visit [] roots := by
  obtain ⟨root, hroot, hpath⟩ := h
  induction hpath with
  | refl =>
    rcases mem_visit_of_waiting graph [] roots root hroot with hnil | hvisit
    · cases hnil
    · exact hvisit
  | tail _ hchild ih =>
    rcases mem_visit_of_refersTo graph [] roots _ ih _ hchild with hnil | hvisit
    · cases hnil
    · exact hvisit

/-- The walk meets nothing else. -/
theorem within_of_mem_visit (graph : Graph) (seen waiting : List NodeId) :
    ∀ id ∈ graph.visit seen waiting, graph.Within waiting id := by
  induction seen, waiting using visit_induction graph with
  | done seen =>
    intro id hid
    simp at hid
  | passed seen first waiting hseen ih =>
    intro id hid
    rw [visit_seen hseen] at hid
    obtain ⟨root, hroot, hpath⟩ := ih id hid
    exact ⟨root, List.mem_cons_of_mem first hroot, hpath⟩
  | met seen first waiting hfresh ih =>
    intro id hid
    rw [visit_fresh hfresh] at hid
    rcases List.mem_cons.mp hid with rfl | hid
    · exact within_root List.mem_cons_self
    · obtain ⟨root, hroot, hpath⟩ := ih id hid
      rcases List.mem_append.mp hroot with hchild | hroot
      · exact ⟨first, List.mem_cons_self, .head hchild hpath⟩
      · exact ⟨root, List.mem_cons_of_mem first hroot, hpath⟩

/-- Every type definition within reach is listed. -/
theorem mem_typeDefinitions {roots : List NodeId} {id : NodeId} (h : graph.Within roots id)
    (hdefinition : (graph.node id).isTypeDefinition = true) :
    id ∈ graph.typeDefinitions roots :=
  List.mem_filter.mpr ⟨mem_visit_of_within h, hdefinition⟩

end Graph

end ApiClients
