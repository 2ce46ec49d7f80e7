import ApiClients.Proofs.Reading
import ApiClients.Proofs.TwinNodes

/-!
# Graphs whose nodes have one parent

While a graph is built, a node without a name is linked to once, when it is new
(`Graph.Loose`).  Graphs that grow in this way stay `Graph.Grounded`: whether a node is put into
them (`Graph.Grounded.push`) or is linked to loose nodes (`Graph.Grounded.modify`), each node
without a name is followed from one node only.
-/

namespace ApiClients

theorem Node.not_links {node : Node} {next : NodeId} (hreference : node.reference = none)
    (hitems : node.items = none) (hadditional : node.additional = .unsaid) : ¬ node.Links next := by
  simp [Links, hreference, hitems, hadditional]

namespace Graph

/-- No node leads to a node where its type is spelled out. -/
def Unfollowed (graph : Graph) (id : NodeId) : Prop := ∀ last, ¬ graph.Follows last id

/-- A node that may be linked to: it belongs to a definition, or it is new and nothing leads to
it. -/
structure Loose (graph : Graph) (low : Nat) (id : NodeId) : Prop where
  lt : id < graph.size
  new : (graph.node id).typeName = .null → low ≤ id ∧ graph.Unfollowed id

/-- Nodes lead to nodes of the graph, those without a name have one parent, and the node of a
definition that stands for another node does not admit null itself. -/
structure Grounded (graph : Graph) : Prop where
  closed : ∀ {id next}, graph.Follows id next → next < graph.size
  parents : graph.OneParent
  standing : ∀ {id}, (graph.node id).typeName ≠ .null → (graph.node id).reference ≠ none →
    (graph.node id).nullable = false

section

variable {graph : Graph} {node : Node} {f : Node → Node} {id other next : NodeId} {low high : Nat}

/-- A node that nothing leads to is not come back to. -/
theorem Unfollowed.open (h : graph.Unfollowed id) : graph.Open id := by
  intro hcircle
  obtain ⟨last, -, hlast⟩ := Relation.TransGen.tail'_iff.mp hcircle
  exact h last hlast

theorem unfollowed_of_children (h : ∀ node ∈ graph.nodes, id ∉ node.children) :
    graph.Unfollowed id := by
  intro last hlast
  have hchild : id ∈ (graph.node last).children := by
    rcases hlast with href | hitems | hadditional
    · exact refersTo_reference href
    · exact refersTo_items hitems
    · exact refersTo_additional hadditional
  by_cases hlt : last < graph.nodes.size
  · have hmem : graph.node last ∈ graph.nodes := by
      simp [node, hlt]
    exact h _ hmem hchild
  · rw [graph.node_eq_default (by simpa [size] using hlt)] at hchild
    cases hchild

theorem not_follows_of_le (h : graph.size ≤ id) : ¬ graph.Follows id next := by
  unfold Follows
  rw [graph.node_eq_default h]
  exact Node.not_links rfl rfl rfl

theorem Follows.push (h : (graph.push node).Follows id next) :
    graph.Follows id next ∨ id = graph.size ∧ node.Links next := by
  unfold Follows at h
  rcases Nat.lt_trichotomy id graph.size with hlt | rfl | hgt
  · rw [graph.node_push_of_lt node hlt] at h
    exact Or.inl h
  · rw [graph.node_push_size node] at h
    exact Or.inr ⟨rfl, h⟩
  · exact absurd h (not_follows_of_le (by rw [size_push]; exact hgt))

theorem Follows.modify (h : (graph.modify other f).Follows id next) :
    graph.Follows id next ∧ id ≠ other
      ∨ id = other ∧ other < graph.size ∧ (f (graph.node other)).Links next := by
  by_cases hsame : id = other
  · subst hsame
    by_cases hlt : id < graph.size
    · unfold Follows at h
      rw [graph.node_modify_self f hlt] at h
      exact Or.inr ⟨rfl, hlt, h⟩
    · exact absurd h (not_follows_of_le (by simpa using hlt))
  · unfold Follows at h
    rw [graph.node_modify_of_ne f hsame] at h
    exact Or.inl ⟨h, hsame⟩

theorem Loose.mono (h : graph.Loose high id) (hle : low ≤ high) : graph.Loose low id :=
  ⟨h.lt, fun hname => ⟨Nat.le_trans hle (h.new hname).1, (h.new hname).2⟩⟩

/-- What holds of the node that is put into a graph, and of the nodes that were there, holds of all
nodes with a name. -/
theorem named_push {N : Node → Prop}
    (h : ∀ id, (graph.node id).typeName ≠ .null → N (graph.node id))
    (hnode : node.typeName ≠ .null → N node)
    (hname : ((graph.push node).node id).typeName ≠ .null) : N ((graph.push node).node id) := by
  rcases Nat.lt_trichotomy id graph.size with hlt | rfl | hgt
  · rw [graph.node_push_of_lt node hlt] at hname ⊢
    exact h id hname
  · rw [graph.node_push_size node] at hname ⊢
    exact hnode hname
  · rw [node_eq_default _ (by rw [size_push]; exact hgt)] at hname
    exact absurd rfl hname

namespace Grounded

/-- A node that leads to loose nodes only is put into the graph. -/
theorem push (h : graph.Grounded) (hlinks : ∀ next, node.Links next → graph.Loose low next)
    (hstanding : node.typeName ≠ .null → node.reference ≠ none → node.nullable = false) :
    (graph.push node).Grounded := by
  refine ⟨?closed, ?parents, fun {id} hname => named_push
    (N := fun node => node.reference ≠ none → node.nullable = false) (fun _ => h.standing)
    hstanding hname⟩
  case closed =>
    intro id next hnext
    rw [size_push]
    rcases hnext.push with hold | ⟨-, hnew⟩
    · exact Nat.lt_succ_of_lt (h.closed hold)
    · exact Nat.lt_succ_of_lt (hlinks next hnew).lt
  case parents =>
    intro id other child hid hother hchild
    have hunnamed : ∀ hlt : child < graph.size, (graph.node child).typeName = .null := by
      intro hlt
      rwa [graph.node_push_of_lt node hlt] at hchild
    rcases hid.push with hold | ⟨hsize, hnew⟩ <;> rcases hother.push with hold' | ⟨hsize', hnew'⟩
    · exact h.parents id other child hold hold' (hunnamed (h.closed hold))
    · have hloose := hlinks child hnew'
      exact absurd hold ((hloose.new (hunnamed hloose.lt)).2 id)
    · have hloose := hlinks child hnew
      exact absurd hold' ((hloose.new (hunnamed hloose.lt)).2 other)
    · rw [hsize, hsize']

/-- A node is linked to loose nodes. -/
theorem modify (h : graph.Grounded) (hf : ∀ node, (f node).typeName = node.typeName)
    (hlinks : ∀ next, (f (graph.node id)).Links next →
      (graph.node id).Links next ∨ graph.Loose low next)
    (hstanding : (graph.node id).typeName ≠ .null → (f (graph.node id)).reference ≠ none →
      (f (graph.node id)).nullable = false) :
    (graph.modify id f).Grounded := by
  refine ⟨?closed, ?parents, ?standing⟩
  case closed =>
    intro last next hnext
    rw [size_modify]
    rcases hnext.modify with ⟨hold, -⟩ | ⟨-, -, hnew⟩
    · exact h.closed hold
    · exact (hlinks next hnew).elim (fun hold => h.closed hold) fun hloose => hloose.lt
  case parents =>
    intro last other child hlast hother hchild
    rw [Reading.typeName_modify graph hf] at hchild
    -- a link that is new leads to a node that nothing else leads to
    have hnew : ∀ last, (f (graph.node id)).Links child → graph.Follows last child → last = id := by
      intro last hlinked hfollows
      rcases hlinks child hlinked with hold | hloose
      · exact h.parents last id child hfollows hold hchild
      · exact absurd hfollows ((hloose.new hchild).2 last)
    rcases hlast.modify with ⟨hold, hne⟩ | ⟨rfl, -, hlinked⟩ <;>
      rcases hother.modify with ⟨hold', hne'⟩ | ⟨rfl, -, hlinked'⟩
    · exact h.parents last other child hold hold' hchild
    · exact absurd (hnew last hlinked' hold) hne
    · exact absurd (hnew other hlinked hold') hne'
    · rfl
  case standing =>
    intro last hname href
    by_cases hsame : last = id
    · subst hsame
      by_cases hlt : last < graph.size
      · rw [graph.node_modify_self f hlt] at hname href ⊢
        exact hstanding (hf _ ▸ hname) href
      · rw [node_eq_default _ (by simpa using hlt)] at hname
        exact absurd rfl hname
    · rw [graph.node_modify_of_ne f hsame] at hname href ⊢
      exact h.standing hname href

end Grounded

end

end Graph

end ApiClients
