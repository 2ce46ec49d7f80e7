import ApiClients.Schema.Graph

/-!
# Walking through a schema graph

`Graph.visit` lists the nodes that are reached from some roots, each once, a node before the nodes
that it refers to and those before the nodes that wait.  The nodes that wait are a list of which
the head is next.
-/

namespace ApiClients.Graph

/-- An address outside the graph leads nowhere. -/
theorem children_eq_nil (graph : Graph) {id : NodeId} (h : graph.size ≤ id) :
    (graph.node id).children = [] := by
  rw [graph.node_eq_default h]; rfl

/-- The nodes in the order in which they are reached, those already seen left out. -/
def visit (graph : Graph) (seen : List NodeId) : List NodeId → List NodeId
  | [] => []
  | id :: waiting =>
    if _fresh : id ∈ seen then graph.visit seen waiting
    else id :: graph.visit (id :: seen) ((graph.node id).children ++ waiting)
termination_by waiting => (graph.unseen seen, waiting.length)
decreasing_by
  · exact Prod.Lex.right _ (Nat.lt_succ_self _)
  · by_cases h : id < graph.size
    · exact Prod.Lex.left _ _ (graph.unseen_cons_lt _fresh h)
    · rw [graph.children_eq_nil (Nat.le_of_not_lt h)]
      have := graph.unseen_cons_le seen id
      rcases Nat.lt_or_eq_of_le this with lt | e
      · exact Prod.Lex.left _ _ lt
      · rw [e]
        exact Prod.Lex.right _ (Nat.lt_succ_self _)

/-- The type definitions that are reached from some roots (`iter_named_schemas`), each once and
before the ones that it refers to. -/
def typeDefinitions (graph : Graph) (roots : List NodeId) : List NodeId :=
  (graph.visit [] roots).filter fun id => (graph.node id).isTypeDefinition

end ApiClients.Graph
