import ApiClients.Proofs.Reachability

/-!
# The walk is a depth-first search

The walk through a schema graph keeps a list of nodes that wait.  A node may stand in it several
times, and whether it has been met is asked only when its turn has come.  `Graph.search` is the
recursive depth-first search: a node, then all that its children lead to, then the rest.

A round of the walk takes up the first of the nodes that wait (`Graph.Round`).  What has been met,
followed by what the search would meet from there on, is the same after every round as before it
(`Round.keeps`).  There is no walk without an end, and when nothing waits any more the nodes have
been met in the order of the search (`visit_eq_search`).
-/

namespace ApiClients.Graph

variable {graph : Graph}

/-! ### The recursive search -/

/-- One node refers to another as what it stands for, as its items, as the shape of its further
properties or as a property. -/
inductive Edge (graph : Graph) (id child : NodeId) : Prop
  | reference (h : (graph.node id).reference = some child)
  | items (h : (graph.node id).items = some child)
  | additional (h : (graph.node id).additional = .shape child)
  | property (name : String) (h : (name, child) ∈ (graph.node id).properties)

theorem edge_iff_refersTo {id child : NodeId} : graph.Edge id child ↔ graph.RefersTo id child := by
  rw [RefersTo, Node.mem_children]
  constructor
  · rintro (h | h | h | ⟨name, h⟩)
    · exact .inl h
    · exact .inr (.inl h)
    · exact .inr (.inr (.inl h))
    · exact .inr (.inr (.inr ⟨name, h⟩))
  · rintro (h | h | h | ⟨name, h⟩)
    · exact .reference h
    · exact .items h
    · exact .additional h
    · exact .property name h

theorem within_iff_edges {roots : List NodeId} {id : NodeId} :
    graph.Within roots id ↔ ∃ root ∈ roots, Relation.ReflTransGen graph.Edge root id := by
  have hsame : graph.RefersTo = graph.Edge := by
    funext id child
    exact propext edge_iff_refersTo.symm
  rw [Within, hsame]

/-- The nodes that a depth-first search meets from some nodes on, in their order: a node, then what
is met from the one it stands for, from its items, from the shape of its further properties and from
its properties as they are declared.  `met` are the nodes met before, the last one first. -/
def search (graph : Graph) (met : List NodeId) : List NodeId → List NodeId
  | [] => []
  | id :: rest =>
    if _fresh : id ∈ met then graph.search met rest
    else
      let node := graph.node id
      let below := graph.search (id :: met) (node.reference.toList ++ node.items.toList
        ++ (match node.additional with | .shape child => [child] | _ => [])
        ++ node.properties.map (·.2))
      id :: below ++ graph.search (below.reverse ++ id :: met) rest
termination_by ids => (graph.unseen met, ids.length)
decreasing_by
  · exact Prod.Lex.right _ (Nat.lt_succ_self _)
  · change Prod.Lex _ _ (graph.unseen (id :: met), (graph.node id).children.length) _
    by_cases h : id < graph.size
    · exact Prod.Lex.left _ _ (graph.unseen_cons_lt _fresh h)
    · rw [graph.children_eq_nil (Nat.le_of_not_lt h)]
      rcases Nat.lt_or_eq_of_le (graph.unseen_cons_le met id) with hlt | heq
      · exact Prod.Lex.left _ _ hlt
      · rw [heq]
        exact Prod.Lex.right _ (Nat.succ_pos _)
  · have hle : graph.unseen (below.reverse ++ id :: met) ≤ graph.unseen met :=
      graph.unseen_of_subset fun _ h => List.mem_append_right _ (List.mem_cons_of_mem id h)
    rcases Nat.lt_or_eq_of_le hle with hlt | heq
    · exact Prod.Lex.left _ _ hlt
    · rw [heq]
      exact Prod.Lex.right _ (Nat.lt_succ_self _)

@[simp] theorem search_nil (graph : Graph) (met : List NodeId) : graph.search met [] = [] := by
  rw [search]

theorem search_met {met rest : List NodeId} {id : NodeId} (h : id ∈ met) :
    graph.search met (id :: rest) = graph.search met rest := by
  rw [search, dif_pos h]

theorem search_fresh {met rest : List NodeId} {id : NodeId} (h : id ∉ met) :
    graph.search met (id :: rest) =
      id :: graph.search (id :: met) (graph.node id).children
        ++ graph.search
          ((graph.search (id :: met) (graph.node id).children).reverse ++ id :: met) rest := by
  rw [search, dif_neg h]
  rfl

/-- Of two lists of nodes the second one is searched when the first is done. -/
theorem search_append (met first later : List NodeId) :
    graph.search met (first ++ later) =
      graph.search met first
        ++ graph.search ((graph.search met first).reverse ++ met) later := by
  induction met, first using Graph.search.induct graph with
  | case1 met => simp
  | case2 met id rest hmet ih =>
    rw [List.cons_append, search_met hmet, search_met hmet]
    exact ih
  | case3 met id rest hfresh node below _ _ ih =>
    have hbelow : below = graph.search (id :: met) (graph.node id).children := rfl
    rw [hbelow] at ih
    rw [List.cons_append, search_fresh hfresh, search_fresh hfresh, ih]
    simp

/-! ### Rounds of the walk -/

/-- Where the walk stands between two rounds: the nodes met, the last one first, and the nodes that
wait, the next one first. -/
structure Walk where
  met : List NodeId
  waiting : List NodeId

/-- A round: a node that has been met is passed over, any other is met and what it refers to waits
in front of the rest. -/
inductive Round (graph : Graph) : Walk → Walk → Prop
  | passed {met waiting : List NodeId} {id : NodeId} (h : id ∈ met) :
      Round graph ⟨met, id :: waiting⟩ ⟨met, waiting⟩
  | met {met waiting : List NodeId} {id : NodeId} (h : id ∉ met) :
      Round graph ⟨met, id :: waiting⟩ ⟨id :: met, (graph.node id).children ++ waiting⟩

/-- What the walk has met and the search meets from there on. -/
def Walk.order (graph : Graph) (walk : Walk) : List NodeId :=
  walk.met.reverse ++ graph.search walk.met walk.waiting

theorem Round.keeps {walk next : Walk} (h : graph.Round walk next) :
    next.order graph = walk.order graph := by
  cases h with
  | passed h => simp [Walk.order, search_met h]
  | met h => simp [Walk.order, search_fresh h, search_append]

theorem order_of_rounds {walk last : Walk} (h : Relation.ReflTransGen graph.Round walk last) :
    last.order graph = walk.order graph := by
  induction h with
  | refl => rfl
  | tail _ hround ih => rw [hround.keeps, ih]

/-- The rounds of the walk, up to the one after which nothing waits. -/
theorem rounds_visit (graph : Graph) (met waiting : List NodeId) :
    Relation.ReflTransGen graph.Round ⟨met, waiting⟩
      ⟨(graph.visit met waiting).reverse ++ met, []⟩ := by
  induction met, waiting using visit_induction graph with
  | done met =>
    rw [visit_nil]
    exact .refl
  | passed met id waiting hmet ih =>
    rw [visit_seen hmet]
    exact .head (.passed hmet) ih
  | met met id waiting hfresh ih =>
    rw [visit_fresh hfresh]
    simp only [List.reverse_cons, List.append_assoc, List.singleton_append]
    exact .head (.met hfresh) ih

/-- No walk goes on without end. -/
theorem round_wellFounded (graph : Graph) :
    WellFounded fun next walk => graph.Round walk next := by
  constructor
  rintro ⟨met, waiting⟩
  induction met, waiting using visit_induction graph with
  | done met =>
    constructor
    intro next hround
    cases hround
  | passed met id waiting hmet ih =>
    constructor
    intro next hround
    cases hround with
    | passed _ => exact ih
    | met h => exact absurd hmet h
  | met met id waiting hfresh ih =>
    constructor
    intro next hround
    cases hround with
    | passed h => exact absurd h hfresh
    | met _ => exact ih

theorem visit_eq_search (graph : Graph) (roots : List NodeId) :
    graph.visit [] roots = graph.search [] roots := by
  simpa [Walk.order] using order_of_rounds (graph.rounds_visit [] roots)

/-! ### What is met -/

/-- No node is met twice. -/
theorem nodup_visit (graph : Graph) (met waiting : List NodeId) :
    (graph.visit met waiting).Nodup ∧ ∀ id ∈ met, id ∉ graph.visit met waiting := by
  induction met, waiting using visit_induction graph with
  | done met => simp
  | passed met id waiting hmet ih =>
    rw [visit_seen hmet]
    exact ih
  | met met id waiting hfresh ih =>
    obtain ⟨hnodup, hnew⟩ := ih
    rw [visit_fresh hfresh]
    constructor
    · exact List.nodup_cons.mpr ⟨hnew id List.mem_cons_self, hnodup⟩
    · intro other hother hvisit
      rcases List.mem_cons.mp hvisit with rfl | hvisit
      · exact hfresh hother
      · exact hnew other (List.mem_cons_of_mem id hother) hvisit

theorem mem_typeDefinitions_iff {roots : List NodeId} {id : NodeId} :
    id ∈ graph.typeDefinitions roots ↔
      graph.Within roots id ∧ (graph.node id).isTypeDefinition = true := by
  constructor
  · intro h
    obtain ⟨hvisit, hdefinition⟩ := List.mem_filter.mp h
    exact ⟨within_of_mem_visit graph [] roots id hvisit, hdefinition⟩
  · rintro ⟨hwithin, hdefinition⟩
    exact mem_typeDefinitions hwithin hdefinition

/-- The type definitions are listed in the order of a depth-first search, as `iter_named_schemas`
yields them.  For any graph, cyclic or not, and any entries, of which some may be missing and some
may be alike: what a node adds to the nodes that wait is the node it stands for, its items, the shape
of its further properties and its properties as they are declared, in this order; the walk from the
entries has an end; when it is there, the nodes have been met in the order in which the recursive
search meets them; and what is listed are the type definitions among these.  So every type definition
that edges of the four kinds lead to is listed once, and nothing else is. -/
theorem typeDefinitions_depthFirst (graph : Graph) (entries : List (Option NodeId)) :
    let roots := entries.filterMap id
    (∀ id, (graph.node id).children =
        (graph.node id).reference.toList ++ (graph.node id).items.toList
          ++ (match (graph.node id).additional with | .shape child => [child] | _ => [])
          ++ (graph.node id).properties.map (·.2))
      ∧ (WellFounded fun next walk => graph.Round walk next)
      ∧ Relation.ReflTransGen graph.Round ⟨[], roots⟩ ⟨(graph.search [] roots).reverse, []⟩
      ∧ graph.typeDefinitions roots =
          (graph.search [] roots).filter (fun id => (graph.node id).isTypeDefinition)
      ∧ (graph.typeDefinitions roots).Nodup
      ∧ ∀ id, id ∈ graph.typeDefinitions roots ↔
          (∃ root ∈ roots, Relation.ReflTransGen graph.Edge root id)
            ∧ (graph.node id).isTypeDefinition = true := by
  intro roots
  have hsearch := graph.visit_eq_search roots
  have hrounds := graph.rounds_visit [] roots
  rw [hsearch, List.append_nil] at hrounds
  refine ⟨fun _ => rfl, graph.round_wellFounded, hrounds, ?_, ?_, fun id => ?_⟩
  · rw [typeDefinitions, hsearch]
  · exact (graph.nodup_visit [] roots).1.filter _
  · rw [mem_typeDefinitions_iff, within_iff_edges]

/-- A node with edges of all four kinds, to type definitions that lead back to it and to one
another. -/
def knot : Graph where
  nodes := #[
    { kinds := Kinds.ofList [.object], typeName := .str "Root", reference := some 1,
      items := some 2, additional := .shape 3, properties := [("second", 4), ("first", 5)] },
    { kinds := Kinds.ofList [.object], typeName := .str "Base", properties := [("last", 6)] },
    { kinds := Kinds.ofList [.object], typeName := .str "Item", properties := [("whole", 0)] },
    { kinds := Kinds.ofList [.object], typeName := .str "Value", properties := [("item", 2)] },
    { kinds := Kinds.ofList [.object], typeName := .str "Second", properties := [("name", 7)] },
    { kinds := Kinds.ofList [.object], typeName := .str "First", properties := [("next", 4)] },
    { kinds := Kinds.ofList [.object], typeName := .str "Last", properties := [("base", 1)] },
    { kinds := Kinds.ofList [.string] }]

theorem search_knot : knot.search [] [0, 0] = [0, 1, 6, 2, 3, 4, 7, 5] := by
  simp [search, knot, node]

/-- From two entries alike and a missing one, the edges of the four kinds are gone along in their
order and the circles are left. -/
theorem typeDefinitions_depthFirst_knot :
    knot.typeDefinitions ([some 0, none, some 0].filterMap id) = [0, 1, 6, 2, 3, 4, 5]
      ∧ ∃ root ∈ [some 0, none, some 0].filterMap id, Relation.ReflTransGen knot.Edge root 5 := by
  obtain ⟨-, -, -, hlisted, -, hreached⟩ :=
    knot.typeDefinitions_depthFirst [some 0, none, some 0]
  have hlist : knot.typeDefinitions ([some 0, none, some 0].filterMap id) =
      [0, 1, 6, 2, 3, 4, 5] := by
    rw [hlisted]
    change (knot.search [] [0, 0]).filter _ = _
    rw [search_knot]
    decide
  have hmember : 5 ∈ knot.typeDefinitions ([some 0, none, some 0].filterMap id) := by
    rw [hlist]
    decide
  exact ⟨hlist, ((hreached 5).mp hmember).1⟩

end ApiClients.Graph
