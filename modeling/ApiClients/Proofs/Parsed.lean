import ApiClients.Proofs.Passages
import ApiClients.Proofs.Reachability

/-!
# What parsed graphs are like

Properties of the nodes of a graph that hold however it has been read, because every move keeps them
(`History.law`): nodes refer to nodes of the graph only, and what stands for another node has no
shape of its own, so a type definition stands for itself (`actual_of_typeDefinition`).
-/

namespace ApiClients

/-! ### Parts of nodes -/

theorem Node.named_of_typeDefinition {node : Node} (h : node.isTypeDefinition = true) :
    node.typeName ≠ .null := by
  simp only [isTypeDefinition, isNamed, Bool.and_eq_true, decide_eq_true_eq] at h
  exact h.1

/-- Nothing is said of a shape. -/
def Node.Shapeless (node : Node) : Prop :=
  node.kinds = Kinds.none ∧ node.properties = [] ∧ node.enumValues = []

theorem Node.Shapeless.not_typeDefinition {node : Node} (h : node.Shapeless) :
    node.isTypeDefinition = false := by
  obtain ⟨hkinds, hproperties, henum⟩ := h
  have hempty : decide (Kinds.none.erase .null = Kinds.ofList [.object]) = false := by decide
  simp [isTypeDefinition, isEnum, hkinds, hproperties, henum, hempty]

namespace Reading

section

variable {node part : Node}

theorem mem_foldl_putNew {properties more : List (String × NodeId)} {entry : String × NodeId}
    (h : entry ∈ more.foldl (fun ps (name, p) => Entries.putNew ps name p) properties) :
    entry ∈ properties ∨ entry ∈ more := by
  induction more generalizing properties with
  | nil => exact Or.inl h
  | cons first more ih =>
    rw [List.foldl_cons] at h
    rcases ih h with hput | hmore
    · change entry ∈ Entries.putNew properties first.1 first.2 at hput
      unfold Entries.putNew at hput
      split at hput
      · exact Or.inl hput
      · rcases List.mem_append.mp hput with hold | hnew
        · exact Or.inl hold
        · exact Or.inr (List.mem_singleton.mp hnew ▸ List.mem_cons_self)
    · exact Or.inr (List.mem_cons_of_mem _ hmore)

/-- What a node absorbs of another one refers to nothing that the other does not refer to. -/
theorem mem_children_absorb {child : NodeId} (h : child ∈ (absorb node part).children) :
    child ∈ node.children ∨ child ∈ part.children := by
  rw [Node.mem_children] at h
  rcases h with href | hitems | hadditional | ⟨name, hproperty⟩
  · exact Or.inl (Node.mem_children.mpr (Or.inl href))
  · exact Or.inl (Node.mem_children.mpr (Or.inr (Or.inl hitems)))
  · exact Or.inl (Node.mem_children.mpr (Or.inr (Or.inr (Or.inl hadditional))))
  · rcases mem_foldl_putNew hproperty with hown | hpart
    · exact Or.inl (Node.mem_children.mpr (Or.inr (Or.inr (Or.inr ⟨name, hown⟩))))
    · exact Or.inr (Node.mem_children.mpr (Or.inr (Or.inr (Or.inr ⟨name, hpart⟩))))

end

/-! ### Laws of nodes -/

/-- A property of nodes, in graphs of some size, that every move keeps. -/
structure NodeLaw (scope : Scope) (N : Nat → Node → Prop) : Prop where
  mono : ∀ {size more node}, size ≤ more → N size node → N more node
  blank : ∀ size name, N size { typeName := name }
  added : ∀ {graph node}, Fresh graph node → N graph.size node
  filled : ∀ {members}, scope.shape members → ∀ size name,
    N size (putKeywords members { typeName := name })
  put : ∀ {graph : Graph} {piece node}, Fits scope graph piece →
    (∀ id, N graph.size (graph.node id)) → node.reference = none → N graph.size node →
    N graph.size (piece.put graph node)
  stands : ∀ {size target}, target < size → ∀ name,
    N size { typeName := name, reference := some target }
  nullable : ∀ {size node}, N size node → N size { node with nullable := true }

section

variable {scope : Scope} {s t : Reading} {moves : List Move} {N : Nat → Node → Prop}

theorem NodeLaw.modify (hlaw : NodeLaw scope N) {graph : Graph} {id : NodeId} {f : Node → Node}
    (hgraph : ∀ id, N graph.size (graph.node id))
    (hf : id < graph.size → N graph.size (f (graph.node id))) (other : NodeId) :
    N (graph.modify id f).size ((graph.modify id f).node other) := by
  rw [Graph.size_modify]
  by_cases hother : other = id
  · subst hother
    by_cases hlt : other < graph.size
    · rw [Graph.node_modify_self _ _ hlt]
      exact hf hlt
    · rw [Graph.node_eq_default _ (by simpa using hlt)]
      exact hlaw.blank _ .null
  · rw [Graph.node_modify_of_ne _ _ hother]
    exact hgraph other

theorem NodeLaw.push (hlaw : NodeLaw scope N) {graph : Graph} {node : Node}
    (hgraph : ∀ id, N graph.size (graph.node id)) (hnode : N graph.size node) (id : NodeId) :
    N (graph.push node).size ((graph.push node).node id) := by
  rw [Graph.size_push]
  rcases Nat.lt_trichotomy id graph.size with hlt | rfl | hgt
  · rw [Graph.node_push_of_lt _ _ hlt]
    exact hlaw.mono (Nat.le_succ _) (hgraph id)
  · rw [Graph.node_push_size]
    exact hlaw.mono (Nat.le_succ _) hnode
  · rw [Graph.node_eq_default _ (by rw [Graph.size_push]; exact hgt)]
    exact hlaw.blank _ .null

/-- What every move keeps of the nodes holds of all nodes after reading. -/
theorem History.law (h : History scope s moves t) (hlaw : NodeLaw scope N)
    (hs : ∀ id, N s.graph.size (s.graph.node id)) : ∀ id, N t.graph.size (t.graph.node id) := by
  refine h.keeps (P := fun u => ∀ id, N u.graph.size (u.graph.node id)) ?_ hs
  intro u move hallowed hu
  cases move with
  | note event => exact hu
  | add node => exact hlaw.push hu (hlaw.added hallowed)
  | enter name => exact hlaw.push hu (hlaw.blank _ name)
  | fill id members =>
    obtain ⟨⟨-, name, hnode⟩, hshape⟩ := hallowed
    exact hlaw.modify hu fun _ => hnode ▸ hlaw.filled hshape _ name
  | put id piece =>
    obtain ⟨href, hfits⟩ := hallowed
    exact hlaw.modify hu fun _ => hlaw.put hfits hu href (hu id)
  | stand id target =>
    obtain ⟨⟨-, name, hnode⟩, htarget⟩ := hallowed
    exact hlaw.modify hu fun _ => hnode ▸ hlaw.stands htarget name
  | admitNull id => exact hlaw.modify hu fun _ => hlaw.nullable (hu id)
  | define name data => exact hu

/-- Nodes refer to nodes of the graph. -/
theorem law_closed (scope : Scope) :
    NodeLaw scope fun size node => ∀ child ∈ node.children, child < size := by
  refine ⟨fun hle hnode child hchild => Nat.lt_of_lt_of_le (hnode child hchild) hle,
    fun _ _ child hchild => ?_, ?added, fun _ _ _ child hchild => ?_, ?put, ?stands,
    fun hnode => hnode⟩
  case added =>
    intro graph node hfresh child hchild
    cases hfresh with
    | wrapper htarget =>
      obtain rfl : child = _ := by simpa [Node.children] using hchild
      exact htarget
    | _ => cases hchild
  case put =>
    intro graph piece node hfits hgraph _ hnode child hchild
    cases piece with
    | items made =>
      rcases Node.mem_children.mp hchild with href | hitems | hadditional | hproperty
      · exact hnode child (Node.mem_children.mpr (Or.inl href))
      · exact hfits child hitems
      · exact hnode child (Node.mem_children.mpr (Or.inr (Or.inr (Or.inl hadditional))))
      · exact hnode child (Node.mem_children.mpr (Or.inr (Or.inr (Or.inr hproperty))))
    | additional value =>
      rcases Node.mem_children.mp hchild with href | hitems | hadditional | hproperty
      · exact hnode child (Node.mem_children.mpr (Or.inl href))
      · exact hnode child (Node.mem_children.mpr (Or.inr (Or.inl hitems)))
      · exact hfits child hadditional
      · exact hnode child (Node.mem_children.mpr (Or.inr (Or.inr (Or.inr hproperty))))
    | property name made =>
      rcases Node.mem_children.mp hchild with href | hitems | hadditional | ⟨other, hproperty⟩
      · exact hnode child (Node.mem_children.mpr (Or.inl href))
      · exact hnode child (Node.mem_children.mpr (Or.inr (Or.inl hitems)))
      · exact hnode child (Node.mem_children.mpr (Or.inr (Or.inr (Or.inl hadditional))))
      · rcases mem_putAlike hproperty with hnew | hold
        · obtain rfl : child = made := hnew
          exact hfits
        · exact hnode child (Node.mem_children.mpr (Or.inr (Or.inr (Or.inr ⟨other, hold⟩))))
    | part made =>
      rcases mem_children_absorb hchild with hown | hpart
      · exact hnode child hown
      · exact hgraph _ child hpart
    | settle =>
      obtain ⟨kinds, hsettled⟩ := settleKinds_eq node
      rw [Piece.put, hsettled] at hchild
      exact hnode child hchild
    | _ => exact hnode child hchild
  case stands =>
    intro size target htarget name child hchild
    obtain rfl : child = target := by simpa [Node.children] using hchild
    exact htarget
  all_goals cases hchild

/-- What stands for another node has no shape of its own. -/
theorem law_shapeless (scope : Scope) :
    NodeLaw scope fun _ node => node.reference ≠ none → node.Shapeless := by
  refine ⟨fun _ hnode => hnode, fun _ _ href => absurd rfl href, ?added,
    fun _ _ _ href => absurd rfl href, ?put, fun _ _ _ => ⟨rfl, rfl, rfl⟩, fun hnode => hnode⟩
  case added =>
    intro graph node hfresh href
    cases hfresh with
    | wrapper _ => exact ⟨rfl, rfl, rfl⟩
    | _ => exact absurd rfl href
  case put =>
    intro graph piece node _ _ hnone _ href
    rw [Piece.reference_put] at href
    exact absurd hnone href

end

/-! ### Documents that have been read -/

section

variable {reader s : Reading} {data : Json} {document : Document}

/-- A document that is read with success has definitions. -/
theorem definitions_of_read (h : Reading.read reader data = (.ok document, s)) :
    ∃ defs, data.given = true ∧ Json.definitions data = .ok defs := by
  have hrun : runStep (Reading.document data) reader = (.ok document, s) := h
  cases hgiven : data.given with
  | false =>
    have hrefused := document_refused reader hgiven
    rw [hrun] at hrefused
    cases hrefused
  | true =>
    cases hdefs : Json.definitions data with
    | error e =>
      have hfailed := document_undefined reader hgiven hdefs
      rw [hrun] at hfailed
      cases hfailed
    | ok defs => exact ⟨defs, rfl, rfl⟩

/-- Allowed moves lead from the definitions of a document to the end of its reading. -/
theorem passes_of_read (h : Reading.read reader data = (.ok document, s)) :
    ∃ defs, Json.definitions data = .ok defs
      ∧ Passes .all (reader.begin data defs) s
      ∧ document.schemas = s.named ∧ document.graph = s.graph := by
  obtain ⟨defs, hgiven, hdefs⟩ := definitions_of_read h
  obtain ⟨hpasses, hschemas, hgraph, -⟩ := ((admits_all data).document hdefs hgiven
    (Scope.covers_all fun hname => by cases hname) reader rfl).1 _ _ h
  exact ⟨defs, hdefs, hpasses, hschemas, hgraph⟩

/-- What every move keeps of the nodes holds from the beginning of a document on. -/
theorem Passes.law {scope : Scope} {defs : List (Json × Json)}
    (h : Passes scope (reader.begin data defs) s) {N : Nat → Node → Prop}
    (hlaw : NodeLaw scope N) (id : NodeId) : N s.graph.size (s.graph.node id) := by
  obtain ⟨moves, hcourse⟩ := h.course
  refine hcourse.history.law hlaw (fun other => ?_) id
  have hblank : (reader.begin data defs).graph.node other = {} :=
    Graph.node_eq_default _ (Nat.zero_le other)
  rw [hblank]
  exact hlaw.blank _ .null

theorem law_of_read (h : Reading.read reader data = (.ok document, s)) {N : Nat → Node → Prop}
    (hlaw : NodeLaw .all N) (id : NodeId) : N document.graph.size (document.graph.node id) := by
  obtain ⟨defs, -, hpasses, -, hgraph⟩ := passes_of_read h
  rw [hgraph]
  exact hpasses.law hlaw id

/-- A type definition stands for itself. -/
theorem actual_of_typeDefinition (h : Reading.read reader data = (.ok document, s)) {id : NodeId}
    (hid : (document.graph.node id).isTypeDefinition = true) : document.graph.actual id = id := by
  refine Graph.follow_none [] ?_
  by_contra href
  have hnot := (law_of_read h (law_shapeless .all) id href).not_typeDefinition
  rw [hid] at hnot
  cases hnot

end

end Reading

end ApiClients
