import ApiClients.Proofs.Parents
import ApiClients.Proofs.Renderings

/-!
# Where nodes come from

Each node of a graph that has been read has been put there for one schema.  A node without a name
is followed from the node in whose shape its schema stands, and from no other one
(`Graph.Grounded`); the node of a definition has been made by one reading of this definition, and
what was put into the graph by it is in the end as it was then (`Formed`).  Both are shown together
for every step of reading (`breeds_schemaTo`), up to the reading of a whole document
(`bred_of_read`).
-/

namespace ApiClients

namespace Reading

section

variable {scope : Scope} {C : NodeId → Prop} {graph : Graph} {piece : Piece} {node : Node}
  {next : NodeId}

/-- What is put into a node links it to nothing but the nodes that are put there. -/
theorem links_put (h : (piece.put graph node).Links next) (hsuits : Suits scope C piece) :
    node.Links next ∨ C next := by
  cases piece with
  | items made =>
    rcases h with href | hitems | hadditional
    · exact Or.inl (Or.inl href)
    · exact Or.inr (hsuits next hitems)
    · exact Or.inl (Or.inr (Or.inr hadditional))
  | additional value =>
    rcases h with href | hitems | hadditional
    · exact Or.inl (Or.inl href)
    · exact Or.inl (Or.inr (Or.inl hitems))
    · exact Or.inr (hsuits next hadditional)
  | settle =>
    obtain ⟨kinds, hsettled⟩ := settleKinds_eq node
    rw [Piece.put, hsettled] at h
    exact Or.inl h
  | _ => exact Or.inl h

end

/-! ### What reading leaves behind -/

/-- A definition has been read on the way from a state to another one.  What was put into the graph
by that reading is as it was then, and a node `own` was not put there by it. -/
def Formed (own : Option NodeId) (s t : Reading) (name : Json) (id : NodeId) : Prop :=
  ∃ depth r r', s.After r ∧ r'.graph.size ≤ t.graph.size ∧ Entries.get? r.named name = none
    ∧ runStep (definition (schemaTo depth) name) r = (.ok id, r') ∧ Preserved r r' id t
    ∧ t.graph.node id = r'.graph.node id
    ∧ ∀ node, own = some node → node < r.graph.size ∨ r'.graph.size ≤ node

/-- Reading has come from a state to another one: its nodes lead to new ones or to those of
definitions, and all definitions that it has met have been read, but for one whose node is `own`. -/
structure Bred (own : Option NodeId) (s t : Reading) : Prop where
  after : s.After t
  grounded : t.graph.Grounded
  links : ∀ {id next}, s.graph.size ≤ id → t.graph.Follows id next →
    (t.graph.node next).typeName = .null → s.graph.size ≤ next
  formed : ∀ {name id}, Entries.get? t.named name = some id →
    Entries.get? s.named name = some id ∨ own = some id ∨ Formed own s t name id

/-- Reading has led to a node that may be linked to; if it has no name, no definition that has been
read on the way has put it into the graph. -/
structure Placed (s t : Reading) (id : NodeId) : Prop where
  bred : Bred none s t
  loose : t.graph.Loose s.graph.size id
  own : (t.graph.node id).typeName = .null → t.Unowned id ∧ Bred (some id) s t

section

variable {own : Option NodeId} {s t u : Reading} {id other : NodeId} {node : Node}
  {f : Node → Node} {name : Json}

namespace Formed

/-- A reading of a definition makes its node and no other one for it. -/
theorem node_new {depth : Nat} {r r' : Reading} (hr : r.Sound)
    (hname : Entries.get? r.named name = none)
    (hrun : runStep (definition (schemaTo depth) name) r = (.ok id, r')) :
    r.After r' ∧ Entries.get? r'.named name = some id ∧ r.graph.size ≤ id
      ∧ id < r'.graph.size := by
  obtain ⟨hafter, hfound⟩ := definition_after (careful_schemaTo depth) name hr
  rw [hrun] at hafter hfound
  have hnamed := hfound id rfl
  refine ⟨hafter, hnamed, ?_, (hafter.1.known hnamed).1⟩
  rcases hafter.2.fresh hnamed with hold | hnew
  · rw [hname] at hold
    cases hold
  · exact hnew

theorem keep (h : Formed own s t name id) (hafter : t.After u) : Formed own s u name id := by
  obtain ⟨depth, r, r', hr, hsize, hname, hrun, hkept, hnode, hown⟩ := h
  have hlt := (node_new hr.1 hname hrun).2.2.2
  refine ⟨depth, r, r', hr, Nat.le_trans hsize hafter.2.size, hname, hrun, ⟨hafter.1,
    hkept.named.trans hafter.2.named, fun other hlow hhigh hne => ?_⟩, ?_, hown⟩
  · rw [hafter.2.kept other (Nat.lt_of_lt_of_le hhigh hsize)]
    exact hkept.nodes other hlow hhigh hne
  · rw [hafter.2.kept id (Nat.lt_of_lt_of_le hlt hsize), hnode]

/-- The node `own` may change. -/
theorem change (h : Formed (some other) s t name id)
    (hf : ∀ node, (f node).typeName = node.typeName) :
    Formed (some other) s { t with graph := t.graph.modify other f } name id := by
  obtain ⟨depth, r, r', hr, hsize, hname, hrun, hkept, hnode, hown⟩ := h
  have hapart : ∀ node, r.graph.size ≤ node → node < r'.graph.size → node ≠ other := by
    rintro node hlow hhigh rfl
    rcases hown node rfl with hlt | hle
    · exact absurd hlt (Nat.not_lt_of_le hlow)
    · exact absurd hhigh (Nat.not_lt_of_le hle)
  obtain ⟨-, -, hlow, hhigh⟩ := node_new hr.1 hname hrun
  refine ⟨depth, r, r', hr, ?_, hname, hrun, ⟨hkept.sound.change hf, hkept.named,
    fun node hlow hhigh hne => ?_⟩, ?_, hown⟩
  · rw [Graph.size_modify]
    exact hsize
  · rw [Graph.node_modify_of_ne _ _ (hapart node hlow hhigh)]
    exact hkept.nodes node hlow hhigh hne
  · rw [Graph.node_modify_of_ne _ _ (hapart id hlow hhigh), hnode]

/-- What comes from a later state comes from an earlier one. -/
theorem since (h : Formed none t u name id) (hafter : s.After t)
    (hown : ∀ node, own = some node → node < t.graph.size) : Formed own s u name id := by
  obtain ⟨depth, r, r', hr, hsize, hname, hrun, hkept, hnode, -⟩ := h
  exact ⟨depth, r, r', hafter.trans hr, hsize, hname, hrun, hkept, hnode, fun node hnode =>
    Or.inl (Nat.lt_of_lt_of_le (hown node hnode) hr.2.size)⟩

theorem forget (h : Formed own s t name id) : Formed none s t name id := by
  obtain ⟨depth, r, r', hr, hsize, hname, hrun, hkept, hnode, -⟩ := h
  exact ⟨depth, r, r', hr, hsize, hname, hrun, hkept, hnode, fun _ hnone => by cases hnone⟩

/-- A node that is put into the graph next is put there by no definition that has been read. -/
theorem next (h : Formed none s t name id) : Formed (some t.graph.size) s t name id := by
  obtain ⟨depth, r, r', hr, hsize, hname, hrun, hkept, hnode, -⟩ := h
  exact ⟨depth, r, r', hr, hsize, hname, hrun, hkept, hnode, fun _ hsome =>
    Or.inr (Option.some.inj hsome ▸ hsize)⟩

end Formed

namespace Bred

theorem refl (hs : s.Sound) (hgrounded : s.graph.Grounded) : Bred own s s := by
  refine ⟨hs.after, hgrounded, fun hid hnext _ => ?_, Or.inl⟩
  exact absurd hnext (Graph.not_follows_of_le hid)

theorem trans (h : Bred own s t) (h' : Bred none t u)
    (hown : ∀ node, own = some node → node < t.graph.size) : Bred own s u := by
  refine ⟨h.after.trans h'.after, h'.grounded, ?links, ?formed⟩
  case links =>
    intro id next hid hnext hname
    by_cases hlt : id < t.graph.size
    · have hold : t.graph.Follows id next := by
        unfold Graph.Follows at hnext ⊢
        rwa [h'.after.2.kept id hlt] at hnext
      rw [h'.after.2.kept next (h.grounded.closed hold)] at hname
      exact h.links hid hold hname
    · exact Nat.le_trans h.after.2.size (h'.links (Nat.le_of_not_lt hlt) hnext hname)
  case formed =>
    intro name id hname
    rcases h'.formed hname with hold | hnone | hnew
    · exact (h.formed hold).imp_right fun h => h.imp_right fun hformed => hformed.keep h'.after
    · cases hnone
    · exact Or.inr (Or.inr (hnew.since h.after hown))

theorem append (h : Bred none s t) (h' : Bred none t u) : Bred none s u :=
  h.trans h' fun _ hnone => by cases hnone

theorem forget (h : Bred (some id) s t)
    (hid : ∀ name, Entries.get? t.named name = some id →
      Entries.get? s.named name = some id ∨ Formed none s t name id) : Bred none s t := by
  refine ⟨h.after, h.grounded, h.links, ?_⟩
  intro name other hname
  rcases h.formed hname with hold | hsame | hformed
  · exact Or.inl hold
  · cases hsame
    exact (hid name hname).imp_right Or.inr
  · exact Or.inr (Or.inr hformed.forget)

/-- A node that leads to loose nodes only is put into the graph. -/
theorem push (h : Bred none s t) (hname : node.typeName = .null)
    (hlinks : ∀ next, node.Links next → t.graph.Loose s.graph.size next) :
    Placed s { t with graph := t.graph.push node } t.graph.size := by
  have hafter := h.after.push hname
  have hgrounded := h.grounded.push hlinks fun hnamed => absurd hname hnamed
  have hlinks' : ∀ {id next}, s.graph.size ≤ id → (t.graph.push node).Follows id next →
      ((t.graph.push node).node next).typeName = .null → s.graph.size ≤ next := by
    intro id next hid hnext hunnamed
    rcases hnext.push with hold | ⟨-, hnew⟩
    · rw [t.graph.node_push_of_lt node (h.grounded.closed hold)] at hunnamed
      exact h.links hid hold hunnamed
    · have hloose := hlinks next hnew
      rw [t.graph.node_push_of_lt node hloose.lt] at hunnamed
      exact (hloose.new hunnamed).1
  have hkeep : t.After { t with graph := t.graph.push node } := (h.after.1.after).push hname
  refine ⟨⟨hafter, hgrounded, hlinks', fun hnamed => ?_⟩, ⟨?_, fun _ => ⟨h.after.2.size, ?_⟩⟩,
    fun _ => ⟨?_, hafter, hgrounded, hlinks', fun hnamed => ?_⟩⟩
  · exact (h.formed hnamed).imp_right fun h => h.imp_right fun hformed => hformed.keep hkeep
  · show t.graph.size < (t.graph.push node).size
    rw [Graph.size_push]
    exact Nat.lt_succ_self _
  · rintro last hlast
    rcases hlast.push with hold | ⟨-, hnew⟩
    · exact absurd (h.grounded.closed hold) (Nat.lt_irrefl _)
    · exact absurd (hlinks _ hnew).lt (Nat.lt_irrefl _)
  · exact fun name hnamed => h.after.1.unowned name hnamed
  · rcases h.formed hnamed with hold | hnone | hformed
    · exact Or.inl hold
    · cases hnone
    · exact Or.inr (Or.inr (hformed.next.keep hkeep))

/-- A new node is linked to loose nodes. -/
theorem change (h : Bred (some id) s t) (hid : s.graph.size ≤ id)
    (hf : ∀ node, (f node).typeName = node.typeName)
    (hlinks : ∀ next, (f (t.graph.node id)).Links next →
      (t.graph.node id).Links next ∨ t.graph.Loose s.graph.size next)
    (hstanding : (t.graph.node id).typeName ≠ .null → (f (t.graph.node id)).reference ≠ none →
      (f (t.graph.node id)).nullable = false) :
    Bred (some id) s { t with graph := t.graph.modify id f } := by
  refine ⟨h.after.change hid hf, h.grounded.modify hf hlinks hstanding, ?links, ?formed⟩
  case links =>
    intro last next hlast hnext hname
    change ((t.graph.modify id f).node next).typeName = .null at hname
    rw [typeName_modify t.graph hf] at hname
    rcases Graph.Follows.modify hnext with ⟨hold, -⟩ | ⟨rfl, -, hnew⟩
    · exact h.links hlast hold hname
    · rcases hlinks next hnew with hold | hloose
      · exact h.links hlast hold hname
      · exact (hloose.new hname).1
  case formed =>
    intro name other hname
    exact (h.formed hname).imp_right fun h => h.imp_right fun hformed => hformed.change hf

/-- A definition gets its node. -/
theorem enter (hs : s.Sound) (hgrounded : s.graph.Grounded)
    (hname : Entries.get? s.named name = none) : Bred (some s.graph.size) s (s.enter name) := by
  have hnolinks : ∀ next, ¬ Node.Links { typeName := name } next := fun _ =>
    Node.not_links rfl rfl rfl
  have hloose : ∀ next, Node.Links { typeName := name } next → s.graph.Loose 0 next :=
    fun next hnew => absurd hnew (hnolinks next)
  refine ⟨hs.after.enter hname, hgrounded.push hloose fun _ _ => rfl, ?links, ?formed⟩
  case links =>
    intro id next hid hnext _
    rcases Graph.Follows.push hnext with hold | ⟨-, hnew⟩
    · exact absurd hold (Graph.not_follows_of_le hid)
    · exact absurd hnew (hnolinks next)
  case formed =>
    intro other id hother
    rw [get?_named_enter, Option.or_eq_some_iff] at hother
    rcases hother with hold | ⟨-, hnew⟩
    · exact Or.inl hold
    · rw [Option.ite_none_right_eq_some] at hnew
      exact Or.inr (Or.inl hnew.2)

end Bred

/-- A new node without a name may change as long as it is linked to nothing. -/
theorem Placed.change (h : Placed s t id) (hname : (t.graph.node id).typeName = .null)
    (hf : ∀ node, (f node).typeName = node.typeName)
    (hlinks : ∀ next, (f (t.graph.node id)).Links next → (t.graph.node id).Links next) :
    Placed s { t with graph := t.graph.modify id f } id := by
  obtain ⟨hunowned, hbred⟩ := h.own hname
  obtain ⟨hnew, hunfollowed⟩ := h.loose.new hname
  have hchanged := hbred.change hnew hf (fun next hnext => Or.inl (hlinks next hnext))
    fun hnamed => absurd hname hnamed
  refine ⟨hchanged.forget fun other hother => absurd hother (hunowned other), ⟨?_, fun _ =>
    ⟨hnew, fun last hlast => ?_⟩⟩, fun _ => ⟨hunowned, hchanged⟩⟩
  · show id < (t.graph.modify id f).size
    rw [Graph.size_modify]
    exact h.loose.lt
  · rcases Graph.Follows.modify hlast with ⟨hold, -⟩ | ⟨rfl, -, hself⟩
    · exact hunfollowed last hold
    · exact hunfollowed last (hlinks last hself)

end

/-! ### Readings of schemas -/

/-- A step that leads to a result and a state with some property whenever it succeeds. -/
abbrev Yields {α : Type} (P : Reading → Prop) (Q : α → Reading → Prop) (step : ReadingM α) : Prop :=
  Leads P Q (fun _ _ => True) step

/-- A reading of schemas links no node without a name twice, and all definitions that it meets are
read. -/
structure Breeds (read : ReadSchema) : Prop where
  careful : Careful read
  leads : ∀ {s}, s.Sound → s.graph.Grounded → ∀ trail data,
    Yields (s = ·) (fun made t => Bred none s t ∧ ∀ id, made = some id → Placed s t id)
      (read trail data)

/-- A node is being filled. -/
structure Tended (s : Reading) (id : NodeId) (t : Reading) : Prop where
  bred : Bred (some id) s t
  lt : id < t.graph.size
  unfollowed : (t.graph.node id).typeName = .null → t.graph.Unfollowed id
  reference : (t.graph.node id).reference = none

section

variable {s t u : Reading} {id other : NodeId} {f : Node → Node} {read : ReadSchema}
  {trail : List String} {members : List (String × Json)} {data name : Json} {depth : Nat}

theorem Bred.note {own : Option NodeId} (h : Bred own s t) (journal : Journal) :
    Bred own s { t with journal := journal } :=
  ⟨h.after.note journal, h.grounded, h.links, fun hname => (h.formed hname).imp_right fun hnew =>
    hnew.imp_right fun hformed => hformed.keep (h.after.1.after.note journal)⟩

namespace Tended

theorem grow (h : Tended s id t) (h' : Bred none t u) : Tended s id u := by
  have hkept := h'.after.2.kept id h.lt
  refine ⟨h.bred.trans h' fun node hnode => Option.some.inj hnode ▸ h.lt,
    Nat.lt_of_lt_of_le h.lt h'.after.2.size, fun hname last hlast => ?_, hkept ▸ h.reference⟩
  by_cases hlt : last < t.graph.size
  · unfold Graph.Follows at hlast
    rw [h'.after.2.kept last hlt] at hlast
    exact h.unfollowed (hkept ▸ hname) last hlast
  · exact absurd h.lt (Nat.not_lt_of_le (h'.links (Nat.le_of_not_lt hlt) hlast hname))

theorem change (h : Tended s id t) (hid : s.graph.size ≤ id)
    (hf : ∀ node, (f node).typeName = node.typeName)
    (hreference : ∀ node, (f node).reference = node.reference)
    (hlinks : ∀ next, (f (t.graph.node id)).Links next →
      (t.graph.node id).Links next ∨ t.graph.Loose (id + 1) next) :
    Tended s id { t with graph := t.graph.modify id f } := by
  have href : (f (t.graph.node id)).reference = none := (hreference _).trans h.reference
  refine ⟨h.bred.change hid hf (fun next hnext => (hlinks next hnext).imp_right fun hloose =>
    hloose.mono (Nat.le_succ_of_le hid)) fun _ hne => absurd href hne, ?_, ?_, ?_⟩
  · show id < (t.graph.modify id f).size
    rw [Graph.size_modify]
    exact h.lt
  · intro hname last hlast
    change ((t.graph.modify id f).node id).typeName = .null at hname
    rw [typeName_modify t.graph hf] at hname
    rcases Graph.Follows.modify hlast with ⟨hold, -⟩ | ⟨rfl, -, hnew⟩
    · exact h.unfollowed hname last hold
    · rcases hlinks last hnew with hold | hloose
      · exact h.unfollowed hname last hold
      · exact absurd (hloose.new hname).1 (Nat.not_succ_le_self last)
  · show ((t.graph.modify id f).node id).reference = none
    rw [Graph.node_modify_self _ _ h.lt]
    exact href

end Tended

namespace Breeds

/-- A node that has been put into the graph on the way is filled. -/
theorem fill (h : Breeds read) (hid : s.graph.size ≤ id) (trail : List String)
    (members : List (String × Json)) :
    Yields (Tended s id) (fun _ => Tended s id) (Reading.fill read trail id members) := by
  have hfills : Fills .all (Tended s id) (Tended s id) (fun t child => t.graph.Loose (id + 1) child)
      (fun _ _ => True) read trail id members := by
    refine ⟨trivial, fun t ht => ht.change hid (fun _ => rfl) (fun _ => rfl) fun _ => Or.inl, ?read,
      ?put, fun _ _ => trivial⟩
    case read =>
      intro entry _ t ht
      refine ⟨fun made u hrun => ?_, fun _ _ _ => trivial⟩
      obtain ⟨hbred, hplaced⟩ :=
        (h.leads ht.bred.after.1 ht.bred.grounded trail entry.2 t rfl).1 made u hrun
      exact ⟨ht.grow hbred, fun child hchild => (hplaced child hchild).loose.mono ht.lt⟩
    case put =>
      intro t piece ht hsuits
      exact ht.change hid (Piece.typeName_put t.graph piece) (Piece.reference_put t.graph piece)
        fun next hnext => links_put hnext hsuits
  exact hfills.fill

/-- A node that leads to loose nodes only is put into the graph. -/
theorem add {node : Node} (hname : node.typeName = .null) :
    Yields (fun t => Bred none s t ∧ ∀ next, node.Links next → t.graph.Loose s.graph.size next)
      (fun id t => Placed s t id) (Reading.add node) := by
  intro t ht
  refine ⟨fun id u hrun => ?_, fun _ _ _ => trivial⟩
  cases hrun
  exact ht.1.push hname ht.2

theorem nodeOf (h : Breeds read) (hs : s.Sound) (hgrounded : s.graph.Grounded)
    (trail : List String) (data : Json) :
    Yields (s = ·) (fun id t => Placed s t id) (Reading.nodeOf read trail data) := by
  refine leads_bind (h.leads hs hgrounded trail data) fun made => ?_
  cases made with
  | some id => exact leads_pure fun t ht => ht.2 id rfl
  | none =>
    refine (add rfl).weaken fun t ht => ⟨ht.1, fun next hnext => ?_⟩
    exact absurd hnext (Node.not_links rfl rfl rfl)

/-- Null is admitted by a node of its own around another one. -/
theorem nullable {step : ReadingM NodeId} (hstep : Yields (s = ·) (fun id t => Placed s t id) step)
    (nullable : Bool) :
    Yields (s = ·) (fun id t => Placed s t id) (step >>= nullableNode nullable) := by
  refine leads_bind hstep fun id => ?_
  cases nullable with
  | false => exact leads_pure fun t ht => ht
  | true =>
    refine (add rfl).weaken fun t ht => ⟨ht.bred, ?_⟩
    rintro next (href | hitems | hadditional)
    · exact Option.some.inj href ▸ ht.loose
    · cases hitems
    · cases hadditional

/-- What a definition says is read into its node, which is filled or made to stand for another. -/
theorem readDefinition (h : Breeds read) (hs : s.Sound) (hgrounded : s.graph.Grounded)
    (hname : Entries.get? s.named name = none) :
    Yields (s.enter name = ·) (fun _ t => Bred (some s.graph.size) s t)
      (Reading.readDefinition read name s.graph.size) := by
  have henter := Bred.enter hs hgrounded hname
  have hnode := s.node_enter name
  have hlt := s.lt_size_enter name
  have hfill : ∀ members, Yields (s.enter name = ·) (fun _ t => Bred (some s.graph.size) s t)
      (Reading.fill read [] s.graph.size members) := by
    intro members
    refine (h.fill (Nat.le_refl _) [] members).mono ?_ (fun _ _ ht => ht.bred) fun _ _ _ => trivial
    rintro _ rfl
    refine ⟨henter, hlt, fun _ last hlast => ?_, by rw [hnode]⟩
    rcases Graph.Follows.push hlast with hold | ⟨-, hnew⟩
    · exact absurd (hgrounded.closed hold) (Nat.lt_irrefl _)
    · exact absurd hnew (Node.not_links rfl rfl rfl)
  unfold Reading.readDefinition
  refine leads_get_bind ?_
  rintro _ rfl
  cases Entries.get? (s.enter name).definitions name with
  | none => exact leads_modify fun t ht => ht ▸ henter.note _
  | some data =>
    cases data with
    | obj members =>
      dsimp only
      split
      · refine leads_bind (h.nodeOf henter.after.1 henter.grounded [] _) fun target => ?_
        have hbred : ∀ t, Placed (s.enter name) t target → Bred (some s.graph.size) s t :=
          fun t ht => henter.trans ht.bred fun node hnode => Option.some.inj hnode ▸ hlt
        refine leads_ite (fun _ => leads_modify fun t ht => ?_) fun _ => leads_pure hbred
        have hkept : t.graph.node s.graph.size = { typeName := name } :=
          (ht.bred.after.2.kept _ hlt).trans hnode
        refine (hbred t ht).change (Nat.le_refl _) (fun _ => rfl) (fun next hnext => ?_)
          fun _ _ => by rw [hkept]
        rw [hkept] at hnext ⊢
        rcases hnext with href | hitems | hadditional
        · exact Or.inr (Option.some.inj href ▸ ht.loose.mono henter.after.2.size)
        · cases hitems
        · cases hadditional
      · exact hfill members
    | _ => exact leads_modify fun t ht => ht ▸ henter.note _

/-- The node of a definition, which is read unless it has been already. -/
theorem definition (h : Breeds (schemaTo depth)) (hs : s.Sound) (hgrounded : s.graph.Grounded) :
    Yields (s = ·) (fun id t => Bred none s t ∧ Entries.get? t.named name = some id)
      (Reading.definition (schemaTo depth) name) := by
  rintro _ rfl
  refine ⟨fun id t hrun => ?_, fun _ _ _ => trivial⟩
  cases hname : Entries.get? s.named name with
  | some known =>
    rw [definition_known hname] at hrun
    cases hrun
    exact ⟨.refl hs hgrounded, hname⟩
  | none =>
    obtain ⟨hafter, hnamed, -, -⟩ := Formed.node_new hs hname hrun
    refine ⟨?_, hnamed⟩
    have hread := hrun
    rw [definition_new hname] at hread
    obtain ⟨_, u, hread, hrest⟩ := runStep_bind_ok.mp hread
    cases hrest
    have hbred := (h.readDefinition hs hgrounded hname _ rfl).1 _ _ hread
    refine hbred.forget fun other hother => Or.inr ?_
    -- the node has one name only
    have hsame : other = name := by
      rw [← (hafter.1.known hother).2, (hafter.1.known hnamed).2]
    subst hsame
    exact ⟨depth, s, t, hs.after, Nat.le_refl _, hname, hrun, ⟨hafter.1, List.prefix_rfl,
      fun _ _ _ _ => rfl⟩, rfl, fun _ hnone => by cases hnone⟩

/-- A definition with a proper name may be linked to. -/
theorem placed_of_named {ref : String} (h : Bred none s t)
    (hnamed : Entries.get? t.named (.str ref) = some id) : Placed s t id := by
  obtain ⟨hlt, hname⟩ := h.after.1.known hnamed
  refine ⟨h, ⟨hlt, fun hnull => ?_⟩, fun hnull => ?_⟩
  · simp [hname] at hnull
  · simp [hname] at hnull

theorem referenced (h : Breeds (schemaTo depth)) (hs : s.Sound) (hgrounded : s.graph.Grounded)
    (trail : List String) (ref : Json) :
    Yields (s = ·) (fun id t => Placed s t id) (Reading.referenced (schemaTo depth) trail ref) := by
  cases ref with
  | str ref =>
    unfold Reading.referenced
    refine leads_get_bind ?_
    rintro _ rfl
    refine leads_ite (fun _ => ?_) fun _ => leads_ite (fun _ => leads_throw fun _ _ => trivial)
      fun _ => h.nodeOf hs hgrounded _ _
    exact (h.definition hs hgrounded).mono (fun _ ht => ht)
      (fun id t ht => placed_of_named ht.1 ht.2) fun _ _ _ => trivial
  | _ => exact leads_throw fun _ _ => trivial

/-- Null is admitted by the node that one variant has led to. -/
theorem admitNull (id : NodeId) :
    Yields (fun t => Placed s t id) (fun id t => Placed s t id) (Reading.admitNull id) := by
  intro t ht
  cases hnamed : (t.graph.node id).isNamed with
  | true =>
    rw [runStep_admitNull_of_named hnamed]
    refine ⟨fun other u hrun => ?_, fun _ _ _ => trivial⟩
    cases hrun
    refine ht.bred.push rfl ?_
    rintro next (href | hitems | hadditional)
    · exact Option.some.inj href ▸ ht.loose
    · cases hitems
    · cases hadditional
  | false =>
    have hname : (t.graph.node id).typeName = .null := by simpa [Node.isNamed] using hnamed
    rw [runStep_admitNull_of_unnamed hnamed]
    refine ⟨fun other u hrun => ?_, fun _ _ _ => trivial⟩
    cases hrun
    exact ht.change hname (fun _ => rfl) fun _ hnext => hnext

theorem union (h : Breeds read) (hs : s.Sound) (hgrounded : s.graph.Grounded)
    (trail : List String) (variants : List Json) (nullable : Bool) :
    Yields (s = ·) (fun id t => Placed s t id) (Reading.union read trail variants nullable) := by
  by_cases hone : ∃ shape, variants.filter (! isNullVariant ·) = [shape]
  · obtain ⟨shape, hshape⟩ := hone
    rw [union_of_one hshape]
    refine leads_bind (h.nodeOf hs hgrounded trail shape) fun id => ?_
    exact leads_ite (fun _ => admitNull id) fun _ => leads_pure fun t ht => ht
  · obtain ⟨count, hunion⟩ := @union_untyped read trail variants nullable
      fun shape hshape => hone ⟨shape, hshape⟩
    rw [hunion]
    refine leads_bind (R := fun _ t => Bred none s t) (leads_modify fun t ht => ?_) fun _ => ?_
    · exact ht ▸ (Bred.refl hs hgrounded).note _
    · refine (add rfl).weaken fun t ht => ⟨ht, fun next hnext => ?_⟩
      exact absurd hnext (Node.not_links rfl rfl rfl)

theorem plain (h : Breeds read) (hs : s.Sound) (hgrounded : s.graph.Grounded)
    (hplain : Plain members) (trail : List String) :
    Yields (s = ·) (fun id t => Placed s t id) (Reading.schemaObject read trail members) := by
  rintro _ rfl
  refine ⟨fun id t hrun => ?_, fun _ _ _ => trivial⟩
  -- the node belongs to no definition
  have hunnamed := typeName_of_plain hs h.careful hplain hrun
  have hmakes := makes_plain h.careful trail hplain hs
  rw [hrun] at hmakes
  obtain ⟨hafter, hresult⟩ := hmakes
  obtain ⟨⟨hlt, hcase⟩, hnew⟩ := hresult id rfl
  have hunowned : t.Unowned id := by
    rcases hcase with ⟨-, -, hunowned⟩ | ⟨ref, href⟩
    · exact hunowned
    · simp [(hafter.1.known href).2] at hunnamed
  rw [schemaObject_of_plain hplain] at hrun
  obtain ⟨made, u, hadd, hrun⟩ := runStep_bind_ok.mp hrun
  cases hadd
  obtain ⟨_, u, hfill, hrest⟩ := runStep_bind_ok.mp hrun
  cases hrest
  have hblank : Placed s s.blank s.graph.size :=
    (Bred.refl hs hgrounded).push rfl fun next hnext => absurd hnext (Node.not_links rfl rfl rfl)
  have hempty : s.blank.graph.node s.graph.size = {} := Graph.node_push_size _ _
  have hname : (s.blank.graph.node s.graph.size).typeName = .null := by rw [hempty]
  have htended : Tended s s.graph.size s.blank :=
    ⟨(hblank.own hname).2, hblank.loose.lt, fun _ => (hblank.loose.new hname).2, by rw [hempty]⟩
  have hdone := (h.fill (Nat.le_refl _) trail members _ htended).1 _ _ hfill
  refine ⟨hdone.bred.forget fun name hnamed => absurd hnamed (hunowned name),
    ⟨hlt, fun _ => ⟨hnew, hdone.unfollowed hunnamed⟩⟩, fun _ => ⟨hunowned, hdone.bred⟩⟩

theorem schemaObject (h : Breeds (schemaTo depth)) (hs : s.Sound) (hgrounded : s.graph.Grounded)
    (trail : List String) (members : List (String × Json)) :
    Yields (s = ·) (fun id t => Placed s t id)
      (Reading.schemaObject (schemaTo depth) trail members) := by
  cases form members with
  | points hpoints =>
    rw [schemaObject_of_points hpoints]
    exact nullable (h.referenced hs hgrounded trail _) _
  | union href hvariants =>
    rw [schemaObject_of_union href hvariants]
    exact h.union hs hgrounded trail _ _
  | plain hplain => exact h.plain hs hgrounded hplain trail

end Breeds

theorem breeds_succ (h : Breeds (schemaTo depth)) : Breeds (schemaTo (depth + 1)) := by
  refine ⟨careful_schemaTo (depth + 1), ?_⟩
  intro s hs hgrounded trail data
  show Yields _ _ (schemaStep (schemaTo depth) trail data)
  have hmade : ∀ {step : ReadingM NodeId}, Yields (s = ·) (fun id t => Placed s t id) step →
      Yields (s = ·) (fun made t => Bred none s t ∧ ∀ id, made = some id → Placed s t id)
        (some <$> step) := by
    intro step hstep
    rw [map_eq_pure_bind]
    refine leads_bind hstep fun id => leads_pure fun t ht => ⟨ht.bred, ?_⟩
    rintro _ ⟨⟩
    exact ht
  cases data with
  | null =>
    refine leads_pure fun t ht => ⟨ht ▸ .refl hs hgrounded, fun _ hnone => by cases hnone⟩
  | obj members => exact hmade (h.schemaObject hs hgrounded trail members)
  | _ =>
    refine hmade ((Breeds.add rfl).weaken fun t ht => ⟨ht ▸ .refl hs hgrounded, ?_⟩)
    exact fun next hnext => absurd hnext (Node.not_links rfl rfl rfl)

/-- By induction on the depth: reading links no node without a name twice, and all definitions that
it meets are read. -/
theorem breeds_schemaTo (depth : Nat) : Breeds (schemaTo depth) := by
  induction depth with
  | zero => exact ⟨careful_schemaTo 0, fun _ _ _ _ => leads_throw fun _ _ => trivial⟩
  | succ depth ih => exact breeds_succ ih

end

/-! ### Documents -/

section

variable {reader s t : Reading} {data : Json} {document : Document}

theorem yields_namedSchema (s : Reading) (name : Json) :
    Yields (Bred none s) (fun _ => Bred none s) (namedSchema name) := by
  refine leads_get_bind fun t ht => ?_
  exact ((breeds_schemaTo (t.depthBound .null)).definition ht.after.1 ht.grounded).mono
    (fun _ hu => hu) (fun _ _ hu => ht.append hu.1) fun _ _ _ => trivial

theorem yields_schema (s : Reading) (data : Json) :
    Yields (Bred none s) (fun _ => Bred none s) (schema data) := by
  refine leads_get_bind fun t ht => ?_
  exact ((breeds_schemaTo (t.depthBound data)).leads ht.after.1 ht.grounded [] data).mono
    (fun _ hu => hu) (fun _ _ hu => ht.append hu.1) fun _ _ _ => trivial

/-- Null may be admitted by the node of a schema that is spelled out. -/
theorem yields_plain (s : Reading) {members : List (String × Json)} (hplain : Plain members) :
    Yields (Bred none s) (fun made t => Bred none s t ∧ ∀ id, made = some id →
      Bred none s { t with graph := t.graph.modify id fun n => { n with nullable := true } })
      (schema (.obj members)) := by
  refine leads_get_bind fun t ht => ?_
  rintro _ rfl
  refine ⟨fun made u hrun => ?_, fun _ _ _ => trivial⟩
  obtain ⟨hbred, hplaced⟩ := ((breeds_schemaTo (t.depthBound (.obj members))).leads ht.after.1
    ht.grounded [] (.obj members) t rfl).1 made u hrun
  refine ⟨ht.append hbred, ?_⟩
  rintro id rfl
  have hunnamed := typeName_of_schemaTo ht.after.1 hplain hrun
  have hchanged := (hplaced id rfl).change (f := fun n => { n with nullable := true }) hunnamed
    (fun _ => rfl) fun _ hnext => hnext
  exact ht.append hchanged.bred

theorem Bred.define (h : Bred none s t) (name data : Json) :
    Bred none s { t with definitions := Entries.putNew t.definitions name data } :=
  ⟨h.after.define name data, h.grounded, h.links, fun hname => (h.formed hname).imp_right
    fun hnew => hnew.imp_right fun hformed => hformed.keep (h.after.1.after.define name data)⟩

theorem serves_bred (s : Reading) : Serves s.source (Bred none s) fun _ _ => True := by
  refine ⟨⟨fun ht => ht.after.2.source, fun event ht => ht.note _, fun _ => trivial,
    fun _ => yields_schema s _, fun {members} _ _ => yields_plain s (plain_inline members)⟩, ?_⟩
  intro name code data _ _
  refine leads_bind (R := fun _ => Bred none s) ?_ fun _ => yields_namedSchema s (.str name)
  exact leads_modify fun t ht => ht.1.define _ _

/-- A document that has been read has a graph in which nodes have one parent, and each of its
definitions has been read. -/
theorem bred_of_read (h : Reading.read reader data = (.ok document, s)) :
    ∃ defs t, Json.definitions data = .ok defs ∧ Bred none (reader.begin data defs) t
      ∧ document.schemas = t.named ∧ document.graph = t.graph := by
  obtain ⟨defs, t, u, operations, hdefs, hloop, hoperations, -, hschemas, hgraph⟩ := document_ok h
  have hstart : Bred none (reader.begin data defs) (reader.begin data defs) := by
    refine .refl (sound_begin reader data defs) ⟨?_, ?_, ?_⟩
    · intro id next hnext
      exact absurd hnext (Graph.not_follows_of_le (Nat.zero_le id))
    · intro id other child hid
      exact absurd hid (Graph.not_follows_of_le (Nat.zero_le id))
    · intro id hname
      rw [Graph.node_eq_default _ (Nat.zero_le id)] at hname
      exact absurd rfl hname
  have hread : Yields (Bred none (reader.begin data defs))
      (fun _ => Bred none (reader.begin data defs)) (readDefinitions defs) :=
    leads_forIn fun entry _ => yields_namedSchema _ entry.1
  have ht := (hread _ hstart).1 _ _ hloop
  have hu := ((serves_bred (reader.begin data defs)).operations t ht).1 _ _ hoperations
  exact ⟨defs, u, hdefs, hu.1, hschemas, hgraph⟩

end

end Reading

end ApiClients
