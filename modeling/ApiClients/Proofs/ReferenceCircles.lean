import ApiClients.Proofs.Reachability
import Mathlib.Data.Nat.Find

/-!
# Where chains of references end

The node that carries a shape is found by a loop: it goes from node to node along references and
stops at a node without one, or at a node that it has seen.  A round of the loop is a `Hop`.  Each
hop sees a node of the graph that was not seen before, so there are no more of them than nodes
(`length_seen_le`), and the loop ends at the node that `Graph.follow` gives (`exists_stop`).

Where that is depends on circles alone.  A node on a circle of references is the first to be met
again, so it stands for itself (`actual_of_onCircle`); a node off all circles is never met again and
can be left out (`actual_of_not_onCircle`).  So a chain that does not end is followed to the first of
its nodes that lies on a circle (`exists_first_onCircle`).
-/

namespace ApiClients.Graph

open Relation

variable {graph : Graph}

/-! ### Rounds of the loop -/

/-- Where the loop along references is: the nodes that it has seen, the last one first, and the node
that it has come to. -/
structure Trail where
  seen : List NodeId
  here : NodeId

/-- A round of the loop: there is a reference, and the node has not been seen. -/
inductive Hop (graph : Graph) : Trail → Trail → Prop
  | onward {seen : List NodeId} {id next : NodeId} (href : (graph.node id).reference = some next)
      (hfresh : id ∉ seen) : Hop graph ⟨seen, id⟩ ⟨id :: seen, next⟩

/-- After each hop there is a node less to see for the node more that is seen. -/
theorem Hop.bounded {trail next : Trail} (h : graph.Hop trail next)
    (hbound : trail.seen.length + graph.unseen trail.seen ≤ graph.size) :
    next.seen.length + graph.unseen next.seen ≤ graph.size := by
  cases h with
  | @onward seen id next href hfresh =>
    have hin : id < graph.size := graph.lt_size_of_node_ne fun hnode => by
      rw [hnode] at href
      cases href
    have hless := graph.unseen_cons_lt hfresh hin
    simp only [List.length_cons] at hbound ⊢
    omega

/-- The loop makes no more rounds than there are nodes. -/
theorem length_seen_le {id : NodeId} {trail : Trail}
    (h : ReflTransGen graph.Hop ⟨[], id⟩ trail) : trail.seen.length ≤ graph.size := by
  have hbound : trail.seen.length + graph.unseen trail.seen ≤ graph.size := by
    induction h with
    | refl => simp [unseen]
    | tail _ hhop ih => exact hhop.bounded ih
  omega

/-- The loop stops, and it does so at the node that `follow` gives. -/
theorem exists_stop (graph : Graph) (seen : List NodeId) (id : NodeId) :
    ∃ last, ReflTransGen graph.Hop ⟨seen, id⟩ ⟨last, graph.follow seen id⟩
      ∧ ∀ trail, ¬ graph.Hop ⟨last, graph.follow seen id⟩ trail := by
  induction seen, id using follow_induction graph with
  | last seen id hnone =>
    rw [follow_none _ hnone]
    refine ⟨seen, .refl, fun trail hhop => ?_⟩
    cases hhop with
    | onward href _ =>
      rw [hnone] at href
      cases href
  | back seen id hseen =>
    rw [follow_seen hseen]
    refine ⟨seen, .refl, fun trail hhop => ?_⟩
    cases hhop with
    | onward _ hfresh => exact hfresh hseen
  | onward seen id next hnext hfresh ih =>
    rw [follow_next hnext hfresh]
    obtain ⟨last, hrun, hstop⟩ := ih
    exact ⟨last, .head (.onward hnext hfresh) hrun, hstop⟩

/-! ### Places in a chain -/

/-- The node that `k` references lead to, if the chain of references is so long. -/
def chainAt (graph : Graph) : NodeId → Nat → Option NodeId
  | id, 0 => some id
  | id, k + 1 => (graph.node id).reference.bind fun next => graph.chainAt next k

theorem chainAt_succ {id next : NodeId} (h : graph.StandsFor id next) (k : Nat) :
    graph.chainAt id (k + 1) = graph.chainAt next k := by
  rw [chainAt, h, Option.bind_some]

theorem chainAt_succ_eq_some {id node : NodeId} {k : Nat} :
    graph.chainAt id (k + 1) = some node ↔
      ∃ next, graph.StandsFor id next ∧ graph.chainAt next k = some node :=
  Option.bind_eq_some_iff

theorem exists_chainAt {id node : NodeId} :
    (∃ k, graph.chainAt id k = some node) ↔ ReflTransGen graph.StandsFor id node := by
  constructor
  · rintro ⟨k, hk⟩
    induction k generalizing id with
    | zero =>
      cases hk
      exact .refl
    | succ k ih =>
      obtain ⟨next, hnext, hrest⟩ := chainAt_succ_eq_some.mp hk
      exact .head hnext (ih hrest)
  · intro h
    induction h using ReflTransGen.head_induction_on with
    | refl => exact ⟨0, rfl⟩
    | head hnext _ ih =>
      obtain ⟨k, hk⟩ := ih
      exact ⟨k + 1, chainAt_succ_eq_some.mpr ⟨_, hnext, hk⟩⟩

/-! ### Circles -/

/-- References lead from a node back to it. -/
def OnCircle (graph : Graph) (id : NodeId) : Prop := TransGen graph.StandsFor id id

theorem follow_reached (graph : Graph) (seen : List NodeId) (id : NodeId) :
    ReflTransGen graph.StandsFor id (graph.follow seen id) :=
  follow_mem (C := ReflTransGen graph.StandsFor id) (fun _ _ hid hnext => hid.tail hnext) seen .refl

/-- A chain stops at a node seen that it comes to, if it comes to it from every other node seen by a
longer way only. -/
theorem follow_of_chainAt {seen : List NodeId} {id start : NodeId} {n : Nat} (hid : id ∈ seen)
    (hfar : ∀ old ∈ seen, old ≠ id → ∀ m ≤ n, graph.chainAt old m ≠ some id)
    (hn : graph.chainAt start n = some id) (hfirst : ∀ m < n, graph.chainAt start m ≠ some id) :
    graph.follow seen start = id := by
  induction n generalizing seen start with
  | zero =>
    cases hn
    exact follow_seen hid
  | succ n ih =>
    have hne : start ≠ id := fun heq => hfirst 0 (Nat.succ_pos n) (congrArg some heq)
    have hfresh : start ∉ seen := fun hseen => hfar start hseen hne (n + 1) (Nat.le_refl _) hn
    obtain ⟨next, hnext, hrest⟩ := chainAt_succ_eq_some.mp hn
    rw [follow_next hnext hfresh]
    refine ih (List.mem_cons_of_mem start hid) ?_ hrest fun m hm => ?_
    · intro old hold hne m hm
      rcases List.mem_cons.mp hold with rfl | hold
      · exact hfirst m (by omega)
      · exact hfar old hold hne m (by omega)
    · rw [← chainAt_succ hnext m]
      exact hfirst (m + 1) (by omega)

/-- A node on a circle is the first node of the chain to be met again, so it stands for itself. -/
theorem actual_of_onCircle {id : NodeId} (h : graph.OnCircle id) : graph.actual id = id := by
  obtain ⟨next, hnext, hback⟩ := TransGen.head'_iff.mp h
  have hreturns := exists_chainAt.mpr hback
  rw [actual, follow_next hnext (List.not_mem_nil)]
  refine follow_of_chainAt List.mem_cons_self ?_ (Nat.find_spec hreturns) fun m hm =>
    Nat.find_min hreturns hm
  intro old hold hne
  exact absurd (List.mem_singleton.mp hold) hne

/-- A node off all circles makes no difference to what is met after it. -/
theorem actual_of_not_onCircle {id next : NodeId} (h : ¬ graph.OnCircle id)
    (hnext : graph.StandsFor id next) : graph.actual id = graph.actual next := by
  have hleft : graph.follow ([] ++ [id]) next ∉ [id] := by
    intro hmem
    have hreached := follow_reached graph ([] ++ [id]) next
    rw [List.mem_singleton.mp hmem] at hreached
    exact h (TransGen.head' hnext hreached)
  rw [actual, follow_next hnext (List.not_mem_nil), actual, follow_of_append [] [id] next hleft,
    List.nil_append]

/-- The nodes of a chain ahead of the first one on a circle can be left out. -/
theorem actual_of_chainAt {id node : NodeId} {k : Nat} (hk : graph.chainAt id k = some node)
    (hoff : ∀ j < k, ∀ other, graph.chainAt id j = some other → ¬ graph.OnCircle other) :
    graph.actual id = graph.actual node := by
  induction k generalizing id with
  | zero =>
    cases hk
    rfl
  | succ k ih =>
    obtain ⟨next, hnext, hrest⟩ := chainAt_succ_eq_some.mp hk
    rw [actual_of_not_onCircle (hoff 0 (Nat.succ_pos k) id rfl) hnext]
    refine ih hrest fun j hj other hother => hoff (j + 1) (by omega) other ?_
    rw [chainAt_succ hnext, hother]

/-- A chain that does not end comes to a circle. -/
theorem onCircle_actual {id : NodeId} (h : (graph.node (graph.actual id)).reference ≠ none) :
    graph.OnCircle (graph.actual id) := by
  rcases follow_end graph [] id with hnone | hmem | ⟨before, hfresh, hloop⟩
  · exact absurd hnone h
  · cases hmem
  · obtain ⟨next, hnext⟩ := Option.ne_none_iff_exists'.mp h
    have hsame : graph.follow before (graph.actual id) = graph.actual id := hloop
    have hback := follow_reached graph (graph.actual id :: before) next
    rw [← follow_next hnext hfresh, hsame] at hback
    exact TransGen.head' hnext hback

/-- A chain that does not end is followed to its first node on a circle. -/
theorem exists_first_onCircle {id : NodeId}
    (h : (graph.node (graph.actual id)).reference ≠ none) :
    ∃ k, graph.chainAt id k = some (graph.actual id) ∧ graph.OnCircle (graph.actual id)
      ∧ ∀ j < k, ∀ node, graph.chainAt id j = some node → ¬ graph.OnCircle node := by
  classical
  have hcircle : ∃ k node, graph.chainAt id k = some node ∧ graph.OnCircle node := by
    obtain ⟨k, hk⟩ := exists_chainAt.mpr (follow_reached graph [] id)
    exact ⟨k, graph.actual id, hk, onCircle_actual h⟩
  obtain ⟨node, hnode, hon⟩ := Nat.find_spec hcircle
  have hoff : ∀ j < Nat.find hcircle, ∀ other, graph.chainAt id j = some other →
      ¬ graph.OnCircle other :=
    fun j hj other hother hother' => Nat.find_min hcircle hj ⟨other, hother, hother'⟩
  have hactual : graph.actual id = node := by
    rw [actual_of_chainAt hnode hoff, actual_of_onCircle hon]
  rw [hactual]
  exact ⟨Nat.find hcircle, hnode, hon, hoff⟩

/-- Looking for the node that carries the shape of a node ends, after no more rounds than there are
nodes.  If the chain of references comes to a node without one, it is this node; otherwise it is the
first node of the chain that lies on a circle.  In both cases it stands for itself. -/
theorem references_end (graph : Graph) (id : NodeId) :
    (∃ seen, ReflTransGen graph.Hop ⟨[], id⟩ ⟨seen, graph.actual id⟩
        ∧ (∀ trail, ¬ graph.Hop ⟨seen, graph.actual id⟩ trail) ∧ seen.length ≤ graph.size)
      ∧ (∀ k last, graph.chainAt id k = some last → (graph.node last).reference = none →
          graph.actual id = last)
      ∧ ((¬ ∃ k last, graph.chainAt id k = some last ∧ (graph.node last).reference = none) →
          ∃ k, graph.chainAt id k = some (graph.actual id) ∧ graph.OnCircle (graph.actual id)
            ∧ ∀ j < k, ∀ node, graph.chainAt id j = some node → ¬ graph.OnCircle node)
      ∧ graph.actual (graph.actual id) = graph.actual id := by
  refine ⟨?ends, ?without, ?circle, actual_actual graph id⟩
  case ends =>
    obtain ⟨seen, hrun, hstop⟩ := exists_stop graph [] id
    exact ⟨seen, hrun, hstop, length_seen_le hrun⟩
  case without =>
    intro k last hk hlast
    exact actual_of_end (exists_chainAt.mp ⟨k, hk⟩) hlast
  case circle =>
    intro hendless
    refine exists_first_onCircle fun hnone => hendless ?_
    obtain ⟨k, hk⟩ := exists_chainAt.mpr (follow_reached graph [] id)
    exact ⟨k, graph.actual id, hk, hnone⟩

/-- A chain into a circle of two nodes, and a chain of two nodes that ends. -/
def lasso : Graph :=
  ⟨#[{ reference := some 1 }, { reference := some 2 }, { reference := some 1 },
    { reference := some 4 }, {}]⟩

theorem chainAt_lasso {id : NodeId} (h : id = 1 ∨ id = 2) (k : Nat) :
    lasso.chainAt id k = some 1 ∨ lasso.chainAt id k = some 2 := by
  induction k generalizing id with
  | zero => rcases h with rfl | rfl <;> simp [chainAt]
  | succ k ih =>
    rcases h with rfl | rfl
    · rw [chainAt_succ (show lasso.StandsFor 1 2 from rfl)]
      exact ih (Or.inr rfl)
    · rw [chainAt_succ (show lasso.StandsFor 2 1 from rfl)]
      exact ih (Or.inl rfl)

theorem references_end_lasso :
    lasso.actual 3 = 4
      ∧ (¬ ∃ k last, lasso.chainAt 0 k = some last ∧ (lasso.node last).reference = none)
      ∧ lasso.actual 0 = 1 := by
  have hfirst : lasso.StandsFor 0 1 := rfl
  have hrest : ∀ k, lasso.chainAt 0 (k + 1) = some 1 ∨ lasso.chainAt 0 (k + 1) = some 2 := by
    intro k
    rw [chainAt_succ hfirst]
    exact chainAt_lasso (Or.inl rfl) k
  have hendless :
      ¬ ∃ k last, lasso.chainAt 0 k = some last ∧ (lasso.node last).reference = none := by
    rintro ⟨k, last, hk, hlast⟩
    cases k with
    | zero =>
      cases hk
      cases hlast
    | succ k =>
      rcases hrest k with hlater | hlater <;>
      · rw [hlater] at hk
        cases hk
        cases hlast
  have hoff : ¬ lasso.OnCircle 0 := by
    intro hcircle
    obtain ⟨next, hnext, hback⟩ := TransGen.head'_iff.mp hcircle
    obtain ⟨k, hk⟩ := exists_chainAt.mpr hback
    rw [← chainAt_succ hnext] at hk
    rcases hrest k with hlater | hlater <;>
    · rw [hlater] at hk
      cases hk
  obtain ⟨-, hend, -, -⟩ := references_end lasso 3
  obtain ⟨-, -, hcircle, -⟩ := references_end lasso 0
  obtain ⟨k, hk, hon, hbefore⟩ := hcircle hendless
  refine ⟨hend 1 4 rfl rfl, hendless, ?_⟩
  match k with
  | 0 =>
    rw [← Option.some.inj hk] at hon
    exact absurd hon hoff
  | 1 => exact (Option.some.inj hk).symm
  | k + 2 =>
    have hround : lasso.OnCircle 1 :=
      .head (show lasso.StandsFor 1 2 from rfl) (.single (show lasso.StandsFor 2 1 from rfl))
    exact absurd hround (hbefore 1 (by omega) 1 rfl)

end ApiClients.Graph
