import ApiClients.Proofs.Fingerprints
import Mathlib.Logic.Relation

/-!
# Shapes without an end

A shape that is spelled out comes to an end unless it leads into a circle of nodes none of which is
a type definition.  `Graph.Endless` says so of the graph alone; a node has a fingerprint exactly when
its shape is not endless (`fingerprint_iff`), and the only other obstacle are required names that
cannot be sorted.
-/

namespace ApiClients

/-! ### Names that can be sorted -/

namespace Json

def isText : Json → Bool
  | .str _ => true
  | _ => false

theorem isText_iff {value : Json} : value.isText = true ↔ ∃ text, value = .str text := by
  cases value <;> simp [isText]

theorem insertSorted?_texts {text : String} {sorted : List Json}
    (h : ∀ value ∈ sorted, value.isText = true) :
    ∃ more, insertSorted? (.str text) sorted = some more ∧ ∀ value ∈ more, value.isText = true := by
  induction sorted with
  | nil => exact ⟨_, rfl, by simp [isText]⟩
  | cons first rest ih =>
    obtain ⟨other, rfl⟩ := isText_iff.mp (h first List.mem_cons_self)
    obtain ⟨more, hmore, htexts⟩ := ih fun value hvalue => h value (List.mem_cons_of_mem _ hvalue)
    unfold insertSorted?
    by_cases hless : text < other
    · refine ⟨.str text :: .str other :: rest, by simp [less?, hless], ?_⟩
      exact List.forall_mem_cons.mpr ⟨rfl, h⟩
    · refine ⟨.str other :: more, by simp [less?, hless, hmore], ?_⟩
      exact List.forall_mem_cons.mpr ⟨rfl, htexts⟩

/-- Texts can be sorted. -/
theorem sort?_texts {values : List Json} (h : ∀ value ∈ values, value.isText = true) :
    sort? values ≠ none := by
  have hfold : ∀ sorted : List Json, (∀ value ∈ sorted, value.isText = true) →
      values.foldl (fun sorted value => sorted.bind (insertSorted? value.normal)) (some sorted)
        ≠ none := by
    induction values with
    | nil => exact fun _ _ => by simp
    | cons first rest ih =>
      intro sorted hsorted
      obtain ⟨text, rfl⟩ := isText_iff.mp (h first List.mem_cons_self)
      obtain ⟨more, hmore, htexts⟩ := @insertSorted?_texts text sorted hsorted
      have hnormal : (Json.str text).normal = .str text := by simp [normal]
      rw [List.foldl_cons, Option.bind_some, hnormal, hmore]
      exact ih (fun value hvalue => h value (List.mem_cons_of_mem _ hvalue)) more htexts
  exact hfold [] fun _ hvalue => by cases hvalue

end Json

/-! ### Circles -/

namespace Graph

open Relation

/-- A node that is spelled out where it is met, and one of its parts. -/
def Inlines (graph : Graph) (id child : NodeId) : Prop :=
  (graph.node id).isOpaque = false ∧ child ∈ (graph.node id).parts

instance (graph : Graph) (id child : NodeId) : Decidable (graph.Inlines id child) :=
  inferInstanceAs (Decidable (_ ∧ _))

/-- A node leads into a circle of nodes that are all spelled out where they are met. -/
def Circles (graph : Graph) (id : NodeId) : Prop :=
  ∃ x, ReflTransGen graph.Inlines id x ∧ TransGen graph.Inlines x x

/-- The shape of a node has no end: one of its parts leads into such a circle. -/
def Endless (graph : Graph) (id : NodeId) : Prop :=
  ∃ child ∈ (graph.node id).parts, graph.Circles child

section

variable {graph : Graph} {path : List NodeId} {id child : NodeId}

theorem Circles.of_inlines (hstep : graph.Inlines id child) (h : graph.Circles child) :
    graph.Circles id := by
  obtain ⟨x, hpath, hcircle⟩ := h
  exact ⟨x, hpath.head hstep, hcircle⟩

/-- A circle that a node leads into is one that a part of it leads into, the node being spelled out
itself. -/
theorem Circles.part (h : graph.Circles id) :
    ∃ child, graph.Inlines id child ∧ graph.Circles child := by
  obtain ⟨x, hpath, hcircle⟩ := h
  rcases hpath.cases_head with rfl | ⟨child, hstep, hrest⟩
  · obtain ⟨child, hstep, hback⟩ := TransGen.head'_iff.mp hcircle
    exact ⟨child, hstep, id, hback, hcircle⟩
  · exact ⟨child, hstep, x, hrest, hcircle⟩

theorem nestedFingerprint_of_named (hid : (graph.node id).isOpaque = true) :
    graph.nestedFingerprint path false id = .ok (.named (graph.node id).typeName.normal) := by
  rw [nestedFingerprint_eq, hid]
  rfl

/-- How a node is met that is spelled out: inside itself, within the graph or outside it. -/
theorem nestedFingerprint_of_spelled {top : Bool}
    (hid : (graph.node id).isOpaque = false ∨ top = true) :
    graph.nestedFingerprint path top id =
      if id ∈ path then .error .endless
      else if id < graph.size then
        spell (graph.nestedFingerprint (id :: path) false) (graph.node id)
      else .ok (.shape (outline (graph.node id) []) .unsaid .unsaid []) := by
  rw [nestedFingerprint_eq, if_neg]
  rcases hid with hid | rfl <;> simp_all

/-- Outside a graph nothing has parts. -/
theorem parts_of_size_le (hid : graph.size ≤ id) : (graph.node id).parts = [] := by
  rw [graph.node_eq_default hid]
  rfl

/-- A node that is spelled out has a fingerprint only if it leads into no circle. -/
theorem not_circles_of_ok (path : List NodeId) (id : NodeId) {fingerprint : Fingerprint}
    (h : graph.nestedFingerprint path false id = .ok fingerprint) : ¬ graph.Circles id := by
  induction path, id using graph.nested_induction generalizing fingerprint with
  | h path id ih =>
    intro hcircles
    obtain ⟨child, ⟨hspelled, hchild⟩, hinner⟩ := hcircles.part
    rw [nestedFingerprint_of_spelled (Or.inl hspelled)] at h
    by_cases hpath : id ∈ path
    · rw [if_pos hpath] at h
      cases h
    · by_cases hlt : id < graph.size
      · rw [if_neg hpath, if_pos hlt] at h
        obtain ⟨part, hpart⟩ := spell_ok h hchild
        exact ih hpath hlt child hpart hinner
      · rw [parts_of_size_le (Nat.le_of_not_lt hlt)] at hchild
        cases hchild

/-- A node that leads into no circle has a fingerprint, if each node around it is named where it is
met or leads to it. -/
theorem ok_of_not_circles (hsorted : ∀ id, Json.sort? (graph.node id).required ≠ none)
    (path : List NodeId) (id : NodeId)
    (haround : ∀ y ∈ path, (graph.node y).isOpaque = true ∨ TransGen graph.Inlines y id)
    (h : ¬ graph.Circles id) :
    ∃ fingerprint, graph.nestedFingerprint path false id = .ok fingerprint := by
  induction path, id using graph.nested_induction with
  | h path id ih =>
    cases hnamed : (graph.node id).isOpaque with
    | true => exact ⟨_, nestedFingerprint_of_named hnamed⟩
    | false =>
      have hfresh : id ∉ path := by
        intro hpath
        rcases haround id hpath with haway | hcircle
        · rw [hnamed] at haway
          cases haway
        · exact h ⟨id, .refl, hcircle⟩
      rw [nestedFingerprint_of_spelled (Or.inl hnamed), if_neg hfresh]
      by_cases hlt : id < graph.size
      · rw [if_pos hlt]
        refine spell_total (fun child hchild => ?_) (hsorted id)
        have hstep : graph.Inlines id child := ⟨hnamed, hchild⟩
        refine ih hfresh hlt child (fun y hy => ?_) fun hinner => h (hinner.of_inlines hstep)
        rcases List.mem_cons.mp hy with rfl | hy
        · exact Or.inr (.single hstep)
        · exact (haround y hy).imp_right (·.tail hstep)
      · rw [if_neg hlt]
        exact ⟨_, rfl⟩

/-- A fingerprint fails for want of an end, or because some required names cannot be sorted. -/
theorem nested_error (path : List NodeId) (id : NodeId) {top : Bool} {e : Failure}
    (h : graph.nestedFingerprint path top id = .error e) :
    e = .endless ∨ e = .malformed ∧ ∃ other, Json.sort? (graph.node other).required = none := by
  induction path, id using graph.nested_induction generalizing top with
  | h path id ih =>
    rw [nestedFingerprint_eq] at h
    split at h
    · cases h
    · split at h
      · cases h
        exact .inl rfl
      · rename_i hfresh
        split at h
        · rename_i hlt
          rcases spell_error h with ⟨child, -, hchild⟩ | ⟨hmalformed, hnone⟩
          · exact ih hfresh hlt child hchild
          · exact .inr ⟨hmalformed, id, hnone⟩
        · cases h

theorem eq_endless_of_error (hsorted : ∀ id, Json.sort? (graph.node id).required ≠ none)
    (path : List NodeId) (id : NodeId) {top : Bool} {e : Failure}
    (h : graph.nestedFingerprint path top id = .error e) : e = .endless :=
  (nested_error path id h).resolve_right fun ⟨_, other, hnone⟩ => hsorted other hnone

/-- A node has a fingerprint exactly when its shape has an end. -/
theorem fingerprint_iff (hsorted : ∀ id, Json.sort? (graph.node id).required ≠ none)
    (id : NodeId) :
    (∃ fingerprint, graph.fingerprint id = .ok fingerprint) ↔ ¬ graph.Endless id := by
  rw [fingerprint, nestedFingerprint_of_spelled (Or.inr rfl), if_neg List.not_mem_nil]
  by_cases hlt : id < graph.size
  · rw [if_pos hlt]
    constructor
    · rintro ⟨fingerprint, hspell⟩ ⟨child, hchild, hcircles⟩
      obtain ⟨part, hpart⟩ := spell_ok hspell hchild
      exact not_circles_of_ok _ child hpart hcircles
    · intro hends
      refine spell_total (fun child hchild => ?_) (hsorted id)
      refine ok_of_not_circles hsorted [id] child (fun y hy => ?_) fun hcircles =>
        hends ⟨child, hchild, hcircles⟩
      obtain rfl := List.mem_singleton.mp hy
      cases hnamed : (graph.node y).isOpaque with
      | true => exact Or.inl rfl
      | false => exact Or.inr (.single ⟨hnamed, hchild⟩)
  · rw [if_neg hlt]
    refine iff_of_true ⟨_, rfl⟩ ?_
    rintro ⟨child, hchild, -⟩
    rw [parts_of_size_le (Nat.le_of_not_lt hlt)] at hchild
    cases hchild

/-- The one obstacle to a fingerprint is a shape without an end. -/
theorem fingerprint_error (hsorted : ∀ id, Json.sort? (graph.node id).required ≠ none)
    {e : Failure} (h : graph.fingerprint id = .error e) : e = .endless ∧ graph.Endless id := by
  refine ⟨eq_endless_of_error hsorted [] id h, Classical.not_not.mp fun hends => ?_⟩
  obtain ⟨fingerprint, hok⟩ := (fingerprint_iff hsorted id).mpr hends
  rw [h] at hok
  cases hok

end

end Graph

end ApiClients
