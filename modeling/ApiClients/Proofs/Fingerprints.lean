import ApiClients.Proofs.OrderedEntries
import ApiClients.Proofs.Reachability
import ApiClients.Schema.Fingerprint

/-!
# What fingerprints depend on

The fingerprint of a node is made of what the node says of itself and of the fingerprints of its
parts, inside which the node is spelled out already (`nestedFingerprint_eq`).  So it depends on the
nodes within reach alone.
-/

namespace ApiClients

/-! ### Lists of results -/

section

variable {ε α β : Type} {f g : α → Except ε β} {as : List α}

theorem mapM_congr (h : ∀ a ∈ as, f a = g a) : as.mapM f = as.mapM g := by
  induction as with
  | nil => rfl
  | cons a as ih =>
    rw [List.mapM_cons, List.mapM_cons, h a List.mem_cons_self,
      ih fun a' ha' => h a' (List.mem_cons_of_mem a ha')]

theorem mapM_cases (f : α → Except ε β) (as : List α) :
    (∃ e, as.mapM f = .error e ∧ ∃ a ∈ as, f a = .error e)
      ∨ ∃ bs, as.mapM f = .ok bs ∧ ∀ a ∈ as, ∃ b, f a = .ok b := by
  induction as with
  | nil => exact Or.inr ⟨[], rfl, fun _ ha => by cases ha⟩
  | cons a as ih =>
    rw [List.mapM_cons]
    cases hfirst : f a with
    | error e => exact Or.inl ⟨e, rfl, a, List.mem_cons_self, hfirst⟩
    | ok b =>
      rcases ih with ⟨e, hrest, a', ha', herror⟩ | ⟨bs, hrest, hall⟩
      · rw [hrest]
        exact Or.inl ⟨e, rfl, a', List.mem_cons_of_mem a ha', herror⟩
      · rw [hrest]
        refine Or.inr ⟨b :: bs, rfl, fun a' ha' => ?_⟩
        rcases List.mem_cons.mp ha' with rfl | ha'
        · exact ⟨b, hfirst⟩
        · exact hall a' ha'

end

/-! ### Parts -/

/-- The nodes that a node is spelled out with: what it stands for, or else all that it refers to. -/
def Node.parts (node : Node) : List NodeId :=
  match node.reference with
  | some target => [target]
  | none => node.children

theorem Node.mem_parts {node : Node} (href : node.reference = none) {child : NodeId} :
    child ∈ node.parts ↔ node.items = some child ∨ node.additional = .shape child
      ∨ ∃ name, (name, child) ∈ node.properties := by
  simp [parts, href, mem_children]

theorem Node.mem_parts_reference {node : Node} {target : NodeId}
    (href : node.reference = some target) {child : NodeId} :
    child ∈ node.parts ↔ child = target := by
  simp [parts, href]

theorem Node.parts_subset (node : Node) {child : NodeId} (h : child ∈ node.parts) :
    child ∈ node.children := by
  cases href : node.reference with
  | some target =>
    obtain rfl := (mem_parts_reference href).mp h
    exact mem_children.mpr (Or.inl href)
  | none => exact mem_children.mpr (Or.inr ((mem_parts href).mp h))

/-- A node that is named where it is met in another one. -/
def Node.isOpaque (node : Node) : Bool := node.reference.isNone && node.isTypeDefinition

namespace Graph

section

variable (inner : NodeId → Except Failure Fingerprint) (node : Node)

def spellItems : Except Failure Fingerprint :=
  match node.items with
  | none => .ok .unsaid
  | some child => inner child

def spellAdditional : Except Failure Fingerprint :=
  match node.additional with
  | .unsaid => .ok .unsaid
  | .allowed yes => .ok (.allowed yes)
  | .shape child => inner child

def spellProperties : Except Failure (List (String × Fingerprint)) :=
  (Entries.sortByKey node.properties).mapM fun entry => do
    return (entry.1, ← inner entry.2)

/-- A node spelled out, given the fingerprints of its parts. -/
def spell : Except Failure Fingerprint :=
  match node.reference with
  | some target => do
    return .reference node.nullable (← inner target)
  | none => do
    let items ← spellItems inner node
    let additional ← spellAdditional inner node
    let properties ← spellProperties inner node
    match Json.sort? node.required with
    | none => .error .malformed
    | some required => return .shape (outline node required) items additional properties

end

section

variable {graph : Graph} {path : List NodeId} {top : Bool} {id : NodeId}

theorem nestedFingerprint_eq (graph : Graph) (path : List NodeId) (top : Bool) (id : NodeId) :
    graph.nestedFingerprint path top id =
      if (graph.node id).isOpaque && !top then .ok (.named (graph.node id).typeName.normal)
      else if id ∈ path then .error .endless
      else if id < graph.size then
        spell (graph.nestedFingerprint (id :: path) false) (graph.node id)
      else .ok (.shape (outline (graph.node id) []) .unsaid .unsaid []) := by
  rw [nestedFingerprint]
  unfold spell spellItems spellAdditional
  generalize graph.node id = node
  obtain ⟨_, _, items, additional, _, _, _, _, _, _, _, _⟩ := node
  cases items <;> cases additional <;> rfl

/-- Induction over the nodes that are spelled out around one another. -/
theorem nested_induction (graph : Graph) {motive : List NodeId → NodeId → Prop}
    (h : ∀ path id, (id ∉ path → id < graph.size → ∀ child, motive (id :: path) child) →
      motive path id) (path : List NodeId) (id : NodeId) : motive path id := by
  induction hunseen : graph.unseen path using Nat.strongRecOn generalizing path id with
  | ind unseen ih =>
    refine h path id fun hfresh hlt child => ?_
    exact ih _ (hunseen ▸ graph.unseen_cons_lt hfresh hlt) _ child rfl

end

/-! ### Spelling out -/

section

variable {inner inner' : NodeId → Except Failure Fingerprint} {node : Node}

theorem spell_congr (h : ∀ child ∈ node.parts, inner child = inner' child) :
    spell inner node = spell inner' node := by
  unfold spell
  cases href : node.reference with
  | some target => simp only [h target ((Node.mem_parts_reference href).mpr rfl)]
  | none =>
    have hitems : spellItems inner node = spellItems inner' node := by
      unfold spellItems
      split
      · rfl
      · rename_i child hchild
        exact h child ((Node.mem_parts href).mpr (Or.inl hchild))
    have hadditional : spellAdditional inner node = spellAdditional inner' node := by
      unfold spellAdditional
      split
      · rfl
      · rfl
      · rename_i child hchild
        exact h child ((Node.mem_parts href).mpr (Or.inr (Or.inl hchild)))
    have hproperties : spellProperties inner node = spellProperties inner' node :=
      mapM_congr fun entry hentry => by
        rw [h entry.2 ((Node.mem_parts href).mpr (Or.inr (Or.inr ⟨entry.1,
          Entries.mem_sortByKey.mp hentry⟩)))]
    rw [hitems, hadditional, hproperties]

theorem spellProperties_error {e : Failure} (h : spellProperties inner node = .error e) :
    ∃ name child, (name, child) ∈ node.properties ∧ inner child = .error e := by
  rcases mapM_cases (fun entry : String × NodeId => do return (entry.1, ← inner entry.2))
      (Entries.sortByKey node.properties) with ⟨e', herror, ⟨name, child⟩, hentry, hfails⟩ | ⟨_, hok, -⟩
  · cases herror.symm.trans h
    refine ⟨name, child, Entries.mem_sortByKey.mp hentry, ?_⟩
    cases hchild : inner child with
    | error e' =>
      simp only [hchild] at hfails
      cases hfails
      rfl
    | ok fingerprint =>
      simp only [hchild] at hfails
      cases hfails
  · cases hok.symm.trans h

theorem spellProperties_ok {properties : List (String × Fingerprint)}
    (h : spellProperties inner node = .ok properties) {name : String} {child : NodeId}
    (hchild : (name, child) ∈ node.properties) : ∃ fingerprint, inner child = .ok fingerprint := by
  rcases mapM_cases (fun entry : String × NodeId => do return (entry.1, ← inner entry.2))
      (Entries.sortByKey node.properties) with ⟨e, herror, -⟩ | ⟨_, -, hall⟩
  · cases herror.symm.trans h
  · obtain ⟨_, hentry⟩ := hall _ (Entries.mem_sortByKey.mpr hchild)
    cases hinner : inner child with
    | error e =>
      simp only [hinner] at hentry
      cases hentry
    | ok fingerprint => exact ⟨fingerprint, rfl⟩

/-- A node that cannot be spelled out has a part without a fingerprint, or its required names cannot
be sorted. -/
theorem spell_error {e : Failure} (h : spell inner node = .error e) :
    (∃ child ∈ node.parts, inner child = .error e)
      ∨ e = .malformed ∧ Json.sort? node.required = none := by
  unfold spell at h
  cases href : node.reference with
  | some target =>
    rw [href] at h
    cases htarget : inner target with
    | error e' =>
      simp only [htarget] at h
      cases h
      exact Or.inl ⟨target, (Node.mem_parts_reference href).mpr rfl, htarget⟩
    | ok fingerprint =>
      simp only [htarget] at h
      cases h
  | none =>
    rw [href] at h
    cases hitems : spellItems inner node with
    | error e' =>
      simp only [hitems] at h
      cases h
      unfold spellItems at hitems
      split at hitems
      · cases hitems
      · rename_i child hchild
        exact Or.inl ⟨child, (Node.mem_parts href).mpr (Or.inl hchild), hitems⟩
    | ok items =>
      cases hadditional : spellAdditional inner node with
      | error e' =>
        simp only [hitems, hadditional] at h
        cases h
        unfold spellAdditional at hadditional
        split at hadditional
        · cases hadditional
        · cases hadditional
        · rename_i child hchild
          exact Or.inl ⟨child, (Node.mem_parts href).mpr (Or.inr (Or.inl hchild)), hadditional⟩
      | ok additional =>
        cases hproperties : spellProperties inner node with
        | error e' =>
          simp only [hitems, hadditional, hproperties] at h
          cases h
          obtain ⟨name, child, hentry, hchild⟩ := spellProperties_error hproperties
          exact Or.inl ⟨child, (Node.mem_parts href).mpr (Or.inr (Or.inr ⟨name, hentry⟩)), hchild⟩
        | ok properties =>
          cases hsort : Json.sort? node.required with
          | none =>
            simp only [hitems, hadditional, hproperties, hsort] at h
            cases h
            exact Or.inr ⟨rfl, rfl⟩
          | some required =>
            simp only [hitems, hadditional, hproperties, hsort] at h
            cases h

/-- A node is spelled out if its parts are, and its required names can be sorted. -/
theorem spell_total (hparts : ∀ child ∈ node.parts, ∃ part, inner child = .ok part)
    (hsorted : Json.sort? node.required ≠ none) :
    ∃ fingerprint, spell inner node = .ok fingerprint := by
  cases hspell : spell inner node with
  | ok fingerprint => exact ⟨fingerprint, rfl⟩
  | error e =>
    rcases spell_error hspell with ⟨child, hchild, hfails⟩ | ⟨-, hnone⟩
    · obtain ⟨part, hpart⟩ := hparts child hchild
      rw [hpart] at hfails
      cases hfails
    · exact absurd hnone hsorted

/-- All parts of a node that is spelled out have fingerprints. -/
theorem spell_ok {fingerprint : Fingerprint} (h : spell inner node = .ok fingerprint)
    {child : NodeId} (hchild : child ∈ node.parts) : ∃ part, inner child = .ok part := by
  unfold spell at h
  cases href : node.reference with
  | some target =>
    obtain rfl := (Node.mem_parts_reference href).mp hchild
    rw [href] at h
    cases htarget : inner child with
    | error e =>
      simp only [htarget] at h
      cases h
    | ok part => exact ⟨part, rfl⟩
  | none =>
    rw [href] at h
    cases hitems : spellItems inner node with
    | error e =>
      simp only [hitems] at h
      cases h
    | ok items =>
      cases hadditional : spellAdditional inner node with
      | error e =>
        simp only [hitems, hadditional] at h
        cases h
      | ok additional =>
        cases hproperties : spellProperties inner node with
        | error e =>
          simp only [hitems, hadditional, hproperties] at h
          cases h
        | ok properties =>
          rcases (Node.mem_parts href).mp hchild with hchild | hchild | ⟨name, hchild⟩
          · simp only [spellItems, hchild] at hitems
            exact ⟨items, hitems⟩
          · simp only [spellAdditional, hchild] at hadditional
            exact ⟨additional, hadditional⟩
          · exact spellProperties_ok hproperties hchild

end

/-! ### Graphs that begin alike -/

/-- A graph is the beginning of another one: its nodes refer to each other only, and the other one
has them at the same addresses. -/
structure Begins (graph whole : Graph) : Prop where
  closed : ∀ {id child}, id < graph.size → graph.RefersTo id child → child < graph.size
  size : graph.size ≤ whole.size
  kept : ∀ {id}, id < graph.size → whole.node id = graph.node id

namespace Begins

variable {graph whole : Graph}

theorem nestedFingerprint (h : Begins graph whole) (path : List NodeId) (id : NodeId) :
    id < graph.size → ∀ top,
      whole.nestedFingerprint path top id = graph.nestedFingerprint path top id := by
  induction path, id using graph.nested_induction with
  | h path id ih =>
    intro hid top
    rw [nestedFingerprint_eq, nestedFingerprint_eq, h.kept hid]
    by_cases hfresh : id ∈ path
    · simp only [hfresh, if_true]
    · simp only [hfresh, if_false, hid, Nat.lt_of_lt_of_le hid h.size, if_true]
      have hparts : spell (whole.nestedFingerprint (id :: path) false) (graph.node id) =
          spell (graph.nestedFingerprint (id :: path) false) (graph.node id) :=
        spell_congr fun child hchild =>
          ih hfresh hid child (h.closed hid (Node.parts_subset _ hchild)) false
      rw [hparts]

theorem fingerprint (h : Begins graph whole) {id : NodeId} (hid : id < graph.size) :
    whole.fingerprint id = graph.fingerprint id :=
  h.nestedFingerprint [] id hid true

theorem actual (h : Begins graph whole) {id : NodeId} (hid : id < graph.size) :
    whole.actual id = graph.actual id :=
  follow_congr (C := (· < graph.size)) (fun _ _ hlt hnext => h.closed hlt (refersTo_reference hnext))
    (fun _ hlt => congrArg Node.reference (h.kept hlt)) [] hid

theorem visit (h : Begins graph whole) (seen : List NodeId) {waiting : List NodeId}
    (hwaiting : ∀ id ∈ waiting, id < graph.size) :
    whole.visit seen waiting = graph.visit seen waiting
      ∧ ∀ id ∈ graph.visit seen waiting, id < graph.size := by
  induction seen, waiting using visit_induction graph with
  | done seen => simp
  | passed seen id waiting hseen ih =>
    rw [visit_seen hseen, visit_seen hseen]
    exact ih fun other hother => hwaiting other (List.mem_cons_of_mem id hother)
  | met seen id waiting hfresh ih =>
    have hid := hwaiting id List.mem_cons_self
    obtain ⟨hrest, hlt⟩ := ih fun other hother => by
      rcases List.mem_append.mp hother with hchild | hother
      · exact h.closed hid hchild
      · exact hwaiting other (List.mem_cons_of_mem id hother)
    rw [visit_fresh hfresh, visit_fresh hfresh, h.kept hid, hrest]
    refine ⟨rfl, fun other hother => ?_⟩
    rcases List.mem_cons.mp hother with rfl | hother
    · exact hid
    · exact hlt other hother

theorem within_whole (h : Begins graph whole) {roots : List NodeId} {id : NodeId}
    (hroots : ∀ root ∈ roots, root < graph.size) (hid : graph.Within roots id) :
    whole.Within roots id ∧ id < graph.size := by
  obtain ⟨root, hroot, hpath⟩ := hid
  induction hpath with
  | refl => exact ⟨within_root hroot, hroots root hroot⟩
  | tail _ hchild ih =>
    refine ⟨ih.1.step ?_, h.closed ih.2 hchild⟩
    rw [RefersTo, h.kept ih.2]
    exact hchild

/-- Nothing but the beginning is within reach of nodes in it. -/
theorem within (h : Begins graph whole) {roots : List NodeId} {id : NodeId}
    (hroots : ∀ root ∈ roots, root < graph.size) (hid : whole.Within roots id) :
    graph.Within roots id := by
  obtain ⟨root, hroot, hpath⟩ := hid
  induction hpath with
  | refl => exact within_root hroot
  | tail _ hchild ih =>
    rw [RefersTo, h.kept (h.within_whole hroots ih).2] at hchild
    exact ih.step hchild

end Begins

/-- What waits behind some nodes is met after all that these lead to. -/
theorem visit_prefix (graph : Graph) (seen waiting more : List NodeId) :
    graph.visit seen waiting <+: graph.visit seen (waiting ++ more) := by
  induction seen, waiting using visit_induction graph with
  | done seen =>
    rw [visit_nil]
    exact List.nil_prefix
  | passed seen id waiting hseen ih =>
    rw [List.cons_append, visit_seen hseen, visit_seen hseen]
    exact ih
  | met seen id waiting hfresh ih =>
    rw [List.cons_append, visit_fresh hfresh, visit_fresh hfresh, ← List.append_assoc]
    exact List.prefix_cons_inj id |>.mpr ih

end Graph

end ApiClients
