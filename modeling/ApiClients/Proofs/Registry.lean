import ApiClients.Types.Expression
import ApiClients.Proofs.Numbering
import ApiClients.Proofs.Steps

/-!
# The registry of emitted names stays consistent

The registry keeps three tables: the emitted names of nodes, the shapes met under each name of a
definition, and the definitions to emit.  They are filled lazily, by resolving types, and eagerly,
by registering nodes, and both may fail halfway.  What ties the tables together is
`Registry.Consistent`: a name in use is emitted, and it stands for one name of a definition and
one shape.  Naming one node is the only step that fills the tables; `assign_run` lists all it can
do, and everything else follows from that list.
-/

namespace ApiClients

namespace Registry

/-! ### What naming a node can do -/

/-- The registry with a node more under a name that is emitted already. -/
def share (registry : Registry) (id : NodeId) (name : String) : Registry :=
  { registry with names := registry.names ++ [(id, name)] }

/-- The registry with a name more, for a node of a new shape. -/
def emit (registry : Registry) (identity : String) (fingerprint : Fingerprint) (id : NodeId)
    (name : String) : Registry :=
  { registry.addVariant identity (fingerprint, name) with
    definitions := registry.definitions ++ [(name, id)]
    names := registry.names ++ [(id, name)] }

/-- What naming a node comes to: the outcome and the state after it. -/
inductive Assigned (language : Language) (graph : Graph) (id : NodeId) (s : Typing) :
    Except Failure String → Typing → Prop where
  /-- The node has a name. -/
  | known (name : String) (hname : s.registry.nameOf? id = some name) :
      Assigned language graph id s (.ok name) s
  /-- The node has no fingerprint, or no name to be registered under. -/
  | refused (failure : Failure) (hname : s.registry.nameOf? id = none)
      (hreason : graph.fingerprint id = .error failure
        ∨ Registry.identity (graph.node id) = .error failure) :
      Assigned language graph id s (.error failure) s
  /-- The shape has been met under this name before. -/
  | shared (fingerprint : Fingerprint) (identity name : String)
      (hname : s.registry.nameOf? id = none)
      (hfingerprint : graph.fingerprint id = .ok fingerprint)
      (hidentity : Registry.identity (graph.node id) = .ok identity)
      (hvariant : (fingerprint, name) ∈ s.registry.variantsOf identity) :
      Assigned language graph id s (.ok name)
        { s with registry := s.registry.share id name }
  /-- The shape is new under this name. -/
  | fresh (fingerprint : Fingerprint) (identity : String)
      (hname : s.registry.nameOf? id = none)
      (hfingerprint : graph.fingerprint id = .ok fingerprint)
      (hidentity : Registry.identity (graph.node id) = .ok identity)
      (hvariant : ∀ name, (fingerprint, name) ∉ s.registry.variantsOf identity) :
      Assigned language graph id s (.ok (s.registry.freshName language identity))
        { registry := s.registry.emit identity fingerprint id
            (s.registry.freshName language identity)
          journal := s.journal ++
            [.registered identity (s.registry.freshName language identity)] }

theorem assign_run (language : Language) (graph : Graph) (id : NodeId) (s : Typing) :
    Assigned language graph id s (runStep (assign language graph id) s).1
      (runStep (assign language graph id) s).2 := by
  unfold assign
  rw [runStep_bind_of_ok (runStep_get s)]
  cases hname : s.registry.nameOf? id with
  | some name => exact .known name hname
  | none =>
    simp only [Typing.lift]
    rw [runStep_bind, runStep_mk]
    cases hfingerprint : graph.fingerprint id with
    | error failure => exact .refused failure hname (Or.inl hfingerprint)
    | ok fingerprint =>
      simp only []
      rw [runStep_bind, runStep_mk]
      cases hidentity : identity (graph.node id) with
      | error failure => exact .refused failure hname (Or.inr hidentity)
      | ok identity =>
        simp only []
        rw [runStep_bind_of_ok (runStep_get s)]
        cases hfind : (s.registry.variantsOf identity).find? (·.1 = fingerprint) with
        | some variant =>
          obtain ⟨fingerprint', name⟩ := variant
          have hsame : fingerprint' = fingerprint := by simpa using List.find?_some hfind
          have hmem := List.mem_of_find?_eq_some hfind
          rw [hsame] at hmem
          exact .shared fingerprint identity name hname hfingerprint hidentity hmem
        | none =>
          refine .fresh fingerprint identity hname hfingerprint hidentity ?_
          intro name hmem
          have := List.find?_eq_none.mp hfind _ hmem
          simp at this

/-! ### Look-ups after a name is given -/

section Lookups

variable {registry : Registry} {id : NodeId} {name : String}

theorem nameOf?_append (hname : registry.nameOf? id = none) (other : NodeId) :
    Entries.get? (registry.names ++ [(id, name)]) other =
      if other = id then some name else registry.nameOf? other := by
  rw [Entries.get?_append]
  by_cases h : other = id
  · subst h
    show (registry.nameOf? other).or _ = _
    simp [hname, Entries.get?]
  · have hmiss : Entries.get? [(id, name)] other = none := by simp [Entries.get?, Ne.symm h]
    rw [hmiss, if_neg h, Option.or_none]
    rfl

theorem nameOf?_share (hname : registry.nameOf? id = none) (other : NodeId) :
    (registry.share id name).nameOf? other =
      if other = id then some name else registry.nameOf? other :=
  nameOf?_append hname other

theorem nameOf?_emit (identity : String) (fingerprint : Fingerprint)
    (hname : registry.nameOf? id = none) (other : NodeId) :
    (registry.emit identity fingerprint id name).nameOf? other =
      if other = id then some name else registry.nameOf? other :=
  nameOf?_append hname other

theorem variantsOf_emit (identity other : String) (fingerprint : Fingerprint) :
    (registry.emit identity fingerprint id name).variantsOf other =
      if other = identity then registry.variantsOf identity ++ [(fingerprint, name)]
      else registry.variantsOf other := by
  by_cases h : other = identity
  · subst h
    simp [emit, addVariant, variantsOf, Entries.get?_put]
  · simp [emit, addVariant, variantsOf, Entries.get?_put_of_ne h, h]

theorem isTaken_emit (identity other : String) (fingerprint : Fingerprint) :
    (registry.emit identity fingerprint id name).isTaken other =
      (registry.isTaken other || name == other) := by
  simp [emit, isTaken, Entries.has]

/-- A fresh name is the first spelling that is not emitted. -/
theorem freshName_firstFree (registry : Registry) (language : Language) (identity : String) :
    ∃ base, FirstFree registry.isTaken base (registry.freshName language identity) := by
  have hlength : (registry.definitions.map (·.1)).length = registry.definitions.length := by simp
  unfold freshName
  rw [← hlength]
  exact ⟨_, freeName_firstFree id (fun _ h => Entries.has_iff.mp h) (numbered_injective _)⟩

theorem isTaken_freshName (registry : Registry) (language : Language) (identity : String) :
    registry.isTaken (registry.freshName language identity) = false := by
  obtain ⟨_, h⟩ := freshName_firstFree registry language identity
  exact h.free

end Lookups

/-! ### Consistency -/

/-- The tables agree with each other and with the graph. -/
structure Consistent (graph : Graph) (registry : Registry) : Prop where
  /-- The name of a node is one of those of its definition and its shape. -/
  named : ∀ {id name}, registry.nameOf? id = some name → ∃ identity fingerprint,
    Registry.identity (graph.node id) = .ok identity ∧ graph.fingerprint id = .ok fingerprint
      ∧ (fingerprint, name) ∈ registry.variantsOf identity
  emitted : ∀ {identity fingerprint name},
    (fingerprint, name) ∈ registry.variantsOf identity → registry.isTaken name = true
  /-- One definition name and one shape have one emitted name. -/
  single : ∀ {identity fingerprint name name'},
    (fingerprint, name) ∈ registry.variantsOf identity →
      (fingerprint, name') ∈ registry.variantsOf identity → name = name'
  /-- One emitted name has one definition name and one shape. -/
  apart : ∀ {identity identity' fingerprint fingerprint' name},
    (fingerprint, name) ∈ registry.variantsOf identity →
      (fingerprint', name) ∈ registry.variantsOf identity' →
        identity = identity' ∧ fingerprint = fingerprint'
  /-- No name is emitted twice. -/
  distinct : (registry.definitions.map (·.1)).Nodup

theorem Consistent.empty (graph : Graph) : Consistent graph {} where
  named h := by simp [nameOf?] at h
  emitted h := by simp [variantsOf, Entries.get?] at h
  single h := by simp [variantsOf, Entries.get?] at h
  apart h := by simp [variantsOf, Entries.get?] at h
  distinct := List.nodup_nil

section Growth

variable {graph : Graph} {registry : Registry} {id : NodeId} {identity name : String}
  {fingerprint : Fingerprint}

theorem Consistent.share (h : Consistent graph registry) (hname : registry.nameOf? id = none)
    (hfingerprint : graph.fingerprint id = .ok fingerprint)
    (hidentity : Registry.identity (graph.node id) = .ok identity)
    (hvariant : (fingerprint, name) ∈ registry.variantsOf identity) :
    Consistent graph (registry.share id name) where
  named {other name'} hother := by
    rw [nameOf?_share hname] at hother
    by_cases hsame : other = id
    · rw [if_pos hsame, Option.some.injEq] at hother
      subst hsame hother
      exact ⟨identity, fingerprint, hidentity, hfingerprint, hvariant⟩
    · rw [if_neg hsame] at hother
      exact h.named hother
  emitted hv := h.emitted hv
  single hv hv' := h.single hv hv'
  apart hv hv' := h.apart hv hv'
  distinct := h.distinct

/-- A shape under an emitted name: either it was there before, or it is the new one. -/
theorem mem_variantsOf_emit {other : String} {fingerprint' : Fingerprint} {name' : String}
    (h : (fingerprint', name') ∈ (registry.emit identity fingerprint id name).variantsOf other) :
    (fingerprint', name') ∈ registry.variantsOf other
      ∨ other = identity ∧ fingerprint' = fingerprint ∧ name' = name := by
  rw [variantsOf_emit] at h
  by_cases hsame : other = identity
  · rw [if_pos hsame] at h
    rcases List.mem_append.mp h with h | h
    · rw [hsame]
      exact Or.inl h
    · simp only [List.mem_singleton, Prod.mk.injEq] at h
      exact Or.inr ⟨hsame, h.1, h.2⟩
  · rw [if_neg hsame] at h
    exact Or.inl h

theorem mem_variantsOf_emit_of_mem {other : String} {variant : Fingerprint × String}
    (h : variant ∈ registry.variantsOf other) :
    variant ∈ (registry.emit identity fingerprint id name).variantsOf other := by
  rw [variantsOf_emit]
  by_cases hsame : other = identity
  · rw [if_pos hsame, ← hsame]
    exact List.mem_append_left _ h
  · rwa [if_neg hsame]

theorem Consistent.emit (h : Consistent graph registry) (hname : registry.nameOf? id = none)
    (hfingerprint : graph.fingerprint id = .ok fingerprint)
    (hidentity : Registry.identity (graph.node id) = .ok identity)
    (hvariant : ∀ name, (fingerprint, name) ∉ registry.variantsOf identity)
    (hfree : registry.isTaken name = false) :
    Consistent graph (registry.emit identity fingerprint id name) where
  named {other name'} hother := by
    rw [nameOf?_emit identity fingerprint hname] at hother
    by_cases hsame : other = id
    · rw [if_pos hsame, Option.some.injEq] at hother
      subst hsame hother
      refine ⟨identity, fingerprint, hidentity, hfingerprint, ?_⟩
      rw [variantsOf_emit, if_pos rfl]
      exact List.mem_append_right _ List.mem_cons_self
    · rw [if_neg hsame] at hother
      obtain ⟨identity', fingerprint', hidentity', hfingerprint', hmem⟩ := h.named hother
      exact ⟨identity', fingerprint', hidentity', hfingerprint', mem_variantsOf_emit_of_mem hmem⟩
  emitted hv := by
    rw [isTaken_emit]
    rcases mem_variantsOf_emit hv with hv | ⟨_, _, rfl⟩
    · simp [h.emitted hv]
    · simp
  single hv hv' := by
    rcases mem_variantsOf_emit hv with hold | ⟨rfl, rfl, rfl⟩
    · rcases mem_variantsOf_emit hv' with hold' | ⟨rfl, rfl, rfl⟩
      · exact h.single hold hold'
      · exact absurd hold (hvariant _)
    · rcases mem_variantsOf_emit hv' with hold' | ⟨_, _, rfl⟩
      · exact absurd hold' (hvariant _)
      · rfl
  apart hv hv' := by
    -- the new name is not emitted before, so it is not among the old shapes
    have hnew : ∀ {other : String} {fingerprint' : Fingerprint},
        (fingerprint', name) ∉ registry.variantsOf other := by
      intro other fingerprint' hmem
      rw [h.emitted hmem] at hfree
      cases hfree
    rcases mem_variantsOf_emit hv with hold | ⟨rfl, rfl, rfl⟩
    · rcases mem_variantsOf_emit hv' with hold' | ⟨rfl, rfl, rfl⟩
      · exact h.apart hold hold'
      · exact absurd hold hnew
    · rcases mem_variantsOf_emit hv' with hold' | ⟨rfl, rfl, _⟩
      · exact absurd hold' hnew
      · exact ⟨rfl, rfl⟩
  distinct := by
    have hmiss : name ∉ registry.definitions.map (·.1) := by
      intro hmem
      rw [isTaken, Entries.has_iff.mpr hmem] at hfree
      cases hfree
    show ((registry.definitions ++ [(name, id)]).map (·.1)).Nodup
    rw [List.map_append]
    refine List.nodup_append.mpr ⟨h.distinct, by simp, ?_⟩
    rintro other hother same hsame rfl
    rw [List.mem_singleton.mp hsame] at hother
    exact hmiss hother

end Growth

/-! ### Names only come in -/

/-- No name is taken back, and the list of definitions only grows at its end. -/
structure Extends (registry later : Registry) : Prop where
  names : ∀ {id name}, registry.nameOf? id = some name → later.nameOf? id = some name
  definitions : registry.definitions <+: later.definitions

theorem Extends.refl (registry : Registry) : registry.Extends registry where
  names h := h
  definitions := List.prefix_rfl

theorem Extends.trans {registry later latest : Registry} (h : registry.Extends later)
    (h' : later.Extends latest) : registry.Extends latest where
  names hname := h'.names (h.names hname)
  definitions := h.definitions.trans h'.definitions

theorem extends_share {registry : Registry} {id : NodeId} (hname : registry.nameOf? id = none)
    (name : String) : registry.Extends (registry.share id name) where
  names {other name'} hother := by
    rw [nameOf?_share hname, if_neg, hother]
    rintro rfl
    rw [hname] at hother
    cases hother
  definitions := List.prefix_rfl

theorem extends_emit {registry : Registry} {id : NodeId} (hname : registry.nameOf? id = none)
    (identity : String) (fingerprint : Fingerprint) (name : String) :
    registry.Extends (registry.emit identity fingerprint id name) where
  names {other name'} hother := by
    rw [nameOf?_emit identity fingerprint hname, if_neg, hother]
    rintro rfl
    rw [hname] at hother
    cases hother
  definitions := List.prefix_append _ _

theorem extends_assign (language : Language) (graph : Graph) (id : NodeId) (s : Typing) :
    s.registry.Extends (runStep (assign language graph id) s).2.registry := by
  have hrun := assign_run language graph id s
  generalize runStep (assign language graph id) s = run at hrun
  obtain ⟨outcome, t⟩ := run
  cases hrun with
  | known name hname => exact Extends.refl _
  | refused failure hname _ => exact Extends.refl _
  | shared fingerprint identity name hname => exact extends_share hname name
  | fresh fingerprint identity hname => exact extends_emit hname identity fingerprint _

theorem consistent_assign (language : Language) {graph : Graph} (id : NodeId) {s : Typing}
    (h : s.registry.Consistent graph) :
    (runStep (assign language graph id) s).2.registry.Consistent graph := by
  have hrun := assign_run language graph id s
  generalize runStep (assign language graph id) s = run at hrun
  obtain ⟨outcome, t⟩ := run
  cases hrun with
  | known name hname => exact h
  | refused failure hname _ => exact h
  | shared fingerprint identity name hname hfingerprint hidentity hvariant =>
    exact h.share hname hfingerprint hidentity hvariant
  | fresh fingerprint identity hname hfingerprint hidentity hvariant =>
    exact h.emit hname hfingerprint hidentity hvariant
      (isTaken_freshName s.registry language identity)

/-- A node that has a name keeps it, and nothing else happens. -/
theorem assign_of_named {language : Language} {graph : Graph} {id : NodeId} {name : String}
    {s : Typing} (h : s.registry.nameOf? id = some name) :
    runStep (assign language graph id) s = (.ok name, s) := by
  unfold assign
  rw [runStep_bind_of_ok (runStep_get s)]
  simp only [h, runStep_pure]

/-- A node that is named with success has a name afterwards. -/
theorem nameOf?_of_assign {language : Language} {graph : Graph} {id : NodeId} {name : String}
    {s t : Typing} (h : runStep (assign language graph id) s = (.ok name, t)) :
    t.registry.nameOf? id = some name := by
  have hrun := assign_run language graph id s
  rw [h] at hrun
  cases hrun with
  | known _ hname => exact hname
  | shared fingerprint identity name hname => rw [nameOf?_share hname, if_pos rfl]
  | fresh fingerprint identity hname => rw [nameOf?_emit identity fingerprint hname, if_pos rfl]

end Registry

end ApiClients
