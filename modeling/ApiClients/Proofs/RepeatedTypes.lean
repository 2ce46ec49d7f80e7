import ApiClients.Proofs.FrozenResolution

/-!
# Types that are resolved again

Resolving a type may give names to type definitions.  When it succeeds all the names that it has
asked for are in the registry, and names stay; so the same type comes out of resolving again, in any
state whose registry extends the one that it was left in, and no name is given any more.  A step of
which this holds settles its result (`Settles`); compound steps settle theirs as their parts do, and
by the induction of resolving every type is settled (`settles_resolve`).
-/

namespace ApiClients

section

variable {α β : Type}

/-- A step has a result in every state whose registry extends a registry. -/
def Settled (registry : Registry) (step : TypingM α) (a : α) : Prop :=
  ∀ s : Typing, registry.Extends s.registry →
    ∃ t, runStep step s = (.ok a, t) ∧ s.registry.Extends t.registry

/-- Where the step succeeds it takes no name back, and its result is settled. -/
def Settles (step : TypingM α) : Prop :=
  ∀ s a t, runStep step s = (.ok a, t) →
    s.registry.Extends t.registry ∧ Settled t.registry step a

theorem Settled.mono {registry later : Registry} {step : TypingM α} {a : α}
    (h : Settled registry step a) (hextends : registry.Extends later) : Settled later step a :=
  fun s hs => h s (hextends.trans hs)

theorem settles_pure (a : α) : Settles (pure a : TypingM α) := by
  intro s b t hrun
  cases hrun
  exact ⟨.refl _, fun u _ => ⟨u, rfl, .refl _⟩⟩

theorem settles_note (event : Event) : Settles (Typing.note event) := by
  intro s a t hrun
  cases hrun
  exact ⟨.refl _, fun u _ => ⟨_, rfl, .refl _⟩⟩

theorem settles_bind {step : TypingM α} {next : α → TypingM β} (hstep : Settles step)
    (hnext : ∀ a, Settles (next a)) : Settles (step >>= next) := by
  intro s b t hrun
  obtain ⟨a, u, hfirst, hsecond⟩ := runStep_bind_ok.mp hrun
  obtain ⟨hsu, hstep⟩ := hstep s a u hfirst
  obtain ⟨hut, hnext⟩ := hnext a u b t hsecond
  refine ⟨hsu.trans hut, fun v hv => ?_⟩
  -- the first step is settled in `u` already, so all the more in what extends the last state
  obtain ⟨w, hfirst, hvw⟩ := hstep v (hut.trans hv)
  obtain ⟨x, hsecond, hwx⟩ := hnext w (hv.trans hvw)
  exact ⟨x, runStep_bind_ok.mpr ⟨a, w, hfirst, hsecond⟩, hvw.trans hwx⟩

theorem Registry.name_found {language : Language} {graph : Graph} {id : NodeId} {name : String}
    {s : Typing} (h : s.registry.nameOf? id = some name) :
    runStep (Registry.name language graph id) s = (.ok name, s) := by
  unfold Registry.name
  rw [runStep_bind_of_ok (runStep_get s)]
  simp only [h, runStep_pure]

/-- A name that has been found or given is in the registry afterwards, which has not lost any. -/
theorem Registry.name_run {language : Language} {graph : Graph} {id : NodeId} {name : String}
    {s t : Typing} (h : runStep (Registry.name language graph id) s = (.ok name, t)) :
    s.registry.Extends t.registry ∧ t.registry.nameOf? id = some name := by
  cases hname : s.registry.nameOf? id with
  | some known =>
    rw [name_found hname] at h
    cases h
    exact ⟨.refl _, hname⟩
  | none =>
    unfold Registry.name at h
    rw [runStep_bind_of_ok (runStep_get s)] at h
    simp only [hname] at h
    split at h
    · cases h
    · have hextends := Registry.extends_assign language graph id s
      rw [h] at hextends
      exact ⟨hextends, Registry.nameOf?_of_assign h⟩

theorem settles_name (language : Language) (graph : Graph) (id : NodeId) :
    Settles (Registry.name language graph id) := by
  intro s name t hrun
  obtain ⟨hextends, hname⟩ := Registry.name_run hrun
  exact ⟨hextends, fun u hu => ⟨u, Registry.name_found (hu.names hname), .refl _⟩⟩

/-- The results of some steps that have been taken one after another are all settled in the end. -/
theorem settled_mapM {f : α → TypingM β} (h : ∀ a, Settles (f a)) {as : List α} {bs : List β}
    {s t : Typing} (hrun : runStep (as.mapM f) s = (.ok bs, t)) :
    s.registry.Extends t.registry
      ∧ List.Forall₂ (fun a b => Settled t.registry (f a) b) as bs := by
  induction as generalizing bs s with
  | nil =>
    cases hrun
    exact ⟨.refl _, .nil⟩
  | cons a as ih =>
    rw [List.mapM_cons] at hrun
    obtain ⟨b, u, hfirst, hrun⟩ := runStep_bind_ok.mp hrun
    obtain ⟨rest, v, hrest, hrun⟩ := runStep_bind_ok.mp hrun
    cases hrun
    obtain ⟨hsu, hb⟩ := h a s b u hfirst
    obtain ⟨hut, hbs⟩ := ih hrest
    exact ⟨hsu.trans hut, .cons (hb.mono hut) hbs⟩

end

namespace Resolver

variable {resolver : Resolver}

/-- The base types depend on nothing but the node and its use, and have no access to the registry. -/
def Stateless (resolver : Resolver) : Prop :=
  resolver.LeavesRegistry ∧ ∀ node nullable use,
    Decided (fun _ : Typing => True) (resolver.baseType node nullable use)

theorem stateless_ofLanguage (language : Language) : (ofLanguage language).Stateless :=
  ⟨leavesRegistry_ofLanguage language, fun node nullable use =>
    decided_primitiveType (fun _ => decided_modify fun _ _ => trivial) language node nullable use⟩

theorem Stateless.settles_baseType (h : resolver.Stateless) (node : Node) (nullable : Bool)
    (use : String) : Settles (resolver.baseType node nullable use) := by
  intro s type t hrun
  have hleaves : ∀ u : Typing,
      u.registry.Extends (runStep (resolver.baseType node nullable use) u).2.registry := by
    intro u
    rw [h.1 node nullable use u]
    exact .refl _
  have hst := hleaves s
  rw [hrun] at hst
  refine ⟨hst, fun u _ => ⟨_, Prod.ext ?_ rfl, hleaves u⟩⟩
  rw [(h.2 node nullable use).same trivial trivial, hrun]

theorem Stateless.settles_resolve (h : resolver.Stateless) (graph : Graph)
    (schema : Option NodeId) (usage : Usage) : Settles (resolver.resolve graph schema usage) := by
  refine resolve_closed graph.closed_all settles_pure ?note ?part ?name ?base (fun _ _ => trivial)
    usage
  case note => exact fun event _ => settles_bind (settles_note event) fun _ => settles_pure _
  case part => exact fun _ _ hstep => settles_bind hstep fun _ => settles_pure _
  case name => exact fun id _ _ => settles_name _ _ _
  case base => exact fun id _ nullable use => h.settles_baseType _ nullable use

end Resolver

end ApiClients
