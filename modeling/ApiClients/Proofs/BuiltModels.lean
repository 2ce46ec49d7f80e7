import ApiClients.Proofs.TypeSpellings

/-!
# The models of a pass

A pass builds its models one after another with a registry that is frozen.  So each of them is built
with the names that the registry ends with (`built_of_run`), and these have been given one after
another (`wellNamed_of_run`).
-/

namespace ApiClients

/-- Resolving leaves a frozen registry as it is. -/
theorem Resolver.Steady.keeps {resolver : Resolver} (h : resolver.Steady) {registry : Registry}
    (hfrozen : registry.frozen = true) (graph : Graph) :
    resolver.Keeps graph fun s => s.registry = registry := by
  intro schema usage s outcome t hs hrun
  have hkept := (resolver.decided_resolve h hfrozen graph schema usage).keeps hs
  rwa [hrun] at hkept

namespace Generation

variable {settings : Settings} {graph : Graph} {schemas : List NodeId}
  {operations : List Operation} {journal : Journal} {report : Report} {s t : Typing}

/-- The models of a report are built one by one, each with the registry that the pass ends with. -/
theorem built_of_run (h : runStep (run settings graph schemas operations) s = (.ok report, t)) :
    ∃ language builder, settings.targetLanguage = .ok language
      ∧ builder = ⟨settings, .ofLanguage language, graph, Naming.assign settings.policy operations⟩
      ∧ t.registry.frozen = true
      ∧ ∀ model ∈ report.models, ∃ operation ∈ operations, ∃ u v, u.registry = t.registry
        ∧ runStep (Builder.build builder operation) u = (.ok model, v) := by
  obtain ⟨language, builder, u, tried, hlanguage, hprepare, htried, rfl⟩ := run_ok h
  obtain ⟨hbuilder, _, -, hregistry⟩ := prepare_ok hprepare
  have hfrozen : u.registry.frozen = true := by rw [hregistry]
  have hsteady : builder.resolver.Steady := hbuilder ▸ Resolver.steady_ofLanguage language
  obtain ⟨hend, hbuilt⟩ := runStep_mapM_ok (P := fun v => v.registry = u.registry)
    (R := fun operation outcome => ∀ model, outcome = .inl model → ∃ v w, v.registry = u.registry
      ∧ runStep (builder.build operation) v = (.ok model, w))
    (fun operation _ v w outcome hv hattempt => by
      have hkept := (decided_attempt hsteady hfrozen operation).keeps hv
      rw [hattempt] at hkept
      refine ⟨hkept, ?_⟩
      rintro model rfl
      cases attempt_ok hattempt with
      | built _ x hmodel => exact ⟨v, x, hv, hmodel⟩) rfl htried
  refine ⟨language, builder, hlanguage, hbuilder, hend ▸ hfrozen, ?_⟩
  intro model hmodel
  obtain ⟨outcome, houtcome, hleft⟩ := List.mem_filterMap.mp hmodel
  obtain ⟨operation, hoperation, hmodels⟩ := Reading.exists_of_mem_right hbuilt houtcome
  cases outcome with
  | inr failure => cases hleft
  | inl found =>
    cases hleft
    obtain ⟨v, w, hv, hrun⟩ := hmodels model rfl
    exact ⟨operation, hoperation, v, w, hv.trans hend.symm, hrun⟩

theorem wellNamed_of_run
    (h : runStep (run settings graph schemas operations) { journal := journal } = (.ok report, t))
    {language : Language} (hlanguage : settings.targetLanguage = .ok language) :
    t.registry.WellNamed language graph := by
  obtain ⟨_, hlists, -⟩ := types_of_run h
  obtain ⟨language', hlanguage', -, hspelled⟩ := spelled_of_run h
  cases hlanguage.symm.trans hlanguage'
  exact ⟨hlists.consistent, hspelled⟩

end Generation

end ApiClients
