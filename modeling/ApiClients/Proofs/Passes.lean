import ApiClients.Proofs.Steps
import ApiClients.Report

/-!
# What a pass is made of

A pass that ends in a report has gone through both of its phases.  This file takes such a pass
apart: `run_ok` into the phases, `prepare_ok` and `attempt_ok` each phase into its steps, and
`build_stages` a model into the names that it carries and the stages in which it is built.
-/

namespace ApiClients

/-! ### Building a model -/

/-- A model carries the names that the naming pass gave its operation, the method name in the casing
of the language and the client name put into the name of the class. -/
structure Builder.Names (builder : Builder) (operation : Operation) (model : OperationModel)
    (name : Naming.OperationName) : Prop where
  found : Entries.get? builder.names operation.key = some name
  key : model.key = operation.key
  client : model.client = name.client
  methodName : model.methodName = builder.language.methodName name.method
  clientClass : model.clientClass = builder.settings.clientClassName name.client

/-- The stages in which a model is built: its parameters from the state `s` to `u`, its responses from
there to `v`, and its exception type from there to `t`.  The result is made of the primary
response. -/
structure Builder.Stages (builder : Builder) (operation : Operation) (model : OperationModel)
    (parameters : List Parameter) (identifiers : List String) (models : List ParameterModel)
    (s u v t : Typing) : Prop where
  declared : operation.parameters = some parameters
  named : Naming.variableNames builder.language parameters operation.key = .ok identifiers
  modelled : runStep ((parameters.zip identifiers).mapM fun entry =>
    builder.parameterModel entry.1 entry.2) s = (.ok models, u)
  arranged : model.parameters = arrange builder.settings models
  responses : runStep (Responses.models builder.resolver builder.graph operation) u =
    (.ok model.responses, v)
  primary : model.primary = Responses.primary? model.responses
  unwrapped : model.unwrappedResult = (model.primary.map (·.type)).getD builder.language.void
  result : model.result =
    resultType builder.settings builder.language model.unwrappedResult model.client
  exception : runStep (Responses.exceptionType builder.resolver builder.graph operation) v =
    (.ok model.exception, t)

/-- What a model has come from: its names and the stages in which it is built. -/
theorem Builder.build_stages {builder : Builder} {operation : Operation} {model : OperationModel}
    {s t : Typing} (h : runStep (builder.build operation) s = (.ok model, t)) :
    (∃ name, builder.Names operation model name)
      ∧ ∃ parameters identifiers models u v,
        builder.Stages operation model parameters identifiers models s u v t := by
  unfold Builder.build at h
  cases hparameters : operation.parameters with
  | none =>
    simp only [hparameters] at h
    cases h
  | some parameters =>
    cases hname : Entries.get? builder.names operation.key with
    | none =>
      simp only [hparameters, hname] at h
      cases h
    | some name =>
      simp only [hparameters, hname] at h
      obtain ⟨identifiers, w, hidentifiers, h⟩ := runStep_bind_ok.mp h
      obtain ⟨models, u, hmodels, h⟩ := runStep_bind_ok.mp h
      obtain ⟨table, v, htable, h⟩ := runStep_bind_ok.mp h
      obtain ⟨exception, x, hexception, h⟩ := runStep_bind_ok.mp h
      cases h
      rw [Typing.lift, runStep_mk, Prod.mk.injEq] at hidentifiers
      obtain ⟨hidentifiers, rfl⟩ := hidentifiers
      refine ⟨⟨name, hname, rfl, rfl, rfl, rfl⟩, parameters, identifiers, models, u, v, ?_⟩
      refine ⟨hparameters, hidentifiers, hmodels, rfl, htable, rfl, ?_, rfl, hexception⟩
      cases Responses.primary? table <;> rfl

/-- The names of a model, the table of its responses, and its exception type, which is made after the
table. -/
theorem Builder.build_run {builder : Builder} {operation : Operation} {model : OperationModel}
    {s t : Typing} (h : runStep (builder.build operation) s = (.ok model, t)) :
    (∃ name, builder.Names operation model name)
      ∧ ∃ u v, runStep (Responses.models builder.resolver builder.graph operation) u =
          (.ok model.responses, v)
        ∧ runStep (Responses.exceptionType builder.resolver builder.graph operation) v =
          (.ok model.exception, t) := by
  obtain ⟨hnames, _, _, _, u, v, hstages⟩ := build_stages h
  exact ⟨hnames, u, v, hstages.responses, hstages.exception⟩

theorem Builder.build_ok {builder : Builder} {operation : Operation} {model : OperationModel}
    {s t : Typing} (h : runStep (builder.build operation) s = (.ok model, t)) :
    ∃ name, builder.Names operation model name :=
  (build_run h).1

namespace Generation

section

variable {settings : Settings} {language : Language} {graph : Graph} {schemas : List NodeId}
  {operations : List Operation} {builder : Builder} {s t : Typing}

/-! ### The first phase -/

theorem prepare_ok
    (h : runStep (prepare settings language graph schemas operations) s = (.ok builder, t)) :
    builder = ⟨settings, Resolver.ofLanguage language, graph,
        Naming.assign settings.policy operations⟩
      ∧ ∃ u, runStep (Registry.register language graph
            (graph.typeDefinitions (roots schemas operations))) s = (.ok (), u)
          ∧ t.registry = { u.registry with frozen := true } := by
  unfold prepare at h
  obtain ⟨_, u, hregister, h⟩ := runStep_bind_ok.mp h
  obtain ⟨_, v, hfreeze, h⟩ := runStep_bind_ok.mp h
  obtain ⟨_, w, hget, h⟩ := runStep_bind_ok.mp h
  obtain ⟨_, x, hnote, h⟩ := runStep_bind_ok.mp h
  cases hfreeze
  cases hget
  cases hnote
  cases h
  exact ⟨rfl, u, hregister, rfl⟩

/-! ### The second phase -/

/-- What trying an operation comes to: its model, or a failure of its own. -/
inductive Attempted (builder : Builder) (operation : Operation) (s : Typing) :
    OperationModel ⊕ OperationFailure → Prop where
  | built (model : OperationModel) (t : Typing)
      (h : runStep (builder.build operation) s = (.ok model, t)) :
      Attempted builder operation s (.inl model)
  | skipped (failure : Failure) (t : Typing)
      (h : runStep (builder.build operation) s = (.error failure, t))
      (hown : failure.ofOperation = true) :
      Attempted builder operation s (.inr ⟨operation.key, failure.message⟩)

theorem attempt_ok {operation : Operation} {outcome : OperationModel ⊕ OperationFailure}
    (h : runStep (attempt builder operation) s = (.ok outcome, t)) :
    Attempted builder operation s outcome := by
  unfold attempt at h
  rw [runStep_tryCatch] at h
  rcases hbuild : runStep (Sum.inl <$> builder.build operation) s with ⟨failure | tried, u⟩
  · rw [hbuild] at h
    rw [map_eq_pure_bind, runStep_bind_error] at hbuild
    rcases hbuild with hbuild | ⟨_, _, _, hpure⟩
    · by_cases hown : failure.ofOperation = true
      · simp only [hown, if_true] at h
        obtain ⟨_, v, _, h⟩ := runStep_bind_ok.mp h
        cases h
        exact .skipped failure _ hbuild hown
      · simp only [hown, if_false, Bool.false_eq_true] at h
        cases h
    · cases hpure
  · rw [hbuild] at h
    obtain ⟨model, hmodel, rfl⟩ := runStep_map_ok.mp hbuild
    cases h
    exact .built model _ hmodel

/-! ### The whole pass -/

theorem run_ok {report : Report} (h : runStep (run settings graph schemas operations) s =
    (.ok report, t)) :
    ∃ language builder u tried, settings.targetLanguage = .ok language
      ∧ runStep (prepare settings language graph schemas operations) s = (.ok builder, u)
      ∧ runStep (outcomes builder operations) u = (.ok tried, t)
      ∧ report = ⟨tried.filterMap Sum.getLeft?, tried.filterMap Sum.getRight?,
          t.registry.definitions⟩ := by
  unfold run at h
  obtain ⟨language, u, hlanguage, h⟩ := runStep_bind_ok.mp h
  obtain ⟨builder, v, hprepare, h⟩ := runStep_bind_ok.mp h
  obtain ⟨tried, w, htried, h⟩ := runStep_bind_ok.mp h
  obtain ⟨_, x, hget, h⟩ := runStep_bind_ok.mp h
  rw [Typing.lift, runStep_mk, Prod.mk.injEq] at hlanguage
  obtain ⟨hlanguage, rfl⟩ := hlanguage
  cases hget
  cases h
  exact ⟨language, builder, v, tried, hlanguage, hprepare, htried, rfl⟩

/-- Of some outcomes in the order of their operations, the models are in this order too. -/
theorem models_of_tried {tried : List (OperationModel ⊕ OperationFailure)}
    (h : List.Forall₂ (fun operation outcome => ∀ model, outcome = .inl model →
      ∃ name, builder.Names operation model name) operations tried) :
    ((tried.filterMap Sum.getLeft?).map (·.key)).Sublist (operations.map Operation.key)
      ∧ ∀ model ∈ tried.filterMap Sum.getLeft?, ∃ operation ∈ operations, ∃ name,
          builder.Names operation model name := by
  induction h with
  | nil => exact ⟨List.Sublist.refl _, fun _ hmodel => by cases hmodel⟩
  | @cons operation outcome operations tried hfirst hrest ih =>
    obtain ⟨hsublist, hnames⟩ := ih
    have hlater : ∀ model ∈ tried.filterMap Sum.getLeft?, ∃ other ∈ operation :: operations, ∃ name,
        builder.Names other model name := by
      intro model hmodel
      obtain ⟨other, hother, hname⟩ := hnames model hmodel
      exact ⟨other, List.mem_cons_of_mem _ hother, hname⟩
    cases outcome with
    | inr failure => exact ⟨hsublist.cons _, hlater⟩
    | inl model =>
      obtain ⟨name, hname⟩ := hfirst model rfl
      have hcons : List.filterMap Sum.getLeft? (.inl model :: tried) =
          model :: List.filterMap Sum.getLeft? tried := rfl
      rw [hcons, List.map_cons, List.map_cons, hname.key]
      refine ⟨hsublist.cons_cons _, ?_⟩
      intro other hother
      rcases List.mem_cons.mp hother with rfl | hother
      · exact ⟨operation, List.mem_cons_self, name, hname⟩
      · exact hlater other hother

/-- The models of a report carry the names of their operations, and are in the order of these. -/
theorem models_of_run {report : Report} (h : runStep (run settings graph schemas operations) s =
    (.ok report, t)) :
    ∃ builder : Builder, builder.settings = settings
      ∧ builder.names = Naming.assign settings.policy operations
      ∧ (report.models.map (·.key)).Sublist (operations.map Operation.key)
      ∧ ∀ model ∈ report.models, ∃ operation ∈ operations, ∃ name,
          builder.Names operation model name := by
  obtain ⟨language, builder, u, tried, -, hprepare, htried, rfl⟩ := run_ok h
  obtain ⟨hbuilder, -⟩ := prepare_ok hprepare
  have hbuilt := (runStep_mapM_ok (P := fun _ => True)
    (R := fun operation outcome => ∀ model, outcome = .inl model →
      ∃ name, builder.Names operation model name) (fun operation _ s t outcome _ hrun => by
    refine ⟨trivial, ?_⟩
    rintro model rfl
    cases attempt_ok hrun with
    | built _ _ hmodel => exact Builder.build_ok hmodel) trivial htried).2
  obtain ⟨hsublist, hnames⟩ := models_of_tried hbuilt
  rw [hbuilder] at hnames
  exact ⟨_, rfl, rfl, hsublist, hnames⟩

end

end Generation

end ApiClients
