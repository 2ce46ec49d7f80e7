import ApiClients.Proofs.Faults
import ApiClients.Proofs.MethodNames
import ApiClients.Proofs.NamedTypes
import ApiClients.Proofs.Passes
import ApiClients.Proofs.Reachability

/-!
# The first phase covers the second

The first phase of a pass walks through the schema graph by its edges and registers what carries
the shape of each node met; the second phase goes from a node straight to what carries its shape,
and on through items and the values of maps.  Whatever the second phase asks a name for has got it
in the first (`covers_of_prepare`), so no operation is left out because of a type without a name:
it is left out for a fault of its own.
-/

namespace ApiClients

/-! ### Coverage -/

namespace Registry

/-- All nodes within reach of some roots have their names. -/
def Covers (registry : Registry) (graph : Graph) (roots : List NodeId) : Prop :=
  ∀ id, graph.Within roots id → registry.Knows graph id

theorem Covers.mono {registry later : Registry} {graph : Graph} {roots : List NodeId}
    (h : registry.Covers graph roots) (hextends : registry.Extends later) :
    later.Covers graph roots :=
  fun id hid => (h id hid).mono hextends

/-- Registering the type definitions that the walk lists covers all nodes within reach: what carries
the shape of a node within reach is within reach itself, and carries its own shape. -/
theorem covers_of_register {language : Language} {graph : Graph} {roots : List NodeId}
    {s t : Typing}
    (h : runStep (register language graph (graph.typeDefinitions roots)) s = (.ok (), t)) :
    t.registry.Covers graph roots := by
  intro id hid hdefinition
  have hall : ∀ a ∈ graph.typeDefinitions roots, t.registry.Knows graph a := by
    rw [runStep_register] at h
    by_cases hfrozen : s.registry.frozen = true
    · rw [if_pos hfrozen] at h
      cases h
    · rw [if_neg hfrozen] at h
      exact knows_of_registerAll h
  have hknown := hall _ (Graph.mem_typeDefinitions hid.actual hdefinition)
  rw [Knows, Graph.actualNode_actual, Graph.actual_actual] at hknown
  exact hknown hdefinition

end Registry

section Covered

variable {E : Failure → Prop} {graph : Graph} {roots : List NodeId} {registered : Registry}

/-- A node that has its name is named without any change. -/
theorem Registry.upholds_name_of_named {P : Registry → Prop} {language : Language} {id : NodeId}
    (h : ∀ registry, P registry → ∃ name, registry.nameOf? id = some name) :
    Upholds (fun s : Typing => P s.registry) E (Registry.name language graph id) := by
  unfold Registry.name
  refine upholds_get_bind ?_
  intro s hs
  obtain ⟨name, hname⟩ := h s.registry hs
  simp only [hname]
  exact ⟨hs, fun _ he => by cases he⟩

theorem Graph.closed_within (graph : Graph) (roots : List NodeId) :
    graph.Closed (graph.Within roots) where
  actual hid := hid.actual
  items hid hchild := hid.step (Graph.refersTo_items hchild)
  values hid hchild := hid.step (Graph.refersTo_additional hchild)

/-- What the registry has to hold, and the base types to keep, for the nodes within reach of some
roots to be resolved. -/
structure Builds (P : Registry → Prop) (E : Failure → Prop) (language : Language) (graph : Graph)
    (roots : List NodeId) : Prop where
  covers : ∀ {registry}, P registry → registry.Covers graph roots
  base : ∀ {id}, graph.Within roots id → ∀ nullable use, Upholds (fun s : Typing => P s.registry) E
    (Resolver.primitiveType language (graph.actualNode id) nullable use)

/-- Resolving a node within reach, or no node, finds all the names it asks for. -/
theorem Builds.resolve {P : Registry → Prop} {language : Language}
    (h : Builds P E language graph roots) {schema : Option NodeId}
    (hschema : ∀ id, schema = some id → graph.Within roots id) (usage : Usage) :
    Upholds (fun s : Typing => P s.registry) E
      ((Resolver.ofLanguage language).resolve graph schema usage) := by
  refine Resolver.upholds_resolve (graph.closed_within roots) ?name ?base hschema usage
  case name =>
    intro id hid hdefinition
    refine Registry.upholds_name_of_named fun registry hregistry => ?_
    exact h.covers hregistry id hid hdefinition
  case base => exact fun id hid => h.base hid

theorem builds_extends (language : Language) (hcovers : registered.Covers graph roots)
    (hmalformed : E .malformed) : Builds registered.Extends E language graph roots :=
  ⟨hcovers.mono, fun _ nullable use =>
    Resolver.upholds_primitiveType language _ nullable use fun _ => hmalformed⟩

/-- Names that are given later are found as well. -/
theorem upholds_resolve_of_covers (language : Language) (hcovers : registered.Covers graph roots)
    (hmalformed : E .malformed) {schema : Option NodeId}
    (hschema : ∀ id, schema = some id → graph.Within roots id) (usage : Usage) :
    Upholds (fun s : Typing => registered.Extends s.registry) E
      ((Resolver.ofLanguage language).resolve graph schema usage) :=
  (builds_extends language hcovers hmalformed).resolve hschema usage

end Covered

/-! ### Building the model of an operation -/

section Building

variable {language : Language} {graph : Graph} {roots : List NodeId} {registered : Registry}
  {operation : Operation}

/-- What an operation refers to is within reach. -/
def Operation.Within (operation : Operation) (graph : Graph) (roots : List NodeId) : Prop :=
  ∀ id ∈ operation.schemas, graph.Within roots id

theorem Operation.Within.parameter {parameters : List Parameter} {parameter : Parameter}
    (h : operation.Within graph roots) (hparameters : operation.parameters = some parameters)
    (hparameter : parameter ∈ parameters) {id : NodeId} (hid : parameter.schema = some id) :
    graph.Within roots id := by
  refine h id (List.mem_append_left _ ?_)
  rw [hparameters]
  exact List.mem_filterMap.mpr ⟨parameter, hparameter, hid⟩

theorem Operation.Within.response {responses : List (String × Response)} {code : String}
    {response : Response} (h : operation.Within graph roots)
    (hchecked : Responses.checked operation = .ok responses)
    (hresponse : (code, response) ∈ responses) {id : NodeId} (hid : response.schema = some id) :
    graph.Within roots id := by
  refine h id (List.mem_append_right _ ?_)
  rw [Responses.declared_of_checked hchecked]
  refine List.mem_filterMap.mpr ⟨(code, some response), ?_, hid⟩
  exact List.mem_map.mpr ⟨(code, response), hresponse, rfl⟩

/-- The failures of the checks that an operation goes through before its types are resolved. -/
structure Operation.Fails (operation : Operation) (language : Language) (E : Failure → Prop) :
    Prop where
  fault : ∀ {failure}, operation.Fault language failure → E failure
  names : ∀ {parameters}, operation.parameters = some parameters →
    Naming.variableNames language parameters operation.key = .error .malformed → E .malformed

/-- The failures that building the model of an operation may come to: a fault of the operation, or a
failure that ends the pass. -/
def Operation.FaultOrEnd (operation : Operation) (language : Language) (failure : Failure) : Prop :=
  failure.ofOperation = true → operation.Fault language failure

theorem Operation.faultOrEnd_malformed (operation : Operation) (language : Language) :
    operation.FaultOrEnd language .malformed := by
  intro h
  cases h

section

variable {P : Registry → Prop} {E : Failure → Prop}

theorem Builds.responseModels (h : Builds P E language graph roots)
    (hfails : operation.Fails language E) (hwithin : operation.Within graph roots) :
    Upholds (fun s : Typing => P s.registry) E
      (Responses.models (Resolver.ofLanguage language) graph operation) := by
  refine upholds_mk_bind (fun e he => hfails.fault (Operation.fault_of_checked language he)) ?_
  intro responses hchecked
  refine upholds_mapM ?_
  rintro ⟨code, response⟩ hresponse
  refine upholds_bind ?_ fun _ => upholds_pure _
  exact h.resolve (fun id hid => hwithin.response hchecked hresponse hid) _

theorem Builds.exceptionType (h : Builds P E language graph roots)
    (hfails : operation.Fails language E) (hwithin : operation.Within graph roots) :
    Upholds (fun s : Typing => P s.registry) E
      (Responses.exceptionType (Resolver.ofLanguage language) graph operation) := by
  rw [Responses.exceptionType_eq]
  refine upholds_mk_bind (fun e he => hfails.fault (Operation.fault_of_checked language he)) ?_
  intro responses hchecked
  refine Responses.errorType_closed (fun _ => upholds_pure _)
    (fun event _ => upholds_bind (Registry.upholds_note event) fun _ => upholds_pure _) ?_ _
  intro error herror
  obtain ⟨⟨code, response⟩, hentry, rfl⟩ := List.mem_map.mp herror
  exact h.resolve (fun id hid => hwithin.response hchecked (List.mem_of_mem_filter hentry) hid) _

theorem Builds.build {builder : Builder} (h : Builds P E language builder.graph roots)
    (hfails : operation.Fails language E)
    (hresolver : builder.resolver = Resolver.ofLanguage language)
    (hwithin : operation.Within builder.graph roots) {name : Naming.OperationName}
    (hname : Entries.get? builder.names operation.key = some name) :
    Upholds (fun s : Typing => P s.registry) E (builder.build operation) := by
  have hlanguage : builder.language = language := by rw [Builder.language, hresolver]; rfl
  unfold Builder.build
  rw [hlanguage]
  cases hparameters : operation.parameters with
  | none => exact upholds_throw (hfails.fault (.parameterList hparameters))
  | some parameters =>
    simp only [hname]
    refine upholds_mk_bind ?names fun variableNames _ => ?_
    case names =>
      intro failure hfailure
      rcases Naming.variableNames_error hfailure with ⟨rfl, -⟩ | ⟨identifier, first, second, rfl⟩
      · exact hfails.names hparameters hfailure
      · exact hfails.fault (.variableNames parameters identifier first second hparameters hfailure)
    refine upholds_bind (upholds_mapM ?parameters) fun models => ?_
    case parameters =>
      rintro ⟨parameter, variableName⟩ hmem
      refine upholds_bind ?_ fun _ => upholds_pure _
      rw [hresolver]
      exact h.resolve (fun id hid => hwithin.parameter hparameters (List.of_mem_zip hmem).1 hid) _
    rw [hresolver]
    refine upholds_bind (h.responseModels hfails hwithin) fun responses => ?_
    exact upholds_bind (h.exceptionType hfails hwithin) fun exception => upholds_pure _

end

end Building

/-! ### The two phases -/

namespace Generation

section Phases

variable {settings : Settings} {language : Language} {graph : Graph} {schemas : List NodeId}
  {operations : List Operation} {builder : Builder} {s t u : Typing}

/-- After the first phase all nodes within reach have their names. -/
theorem covers_of_prepare
    (h : runStep (prepare settings language graph schemas operations) s = (.ok builder, t)) :
    t.registry.Covers graph (roots schemas operations) := by
  obtain ⟨-, v, hregister, hfrozen⟩ := prepare_ok h
  intro id hid hdefinition
  obtain ⟨name, hname⟩ := Registry.covers_of_register hregister id hid hdefinition
  rw [hfrozen]
  exact ⟨name, hname⟩

theorem within_of_operation {operation : Operation} (h : operation ∈ operations) :
    operation.Within graph (roots schemas operations) := by
  intro id hid
  refine Graph.within_root (List.mem_append_right _ ?_)
  exact List.mem_flatMap.mpr ⟨operation, h, hid⟩

/-- What the naming pass and the registry have to hold for an operation to be built or to fail for a
fault of its own. -/
structure Ready (builder : Builder) (language : Language) (roots : List NodeId)
    (registered : Registry) (operation : Operation) : Prop where
  resolver : builder.resolver = Resolver.ofLanguage language
  covers : registered.Covers builder.graph roots
  within : operation.Within builder.graph roots
  named : ∃ name, Entries.get? builder.names operation.key = some name

theorem ready_of_prepare
    (h : runStep (prepare settings language graph schemas operations) s = (.ok builder, t)) :
    ∀ operation ∈ operations,
      Ready builder language (roots schemas operations) t.registry operation := by
  intro operation hoperation
  have hcovers := covers_of_prepare h
  obtain ⟨rfl, -⟩ := prepare_ok h
  exact ⟨rfl, hcovers, within_of_operation hoperation,
    Naming.assign_total settings.policy hoperation⟩

section Attempts

variable {roots : List NodeId} {registered : Registry} {operation : Operation}

/-- What building the model of an operation keeps is kept where it is tried, and a failure that
concerns the operation alone does not end the pass. -/
theorem Ready.upholds_attempt {P : Registry → Prop} {E G : Failure → Prop}
    (h : Ready builder language roots registered operation)
    (hbuilds : Builds P E language builder.graph roots) (hfails : operation.Fails language E)
    (hend : ∀ failure, E failure → failure.ofOperation = false → G failure) :
    Upholds (fun s : Typing => P s.registry) G (attempt builder operation) := by
  obtain ⟨name, hname⟩ := h.named
  have hbuild : Upholds (fun s : Typing => P s.registry) E
      ((Sum.inl : _ → OperationModel ⊕ OperationFailure) <$> builder.build operation) := by
    rw [map_eq_pure_bind]
    exact upholds_bind (hbuilds.build hfails h.resolver h.within hname) fun _ => upholds_pure _
  refine upholds_tryCatch hbuild fun failure hfailure => ?_
  by_cases hown : failure.ofOperation = true
  · simp only [hown, if_true]
    exact upholds_bind (Registry.upholds_note _) fun _ => upholds_pure _
  · simp only [hown, if_false, Bool.false_eq_true]
    exact upholds_throw (hend failure hfailure (by simpa using hown))

theorem Operation.fails_faultOrEnd (operation : Operation) (language : Language) :
    operation.Fails language (operation.FaultOrEnd language) :=
  ⟨fun hfault _ => hfault, fun _ _ => operation.faultOrEnd_malformed language⟩

theorem Ready.builds (h : Ready builder language roots registered operation) :
    Builds registered.Extends (operation.FaultOrEnd language) language builder.graph roots :=
  builds_extends language h.covers (operation.faultOrEnd_malformed language)

theorem Ready.fault_of_attempt (h : Ready builder language roots registered operation)
    (hextends : registered.Extends s.registry) {failed : OperationFailure}
    (hattempt : runStep (attempt builder operation) s = (.ok (.inr failed), t)) :
    ∃ failure, failed = ⟨operation.key, failure.message⟩ ∧ operation.Fault language failure := by
  cases attempt_ok hattempt with
  | skipped failure v hbuild hown =>
    obtain ⟨name, hname⟩ := h.named
    have hfault := (h.builds.build (Operation.fails_faultOrEnd operation language) h.resolver
      h.within hname s hextends).2 failure (by rw [hbuild])
    exact ⟨failure, rfl, hfault hown⟩

end Attempts

/-- After the first phase an operation fails for a fault of its own only. -/
theorem fault_of_outcomes
    (h : runStep (prepare settings language graph schemas operations) s = (.ok builder, t))
    {tried : List (OperationModel ⊕ OperationFailure)}
    (htried : runStep (outcomes builder operations) t = (.ok tried, u)) :
    ∀ failed ∈ tried.filterMap Sum.getRight?, ∃ operation ∈ operations, ∃ failure,
      failed = ⟨operation.key, failure.message⟩ ∧ operation.Fault language failure := by
  have hrelated : List.Forall₂ (fun operation outcome => ∀ failed, outcome = .inr failed →
      ∃ failure, failed = ⟨operation.key, failure.message⟩ ∧ operation.Fault language failure)
      operations tried := by
    refine (runStep_mapM_ok (P := fun v => t.registry.Extends v.registry) ?_
      (Registry.Extends.refl _) htried).2
    intro operation hoperation v w outcome hextends hattempt
    have hready := ready_of_prepare h operation hoperation
    refine ⟨?_, ?_⟩
    · have hlater := (hready.upholds_attempt (G := fun _ => True) hready.builds
        (Operation.fails_faultOrEnd operation language) (fun _ _ _ => trivial) v hextends).1
      rwa [hattempt] at hlater
    · rintro failed rfl
      exact hready.fault_of_attempt hextends hattempt
  intro failed hfailed
  obtain ⟨outcome, houtcome, hright⟩ := List.mem_filterMap.mp hfailed
  obtain rfl : outcome = .inr failed := Sum.getRight?_eq_some_iff.mp hright
  clear htried h hfailed
  induction hrelated with
  | nil => cases houtcome
  | @cons operation outcome operations tried hfirst hrest ih =>
    rcases List.mem_cons.mp houtcome with rfl | houtcome
    · obtain ⟨failure, hfailure⟩ := hfirst failed rfl
      exact ⟨operation, List.mem_cons_self, failure, hfailure⟩
    · obtain ⟨other, hother, hfault⟩ := ih houtcome
      exact ⟨other, List.mem_cons_of_mem _ hother, hfault⟩

end Phases

/-- The first phase covers the second, whatever the schema graph, the operations and the schemas to
emit.  Where it succeeds, no node within reach of the roots is ever refused for want of a name, in
whatever use and after whatever calls of the resolver; and each failure in the report is a fault of
its operation: neither a type without a name nor an operation without one. -/
theorem phases_agree (settings : Settings) (language : Language) (graph : Graph)
    (schemas : List NodeId) (operations : List Operation) (journal : Journal) (builder : Builder)
    (t : Typing)
    (h : runStep (prepare settings language graph schemas operations) { journal := journal } =
      (.ok builder, t)) :
    (∀ calls id usage typeName, graph.Within (roots schemas operations) id →
        (runStep (builder.resolver.resolve graph (some id) usage)
          (Call.afterFrom builder.resolver graph calls t)).1 ≠ .error (.unregisteredType typeName))
      ∧ ∀ report, settings.targetLanguage = .ok language →
          (Generation.report settings graph schemas operations journal).1 = .ok report →
            ∀ failed ∈ report.failures, ∃ operation ∈ operations, ∃ failure,
              failed = ⟨operation.key, failure.message⟩
                ∧ operation.Fault language failure
                ∧ (∀ typeName, failure ≠ .unregisteredType typeName)
                ∧ failure ≠ .invalidOperation operation.key .unnamed := by
  refine ⟨?resolve, ?failures⟩
  case resolve =>
    intro calls id usage typeName hid herror
    obtain ⟨hbuilder, -⟩ := prepare_ok h
    have hextends := Call.extends_afterFrom (Resolver.leavesRegistry_ofLanguage language) graph
      calls t
    have hschema : ∀ other, some id = some other →
        graph.Within (roots schemas operations) other := by
      rintro _ ⟨⟩
      exact hid
    have hresolved := upholds_resolve_of_covers (E := fun e => ∀ name, e ≠ .unregisteredType name)
      language ((covers_of_prepare h).mono hextends) (fun _ => by simp) hschema usage _
      (Registry.Extends.refl _)
    rw [hbuilder] at herror
    exact hresolved.2 _ herror typeName rfl
  case failures =>
    intro report hlanguage hreport failed hfailed
    have hrun : runStep (Generation.run settings graph schemas operations) { journal := journal } =
        (.ok report, _) := Prod.ext hreport rfl
    obtain ⟨language', builder', v, tried, hlanguage', hprepare, htried, rfl⟩ := run_ok hrun
    rw [hlanguage, Except.ok.injEq] at hlanguage'
    subst hlanguage'
    obtain ⟨operation, hoperation, failure, rfl, hfault⟩ :=
      fault_of_outcomes hprepare htried failed hfailed
    refine ⟨operation, hoperation, failure, rfl, hfault, ?_, ?_⟩
    · rintro typeName rfl
      cases hfault
    · rintro rfl
      cases hfault with
      | responseMap reason _ hreason => simp at hreason

/-- A definition that stands for another one, whose property refers back to the first, beside two
references in a circle and an array of pets. -/
def petShop : Graph where
  nodes := #[
    { typeName := .str "Pet", reference := some 1 },
    { typeName := .str "Animal", kinds := Kinds.ofList [.object], properties := [("next", 2)] },
    { reference := some 0, nullable := true },
    { reference := some 4 },
    { reference := some 3 },
    { kinds := Kinds.ofList [.array], items := some 2 }]

/-- The second of these has no parameter list. -/
def petOperations : List Operation :=
  [{ method := "get", path := "/pets", responses := some [("200", some { schema := some 5 })] },
   { method := "post", path := "/pets", parameters := none },
   { method := "put", path := "/pets",
     parameters := some [{ name := .str "loop", schema := some 3 }] }]

theorem phases_agree_pets :
    ∃ builder t,
      runStep (prepare {} Language.csharp petShop [0] petOperations) {} = (.ok builder, t)
        ∧ (∀ typeName, (runStep (builder.resolver.resolve petShop (some 5) {}) t).1 ≠
            .error (.unregisteredType typeName))
        ∧ ∃ report, (Generation.report {} petShop [0] petOperations []).1 = .ok report
          ∧ report.failures.map (·.key) = ["POST /pets"]
          ∧ ∀ failed ∈ report.failures, ∃ operation ∈ petOperations, ∃ failure,
              operation.Fault Language.csharp failure
                ∧ failed = ⟨operation.key, failure.message⟩ := by
  have hvisit : petShop.typeDefinitions (roots [0] petOperations) = [1] := by
    have hwalk : petShop.visit [] (roots [0] petOperations) = [0, 1, 2, 5, 3, 4] := by
      simp [Graph.visit, petShop, Graph.node, Node.children, roots, petOperations,
        Operation.schemas]
    rw [Graph.typeDefinitions, hwalk]
    decide +kernel
  have hprepared : (runStep (prepare {} Language.csharp petShop [0] petOperations) {}).1.toBool =
      true := by
    unfold prepare
    rw [hvisit]
    decide +kernel
  have hfailures : (Generation.report {} petShop [0] petOperations []).1.toOption.map
      (·.failures.map (·.key)) = some ["POST /pets"] := by
    unfold Generation.report Generation.run prepare
    rw [hvisit]
    decide +kernel
  rcases hrun : runStep (prepare {} Language.csharp petShop [0] petOperations) {} with
    ⟨failure | builder, t⟩
  · rw [hrun] at hprepared
    cases hprepared
  cases hreport : (Generation.report {} petShop [0] petOperations []).1 with
  | error failure =>
    rw [hreport] at hfailures
    cases hfailures
  | ok report =>
    rw [hreport] at hfailures
    obtain ⟨hresolve, hfaults⟩ :=
      phases_agree {} Language.csharp petShop [0] petOperations [] builder t hrun
    have hwithin : petShop.Within (roots [0] petOperations) 5 :=
      Graph.within_root (by decide +kernel)
    refine ⟨builder, t, rfl, fun typeName => hresolve [] 5 {} typeName hwithin, report, rfl,
      Option.some.inj hfailures, ?_⟩
    intro failed hfailed
    obtain ⟨operation, hoperation, failure, hfailed, hfault, -, -⟩ :=
      hfaults report (by decide +kernel) hreport failed hfailed
    exact ⟨operation, hoperation, failure, hfault, hfailed⟩

end Generation

end ApiClients
