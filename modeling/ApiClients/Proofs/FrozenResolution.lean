import ApiClients.Proofs.NamedTypes
import ApiClients.Proofs.Passes
import Mathlib.Data.List.Perm.Basic
import Mathlib.Data.Set.List

/-!
# A frozen resolver has no memory

Resolving a type enters the containers that it spells out and leaves them again, and it may fail at
any depth.  `Resolver.expand` is resolving with the containers kept in the state, entered and left
on the way; it comes to the same as handing them on inwards (`expand_eq`), so none of them is left
behind, also by a failure.  In a frozen registry every step of resolving has one outcome and changes
no name, which carries over to calls and to building operations (`frozen_without_memory`).
-/

namespace ApiClients

namespace Resolver

/-! ### The containers that are being spelled out -/

/-- What a type resolver holds between its steps: the names and the journal, and the containers that
are being spelled out. -/
structure State where
  typing : Typing := {}
  inside : List NodeId := []

namespace State

/-- A step that has nothing to do with the containers. -/
def run {α : Type} (step : TypingM α) (s : State) : Except Failure α × State :=
  ((runStep step s.typing).1, { s with typing := (runStep step s.typing).2 })

def enter (id : NodeId) (s : State) : State := { s with inside := id :: s.inside }

def leave (id : NodeId) (s : State) : State := { s with inside := s.inside.erase id }

theorem run_map {α β : Type} (step : TypingM α) (f : α → β) (s : State) :
    s.run (do return f (← step)) = ((s.run step).1.map f, (s.run step).2) := by
  simp only [run, runStep_bind]
  rcases runStep step s.typing with ⟨e | a, t⟩ <;> rfl

/-- A step inside a container that is left afterwards is a step outside of it. -/
theorem leave_run_enter {α β : Type} (step : TypingM α) (f : α → β) (s : State) (id : NodeId) :
    (((s.enter id).run step).1.map f, ((s.enter id).run step).2.leave id)
      = s.run do return f (← step) := by
  rw [run_map]
  simp [run, enter, leave]

end State

/-- The type of a schema.  A container is entered before what it holds is resolved, and left
afterwards whether this has failed or not. -/
def expand (resolver : Resolver) (graph : Graph) (id : NodeId) (usage : Usage) (s : State) :
    Except Failure String × State :=
  let language := resolver.language
  let actual := graph.actual id
  let node := graph.node actual
  let nullable := usage.nullable || (graph.node id).isNullable || node.isNullable
  if node.isTypeDefinition then
    s.run do return language.nullableIf nullable (← Registry.name language graph actual)
  else if node.isFile && !node.isArray then (.ok (fileType language usage), s)
  else if _container : node.isContainer = true then
    if _fresh : actual ∈ s.inside then
      s.run do
        let use := if node.typeName.given then node.typeName.plain else usage.fallbackName
        Typing.note (.recursiveContainer use language.any)
        return language.nullableIf nullable language.any
    else if node.isArray then
      let (item, after) := match node.items with
        | some child =>
          resolver.expand graph child { fallbackName := usage.fallbackName ++ "Item" }
            (s.enter actual)
        | none =>
          (.ok (if node.isFile then language.fileParameter else language.any), s.enter actual)
      (item.map fun item => language.nullableIf nullable (language.sequenceOf item),
        after.leave actual)
    else
      let (value, after) := match node.additional with
        | .shape child =>
          resolver.expand graph child { fallbackName := usage.fallbackName ++ "Value" }
            (s.enter actual)
        | _ => (.ok language.any, s.enter actual)
      (value.map fun value => language.nullableIf nullable (language.dictionaryOf value),
        after.leave actual)
  else s.run (resolver.baseType node nullable usage.fallbackName)
termination_by graph.unseen s.inside
decreasing_by
  all_goals exact graph.unseen_cons_lt _fresh (graph.lt_size_of_isContainer _container)

/-- Resolving with the containers handed on leaves them as they were, so it is the same as resolving
inside of them. -/
theorem expand_eq (resolver : Resolver) (graph : Graph) (id : NodeId) (usage : Usage) (s : State) :
    resolver.expand graph id usage s
      = s.run (resolver.resolveWithin graph s.inside id usage) := by
  induction hsize : graph.unseen s.inside using Nat.strongRecOn generalizing id usage s with
  | ind size ih =>
    subst hsize
    rw [expand]
    cases branch graph s.inside id with
    | definition h =>
      rw [resolveWithin_definition h]
      exact if_pos h
    | file h hfile =>
      rw [resolveWithin_file h hfile]
      unfold Graph.actualNode at h hfile
      simp only [h, hfile, if_true, if_false, Bool.false_eq_true]
      rfl
    | recursive h hfile hcontainer haround =>
      rw [resolveWithin_recursive h hfile hcontainer haround]
      unfold Graph.actualNode at h hfile hcontainer
      simp only [h, hfile, hcontainer, haround, if_false, Bool.false_eq_true, dite_true]
      rfl
    | array h hcontainer haround harray =>
      have hfewer := graph.unseen_cons_lt haround (graph.lt_size_of_isContainer hcontainer)
      rw [resolveWithin_array h hcontainer haround harray]
      refine Eq.trans ?_ (State.leave_run_enter _ _ s (graph.actual id))
      unfold Graph.actualNode at h hcontainer harray
      simp only [h, hcontainer, haround, harray, Bool.not_true, Bool.and_false,
        if_false, if_true, Bool.false_eq_true, dite_true, dite_false]
      unfold itemType Graph.actualNode
      cases (graph.node (graph.actual id)).items with
      | none => rfl
      | some child =>
        simp only []
        rw [ih _ hfewer child _ (s.enter (graph.actual id)) rfl]
        rfl
    | map h hfile hcontainer haround harray =>
      have hfewer := graph.unseen_cons_lt haround (graph.lt_size_of_isContainer hcontainer)
      rw [resolveWithin_map h hfile hcontainer haround harray]
      refine Eq.trans ?_ (State.leave_run_enter _ _ s (graph.actual id))
      unfold Graph.actualNode at h hfile hcontainer harray
      have hnofile : (graph.node (graph.actual id)).isFile = false := by simpa [harray] using hfile
      simp only [h, hnofile, hcontainer, haround, harray, Bool.false_and, if_false,
        Bool.false_eq_true, dite_true, dite_false]
      unfold valueType Graph.actualNode
      cases (graph.node (graph.actual id)).additional with
      | unsaid => rfl
      | allowed _ => rfl
      | shape child =>
        simp only []
        rw [ih _ hfewer child _ (s.enter (graph.actual id)) rfl]
        rfl
    | base h hfile hcontainer =>
      rw [resolveWithin_base h hfile hcontainer]
      unfold Graph.actualNode at h hfile hcontainer
      simp only [h, hfile, hcontainer, if_false, Bool.false_eq_true, dite_false]
      rfl

end Resolver

/-! ### Steps in a frozen registry -/

section Frozen

variable {registry : Registry}

theorem decided_note (event : Event) :
    Decided (fun s : Typing => s.registry = registry) (Typing.note event) :=
  decided_modify fun _ hs => hs

theorem Registry.decided_name (hfrozen : registry.frozen = true) (language : Language)
    (graph : Graph) (id : NodeId) :
    Decided (fun s : Typing => s.registry = registry) (Registry.name language graph id) := by
  unfold Registry.name
  cases hname : registry.nameOf? id with
  | some name =>
    refine ⟨.ok name, ?_⟩
    rintro s rfl
    rw [runStep_bind_of_ok (runStep_get s)]
    simp only [hname]
    exact ⟨rfl, rfl⟩
  | none =>
    let typeName := (graph.node id).typeName
    refine ⟨.error (.unregisteredType (if typeName.given then typeName.plain else "")), ?_⟩
    rintro s rfl
    rw [runStep_bind_of_ok (runStep_get s)]
    simp only [hname, hfrozen, if_true]
    exact ⟨rfl, rfl⟩

theorem Registry.decided_register (hfrozen : registry.frozen = true) (language : Language)
    (graph : Graph) (ids : List NodeId) :
    Decided (fun s : Typing => s.registry = registry) (Registry.register language graph ids) := by
  refine ⟨.error .frozen, ?_⟩
  rintro s rfl
  rw [Registry.runStep_register, if_pos hfrozen]
  exact ⟨rfl, rfl⟩

theorem Registry.decided_freeze (hfrozen : registry.frozen = true) :
    Decided (fun s : Typing => s.registry = registry) Registry.freeze := by
  refine decided_modify ?_
  rintro s rfl
  show { s.registry with frozen := true } = s.registry
  rw [← hfrozen]

namespace Resolver

/-- The base types have no memory of their own: they answer by the registry alone, if by the state
at all, and leave it as it is. -/
def Steady (resolver : Resolver) : Prop :=
  ∀ registry node nullable use,
    Decided (fun s : Typing => s.registry = registry) (resolver.baseType node nullable use)

/-- The base types of a language depend on nothing but the node and its use. -/
theorem decided_primitiveType {P : Typing → Prop} (hnote : ∀ event, Decided P (Typing.note event))
    (language : Language) (node : Node) (nullable : Bool) (use : String) :
    Decided P (primitiveType language node nullable use) := by
  unfold primitiveType
  cases node.kinds.primitive? with
  | none =>
    by_cases hnoted : (!node.kinds.atMostObject || !node.properties.isEmpty) = true
    · simp only [hnoted, if_true]
      exact decided_bind (hnote _) fun _ => decided_pure _
    · simp only [hnoted, if_false, Bool.false_eq_true]
      exact decided_pure _
  | some primitive =>
    refine decided_bind (decided_mk _) fun type => ?_
    cases type with
    | some type => exact decided_pure _
    | none => exact decided_bind (hnote _) fun _ => decided_pure _

theorem steady_ofLanguage (language : Language) : (ofLanguage language).Steady :=
  fun _ => decided_primitiveType decided_note language

variable {resolver : Resolver}

/-- A name is found or refused by the registry, and everything else is read off the graph. -/
theorem decided_resolve (hsteady : resolver.Steady) (hfrozen : registry.frozen = true)
    (graph : Graph) (schema : Option NodeId) (usage : Usage) :
    Decided (fun s : Typing => s.registry = registry) (resolver.resolve graph schema usage) := by
  refine resolve_closed graph.closed_all (fun _ => decided_pure _) ?note ?part ?name ?base
    (fun _ _ => trivial) usage
  case note => exact fun event _ => decided_bind (decided_note event) fun _ => decided_pure _
  case part => exact fun _ _ hstep => decided_bind hstep fun _ => decided_pure _
  case name => exact fun id _ _ => Registry.decided_name hfrozen _ _ _
  case base => exact fun id _ nullable use => hsteady _ _ nullable use

end Resolver

/-! ### Building in a frozen registry -/

section Building

variable {resolver : Resolver}

theorem Responses.decided_models (hsteady : resolver.Steady) (hfrozen : registry.frozen = true)
    (graph : Graph) (operation : Operation) :
    Decided (fun s : Typing => s.registry = registry)
      (Responses.models resolver graph operation) := by
  refine decided_bind (decided_mk _) fun responses => ?_
  refine decided_mapM fun entry _ => ?_
  exact decided_bind (resolver.decided_resolve hsteady hfrozen graph _ _) fun _ => decided_pure _

theorem Responses.decided_exceptionType (hsteady : resolver.Steady)
    (hfrozen : registry.frozen = true) (graph : Graph) (operation : Operation) :
    Decided (fun s : Typing => s.registry = registry)
      (Responses.exceptionType resolver graph operation) := by
  rw [exceptionType_eq]
  refine decided_bind (decided_mk _) fun responses => ?_
  refine errorType_closed (fun _ => decided_pure _)
    (fun event _ => decided_bind (decided_note event) fun _ => decided_pure _) ?_ _
  exact fun error _ => resolver.decided_resolve hsteady hfrozen graph _ _

theorem Builder.decided_build {builder : Builder} (hsteady : builder.resolver.Steady)
    (hfrozen : registry.frozen = true) (operation : Operation) :
    Decided (fun s : Typing => s.registry = registry) (builder.build operation) := by
  unfold Builder.build
  cases operation.parameters with
  | none => exact decided_throw _
  | some parameters =>
    cases Entries.get? builder.names operation.key with
    | none => exact decided_throw _
    | some name =>
      refine decided_bind (decided_mk _) fun variableNames => ?_
      refine decided_bind (decided_mapM fun entry _ => ?parameter) fun models => ?_
      case parameter =>
        exact decided_bind (builder.resolver.decided_resolve hsteady hfrozen _ _ _) fun _ =>
          decided_pure _
      refine decided_bind (Responses.decided_models hsteady hfrozen _ _) fun responses => ?_
      exact decided_bind (Responses.decided_exceptionType hsteady hfrozen _ _) fun exception =>
        decided_pure _

theorem Generation.decided_attempt {builder : Builder} (hsteady : builder.resolver.Steady)
    (hfrozen : registry.frozen = true) (operation : Operation) :
    Decided (fun s : Typing => s.registry = registry) (attempt builder operation) := by
  refine decided_tryCatch ?_ fun failure => ?_
  · rw [map_eq_pure_bind]
    exact decided_bind (builder.decided_build hsteady hfrozen operation) fun _ => decided_pure _
  · split
    · exact decided_bind (decided_note _) fun _ => decided_pure _
    · exact decided_throw _

end Building

end Frozen

/-! ### Calls -/

namespace Call

variable {resolver : Resolver} {graph : Graph}

/-- What a call answers: a type, if it is asked for one. -/
def answer (resolver : Resolver) (graph : Graph) : Call → TypingM (Option String)
  | .register ids => do
    Registry.register resolver.language graph ids
    return none
  | .resolve schema usage => do return some (← resolver.resolve graph schema usage)
  | .freeze => do
    Registry.freeze
    return none

/-- A call: what it answers or why it fails, and the resolver afterwards. -/
def perform (resolver : Resolver) (graph : Graph) (call : Call) (s : Resolver.State) :
    Except Failure (Option String) × Resolver.State :=
  match call with
  | .resolve (some id) usage =>
    ((resolver.expand graph id usage s).1.map some, (resolver.expand graph id usage s).2)
  | call => s.run (call.answer resolver graph)

/-- Some calls one after the other, whether they fail or not. -/
def performAll (resolver : Resolver) (graph : Graph) :
    List Call → Resolver.State → List (Except Failure (Option String)) × Resolver.State
  | [], s => ([], s)
  | call :: calls, s =>
    let (outcome, t) := call.perform resolver graph s
    let (outcomes, u) := performAll resolver graph calls t
    (outcome :: outcomes, u)

/-- Where no container is being spelled out, none is after the call. -/
theorem perform_eq (call : Call) {s : Resolver.State} (hinside : s.inside = []) :
    call.perform resolver graph s = s.run (call.answer resolver graph) := by
  cases call with
  | register ids => rfl
  | freeze => rfl
  | resolve schema usage =>
    cases schema with
    | none => rfl
    | some id =>
      simp only [perform, Resolver.expand_eq, hinside]
      exact (Resolver.State.run_map _ _ _).symm

theorem inside_perform (call : Call) {s : Resolver.State} (hinside : s.inside = []) :
    (call.perform resolver graph s).2.inside = [] := by
  rw [perform_eq call hinside]
  exact hinside

theorem inside_performAll (calls : List Call) {s : Resolver.State} (hinside : s.inside = []) :
    (performAll resolver graph calls s).2.inside = [] := by
  induction calls generalizing s with
  | nil => exact hinside
  | cons call calls ih => exact ih (inside_perform call hinside)

theorem performAll_append (calls later : List Call) (s : Resolver.State) :
    (performAll resolver graph (calls ++ later) s).2
      = (performAll resolver graph later (performAll resolver graph calls s).2).2 := by
  induction calls generalizing s with
  | nil => rfl
  | cons call calls ih => exact ih _

theorem decided_answer (hsteady : resolver.Steady) {registry : Registry}
    (hfrozen : registry.frozen = true) (call : Call) :
    Decided (fun s : Typing => s.registry = registry) (call.answer resolver graph) := by
  cases call with
  | register ids =>
    exact decided_bind (Registry.decided_register hfrozen _ _ _) fun _ => decided_pure _
  | resolve schema usage =>
    exact decided_bind (resolver.decided_resolve hsteady hfrozen _ _ _) fun _ => decided_pure _
  | freeze => exact decided_bind (Registry.decided_freeze hfrozen) fun _ => decided_pure _

/-- By induction on the calls: each of them leaves the registry to the next one as it was, and has
the outcome it has in any state with this registry. -/
theorem performAll_of_frozen (hsteady : resolver.Steady) (calls : List Call)
    {s t : Resolver.State} (hfrozen : s.typing.registry.frozen = true)
    (hsame : t.typing.registry = s.typing.registry) (hs : s.inside = []) (ht : t.inside = []) :
    (performAll resolver graph calls t).1
      = calls.map (fun call => (call.perform resolver graph s).1)
      ∧ (performAll resolver graph calls t).2.typing.registry = s.typing.registry := by
  induction calls generalizing t with
  | nil => exact ⟨rfl, hsame⟩
  | cons call calls ih =>
    have hdecided : Decided (fun u : Typing => u.registry = s.typing.registry)
        (call.answer resolver graph) := call.decided_answer hsteady hfrozen
    have houtcome : (call.perform resolver graph t).1 = (call.perform resolver graph s).1 := by
      rw [perform_eq call hs, perform_eq call ht]
      exact hdecided.same hsame rfl
    have hkept : (call.perform resolver graph t).2.typing.registry = s.typing.registry := by
      rw [perform_eq call ht]
      exact hdecided.keeps hsame
    obtain ⟨houtcomes, hregistry⟩ := ih hkept (inside_perform call ht)
    exact ⟨congrArg₂ List.cons houtcome houtcomes, hregistry⟩

end Call

/-! ### The second phase -/

namespace Generation

/-- The state after some operations have been built, whether this has failed or not. -/
def afterBuilds (builder : Builder) (operations : List Operation) (s : Typing) : Typing :=
  operations.foldl (fun s operation => (runStep (builder.build operation) s).2) s

variable {builder : Builder} {t : Typing}

theorem registry_afterBuilds (hsteady : builder.resolver.Steady)
    (hfrozen : t.registry.frozen = true) (operations : List Operation) {s : Typing}
    (hs : s.registry = t.registry) : (afterBuilds builder operations s).registry = t.registry := by
  induction operations generalizing s with
  | nil => exact hs
  | cons operation operations ih =>
    exact ih ((builder.decided_build hsteady hfrozen operation).keeps hs)

section Outcomes

variable {ε α β : Type} {f : α → Except ε β}

theorem mapM_ok_of_map {as : List α} {bs : List β} (h : as.map f = bs.map .ok) :
    as.mapM f = .ok bs := by
  induction as generalizing bs with
  | nil =>
    cases bs with
    | nil => rfl
    | cons b bs => cases h
  | cons a as ih =>
    cases bs with
    | nil => cases h
    | cons b bs =>
      obtain ⟨hfirst, hrest⟩ := List.cons.inj h
      rw [List.mapM_cons, hfirst, ih hrest]
      rfl

theorem map_of_mapM_ok {as : List α} {bs : List β} (h : as.mapM f = .ok bs) :
    as.map f = bs.map .ok := by
  induction as generalizing bs with
  | nil =>
    cases h
    rfl
  | cons a as ih =>
    rw [List.mapM_cons] at h
    cases hfirst : f a with
    | error e =>
      rw [hfirst] at h
      cases h
    | ok b =>
      cases hrest : as.mapM f with
      | error e =>
        rw [hfirst, hrest] at h
        cases h
      | ok rest =>
        rw [hfirst, hrest] at h
        cases h
        rw [List.map_cons, List.map_cons, hfirst, ih hrest]

theorem exists_of_mapM_ok {as : List α} {bs : List β} (h : as.mapM f = .ok bs) {a : α}
    (ha : a ∈ as) : ∃ b ∈ bs, f a = .ok b := by
  have hmem := List.mem_map_of_mem (f := f) ha
  rw [map_of_mapM_ok h] at hmem
  obtain ⟨b, hb, hsame⟩ := List.mem_map.mp hmem
  exact ⟨b, hb, hsame.symm⟩

/-- Results that all members of a list have are found with them in any order. -/
theorem perm_of_mapM {as as' : List α} {bs : List β} (hperm : as.Perm as')
    (h : as.mapM f = .ok bs) :
    ∃ bs', as'.mapM f = .ok bs' ∧ (as.zip bs).Perm (as'.zip bs') := by
  have h := map_of_mapM_ok h
  have hall : as'.map f ∈ Set.range (List.map Except.ok) := by
    rw [Set.range_list_map]
    intro outcome houtcome
    rw [← (hperm.map f).mem_iff, h] at houtcome
    obtain ⟨b, -, hb⟩ := List.mem_map.mp houtcome
    exact ⟨b, hb⟩
  obtain ⟨bs', h'⟩ := hall
  refine ⟨bs', mapM_ok_of_map h'.symm, ?_⟩
  have hpairs : ∀ {as : List α} {bs : List β}, as.map f = bs.map .ok →
      (as.zip bs).map (Prod.map id Except.ok) = as.map fun a => (a, f a) := by
    intro as bs h
    rw [← List.zip_map, List.map_id, ← h, List.map_prod_left_eq_zip]
  have hinjective : (Prod.map id Except.ok : α × β → α × Except ε β).Injective :=
    Function.Injective.prodMap Function.injective_id fun _ _ heq => Except.ok.inj heq
  rw [← List.map_perm_map_iff hinjective, hpairs h, hpairs h'.symm]
  exact hperm.map _

end Outcomes

end Generation

/-! ### No memory -/

/-- A frozen resolver has no memory.  After any calls and a freeze, no call changes a name, none
leaves a container behind, and each has the outcome that it has as the only one.  So in the second
phase building an operation comes to the same after any others, built or not, and the outcomes of
operations that are built in another order are the same. -/
theorem frozen_without_memory (graph : Graph) :
    (∀ (resolver : Resolver), resolver.Steady → ∀ (calls later : List Call),
      let s := (Call.performAll resolver graph (calls ++ [.freeze]) {}).2
      let t := (Call.performAll resolver graph later s).2
      t.typing.registry = s.typing.registry ∧ s.inside = [] ∧ t.inside = []
        ∧ (Call.performAll resolver graph later s).1
          = later.map (fun call => (call.perform resolver graph s).1)
        ∧ ∀ schema usage, (Call.perform resolver graph (.resolve schema usage) s).1
          = (runStep (resolver.resolve graph schema usage) s.typing).1.map some)
    ∧ ∀ settings language schemas operations s builder t,
      runStep (Generation.prepare settings language graph schemas operations) s = (.ok builder, t) →
        (∀ others operation,
          (Generation.afterBuilds builder others t).registry = t.registry
            ∧ (runStep (builder.build operation) (Generation.afterBuilds builder others t)).1
              = (runStep (builder.build operation) t).1)
        ∧ (∀ others, (runStep (Generation.outcomes builder others) t).1
            = others.mapM fun operation => (runStep (Generation.attempt builder operation) t).1)
        ∧ ∀ others tried, others.Perm operations →
          (runStep (Generation.outcomes builder operations) t).1 = .ok tried →
            ∃ tried', (runStep (Generation.outcomes builder others) t).1 = .ok tried'
              ∧ (operations.zip tried).Perm (others.zip tried') := by
  constructor
  · intro resolver hsteady calls later s t
    have hempty : ({} : Resolver.State).inside = [] := rfl
    have hs : s.inside = [] := Call.inside_performAll _ hempty
    have hfrozen : s.typing.registry.frozen = true := by
      show (Call.performAll resolver graph (calls ++ [.freeze]) {}).2.typing.registry.frozen = true
      rw [Call.performAll_append]
      rfl
    obtain ⟨houtcomes, hregistry⟩ := Call.performAll_of_frozen hsteady later hfrozen rfl hs hs
    refine ⟨hregistry, hs, Call.inside_performAll _ hs, houtcomes, ?_⟩
    intro schema usage
    rw [Call.perform_eq _ hs]
    exact congrArg Prod.fst (Resolver.State.run_map _ _ _)
  · intro settings language schemas operations s builder t hprepare
    obtain ⟨hbuilder, _, -, hregistry⟩ := Generation.prepare_ok hprepare
    have hsteady : builder.resolver.Steady := hbuilder ▸ Resolver.steady_ofLanguage language
    have hfrozen : t.registry.frozen = true := by rw [hregistry]
    have hall : ∀ others, (runStep (Generation.outcomes builder others) t).1
        = others.mapM fun operation => (runStep (Generation.attempt builder operation) t).1 :=
      fun others => runStep_mapM_of_decided
        (fun operation _ => Generation.decided_attempt hsteady hfrozen operation) rfl rfl
    refine ⟨?_, hall, ?_⟩
    · intro others operation
      have hlater := Generation.registry_afterBuilds hsteady hfrozen others rfl
      exact ⟨hlater, (builder.decided_build hsteady hfrozen operation).same hlater rfl⟩
    · intro others tried hperm htried
      rw [hall] at htried
      obtain ⟨tried', hothers, hpairs⟩ := Generation.perm_of_mapM hperm.symm htried
      exact ⟨tried', (hall others).trans hothers, hpairs⟩

/-- Pets and, deep inside of a container, cats. -/
def cageGraph : Graph where
  nodes := #[
    { kinds := Kinds.ofList [.object], typeName := .str "Pet" },
    { kinds := Kinds.ofList [.array], items := some 2 },
    { kinds := Kinds.ofList [.object], additional := .shape 3 },
    { kinds := Kinds.ofList [.object], typeName := .str "Cat" },
    { kinds := Kinds.ofList [.array], items := some 0 }]

/-- The cats have no name and get none any more. -/
def cageCalls : List Call :=
  [.resolve (some 1) {}, .register [3], .resolve (some 4) {}, .resolve (some 1) {}]

/-- The second of these has no parameter list. -/
def cageOperations : List Operation :=
  [{ method := "GET", path := "/pets", responses := some [("200", some { schema := some 4 })] },
   { method := "POST", path := "/pets", parameters := none }]

theorem frozen_without_memory_cages :
    let resolver := Resolver.ofLanguage Language.csharp
    let s := (Call.performAll resolver cageGraph ([.register [0]] ++ [.freeze]) {}).2
    let t := (Call.performAll resolver cageGraph cageCalls s).2
    resolver.Steady
      ∧ s.typing.registry.names = [(0, "Pet")]
      ∧ t.typing.registry = s.typing.registry
      ∧ (Call.performAll resolver cageGraph cageCalls s).1
        = [.error (.unregisteredType "Cat"), .error .frozen,
          .ok (some "System.Collections.Generic.IEnumerable<Pet>"),
          .error (.unregisteredType "Cat")]
      ∧ ∃ builder u tried tried',
        runStep (Generation.prepare {} Language.csharp cageGraph [] cageOperations) {}
          = (.ok builder, u)
        ∧ (runStep (Generation.outcomes builder cageOperations) u).1 = .ok tried
        ∧ tried.map (·.isRight) = [false, true]
        ∧ (runStep (Generation.outcomes builder cageOperations.reverse) u).1 = .ok tried'
        ∧ (cageOperations.zip tried).Perm (cageOperations.reverse.zip tried') := by
  intro resolver s t
  have hsteady : resolver.Steady := Resolver.steady_ofLanguage Language.csharp
  obtain ⟨hcalls, hbuilds⟩ := frozen_without_memory cageGraph
  obtain ⟨hregistry, -, -, houtcomes, -⟩ := hcalls resolver hsteady [.register [0]] cageCalls
  have hnames : s.typing.registry.names = [(0, "Pet")] := by decide +kernel
  have hvisit : cageGraph.typeDefinitions (Generation.roots [] cageOperations) = [0] := by
    have hwalk : cageGraph.visit [] (Generation.roots [] cageOperations) = [4, 0] := by
      simp [Graph.visit, cageGraph, Graph.node, Node.children, Generation.roots, cageOperations,
        Operation.schemas]
    rw [Graph.typeDefinitions, hwalk]
    decide +kernel
  have hpass : (runStep (do
      let builder ← Generation.prepare {} Language.csharp cageGraph [] cageOperations
      Generation.outcomes builder cageOperations) {}).1.toOption.map (·.map (·.isRight))
        = some [false, true] := by
    unfold Generation.prepare
    rw [hvisit]
    decide +kernel
  refine ⟨hsteady, hnames, hregistry, houtcomes.trans (by decide +kernel), ?_⟩
  rcases hprepare : runStep (Generation.prepare {} Language.csharp cageGraph [] cageOperations) {}
    with ⟨failure | builder, u⟩
  · rw [runStep_bind_of_error hprepare] at hpass
    cases hpass
  · rw [runStep_bind_of_ok hprepare] at hpass
    cases htried : (runStep (Generation.outcomes builder cageOperations) u).1 with
    | error failure =>
      rw [htried] at hpass
      cases hpass
    | ok tried =>
      rw [htried] at hpass
      obtain ⟨-, -, hperm⟩ := hbuilds _ _ _ _ _ _ _ hprepare
      obtain ⟨tried', hother, hpairs⟩ := hperm _ tried cageOperations.reverse_perm htried
      exact ⟨builder, u, tried, tried', rfl, htried, Option.some.inj hpass, hother, hpairs⟩

end ApiClients
