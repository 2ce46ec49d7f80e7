import ApiClients.Proofs.Registry
import ApiClients.Responses
import Mathlib.Order.Basic
import Mathlib.Data.Nat.Init

/-!
# What resolving a type can touch

Resolving the type of a node follows references, items and the values of maps, and asks the registry
for the names of the type definitions that it meets.  The induction over the containers that are
being spelled out is made here once (`resolveWithin_closed`); so whatever naming keeps, resolving
keeps (`upholds_resolve`).  Registering nodes and freezing the registry are treated in the
same way.
-/

namespace ApiClients

/-! ### Naming and registering -/

namespace Registry

section

variable {P : Registry → Prop} {E : Failure → Prop} {language : Language} {graph : Graph}

theorem upholds_note (event : Event) :
    Upholds (fun s : Typing => P s.registry) E (Typing.note event) :=
  upholds_modify fun _ h => h

theorem upholds_name {id : NodeId}
    (hassign : Upholds (fun s : Typing => P s.registry) E (assign language graph id))
    (hfrozen : ∀ typeName, E (.unregisteredType typeName)) :
    Upholds (fun s : Typing => P s.registry) E (name language graph id) := by
  unfold name
  refine upholds_get_bind ?_
  intro s hs
  simp only []
  cases s.registry.nameOf? id with
  | some name => exact ⟨hs, fun _ he => by cases he⟩
  | none =>
    by_cases hfreeze : s.registry.frozen = true
    · rw [if_pos hfreeze]
      exact ⟨hs, fun _ he => by cases he; exact hfrozen _⟩
    · rw [if_neg hfreeze]
      exact hassign s hs

theorem upholds_register {ids : List NodeId}
    (hassign : ∀ id, (graph.node id).isTypeDefinition = true →
      Upholds (fun s : Typing => P s.registry) E (assign language graph id))
    (hfrozen : ∀ registry, P registry → registry.frozen = true → E .frozen) :
    Upholds (fun s : Typing => P s.registry) E (register language graph ids) := by
  have hloop : Upholds (fun s : Typing => P s.registry) E (do
      for id in ids do
        let actual := graph.actual id
        if (graph.node actual).isTypeDefinition then
          let _ ← assign language graph actual) := by
    refine upholds_bind (upholds_forIn fun id _ => ?_) fun _ => upholds_pure _
    by_cases hdefinition : (graph.node (graph.actual id)).isTypeDefinition = true
    · simp only [hdefinition, if_true]
      exact upholds_bind (hassign _ hdefinition) fun _ => upholds_pure _
    · simp only [hdefinition, if_false, Bool.false_eq_true]
      exact upholds_pure _
  unfold register
  refine upholds_get_bind ?_
  intro s hs
  by_cases hfreeze : s.registry.frozen = true
  · simp only [hfreeze, if_true]
    exact upholds_bind (upholds_throw (hfrozen _ hs hfreeze)) (fun _ => hloop) s hs
  · simp only [hfreeze, if_false, Bool.false_eq_true]
    exact hloop s hs

end

end Registry

/-! ### Nodes that hold together -/

/-- Some nodes are closed under what resolving follows. -/
structure Graph.Closed (graph : Graph) (reached : NodeId → Prop) : Prop where
  actual : ∀ {id}, reached id → reached (graph.actual id)
  items : ∀ {id child}, reached id → (graph.node id).items = some child → reached child
  values : ∀ {id child}, reached id → (graph.node id).additional = .shape child → reached child

theorem Graph.closed_all (graph : Graph) : graph.Closed fun _ => True :=
  ⟨fun _ => trivial, fun _ _ => trivial, fun _ _ => trivial⟩

/-! ### Resolving, branch by branch -/

namespace Resolver

section Branches

variable {resolver : Resolver} {graph : Graph} {around : List NodeId} {id : NodeId} {usage : Usage}

/-- Whether the use, the node or the node that carries its shape admits null. -/
def admitsNull (graph : Graph) (id : NodeId) (usage : Usage) : Bool :=
  usage.nullable || (graph.node id).isNullable || (graph.actualNode id).isNullable

/-- The type of the item of an array. -/
def itemType (resolver : Resolver) (graph : Graph) (around : List NodeId) (id : NodeId)
    (usage : Usage) : TypingM String :=
  match (graph.actualNode id).items with
  | some child =>
    resolver.resolveWithin graph (graph.actual id :: around) child
      { fallbackName := usage.fallbackName ++ "Item" }
  | none =>
    pure (if (graph.actualNode id).isFile then resolver.language.fileParameter
      else resolver.language.any)

/-- The type of the values of a map. -/
def valueType (resolver : Resolver) (graph : Graph) (around : List NodeId) (id : NodeId)
    (usage : Usage) : TypingM String :=
  match (graph.actualNode id).additional with
  | .shape child =>
    resolver.resolveWithin graph (graph.actual id :: around) child
      { fallbackName := usage.fallbackName ++ "Value" }
  | _ => pure resolver.language.any

theorem resolveWithin_definition (h : (graph.actualNode id).isTypeDefinition = true) :
    resolver.resolveWithin graph around id usage = do
      let name ← Registry.name resolver.language graph (graph.actual id)
      return resolver.language.nullableIf (admitsNull graph id usage) name := by
  rw [resolveWithin]
  exact if_pos h

theorem resolveWithin_file (h : (graph.actualNode id).isTypeDefinition = false)
    (hfile : ((graph.actualNode id).isFile && !(graph.actualNode id).isArray) = true) :
    resolver.resolveWithin graph around id usage =
      pure (fileType resolver.language usage) := by
  unfold Graph.actualNode at h hfile
  rw [resolveWithin]
  simp only [h, hfile, if_true, if_false, Bool.false_eq_true]

theorem resolveWithin_recursive (h : (graph.actualNode id).isTypeDefinition = false)
    (hfile : ((graph.actualNode id).isFile && !(graph.actualNode id).isArray) = false)
    (hcontainer : (graph.actualNode id).isContainer = true) (haround : graph.actual id ∈ around) :
    resolver.resolveWithin graph around id usage = do
      Typing.note (.recursiveContainer
        (if (graph.actualNode id).typeName.given then (graph.actualNode id).typeName.plain
          else usage.fallbackName) resolver.language.any)
      return resolver.language.nullableIf (admitsNull graph id usage) resolver.language.any := by
  unfold Graph.actualNode at h hfile hcontainer
  rw [resolveWithin]
  simp only [h, hfile, hcontainer, haround, if_false, Bool.false_eq_true, dite_true]
  rfl

theorem resolveWithin_array (h : (graph.actualNode id).isTypeDefinition = false)
    (hcontainer : (graph.actualNode id).isContainer = true) (haround : graph.actual id ∉ around)
    (harray : (graph.actualNode id).isArray = true) :
    resolver.resolveWithin graph around id usage = do
      let item ← itemType resolver graph around id usage
      return resolver.language.nullableIf (admitsNull graph id usage)
        (resolver.language.sequenceOf item) := by
  unfold Graph.actualNode at h hcontainer harray
  rw [resolveWithin, itemType]
  simp only [h, hcontainer, haround, harray, Graph.actualNode, Bool.not_true, Bool.and_false,
    if_false, if_true, Bool.false_eq_true, dite_true, dite_false]
  cases (graph.node (graph.actual id)).items <;> rfl

theorem resolveWithin_map (h : (graph.actualNode id).isTypeDefinition = false)
    (hfile : ((graph.actualNode id).isFile && !(graph.actualNode id).isArray) = false)
    (hcontainer : (graph.actualNode id).isContainer = true) (haround : graph.actual id ∉ around)
    (harray : (graph.actualNode id).isArray = false) :
    resolver.resolveWithin graph around id usage = do
      let value ← valueType resolver graph around id usage
      return resolver.language.nullableIf (admitsNull graph id usage)
        (resolver.language.dictionaryOf value) := by
  unfold Graph.actualNode at h hfile hcontainer harray
  have hnofile : (graph.node (graph.actual id)).isFile = false := by simpa [harray] using hfile
  rw [resolveWithin, valueType]
  simp only [h, hnofile, hcontainer, haround, harray, Graph.actualNode, Bool.false_and, if_false,
    Bool.false_eq_true, dite_true, dite_false]
  cases (graph.node (graph.actual id)).additional <;> rfl

theorem resolveWithin_base (h : (graph.actualNode id).isTypeDefinition = false)
    (hfile : ((graph.actualNode id).isFile && !(graph.actualNode id).isArray) = false)
    (hcontainer : (graph.actualNode id).isContainer = false) :
    resolver.resolveWithin graph around id usage =
      resolver.baseType (graph.actualNode id) (admitsNull graph id usage) usage.fallbackName := by
  unfold Graph.actualNode at h hfile hcontainer
  rw [resolveWithin]
  simp only [h, hfile, hcontainer, if_false, Bool.false_eq_true, dite_false]
  rfl

/-- How a node is taken where its type is asked for inside some containers. -/
inductive Branch (graph : Graph) (around : List NodeId) (id : NodeId) : Prop where
  | definition (h : (graph.actualNode id).isTypeDefinition = true)
  | file (h : (graph.actualNode id).isTypeDefinition = false)
      (hfile : ((graph.actualNode id).isFile && !(graph.actualNode id).isArray) = true)
  | recursive (h : (graph.actualNode id).isTypeDefinition = false)
      (hfile : ((graph.actualNode id).isFile && !(graph.actualNode id).isArray) = false)
      (hcontainer : (graph.actualNode id).isContainer = true) (haround : graph.actual id ∈ around)
  | array (h : (graph.actualNode id).isTypeDefinition = false)
      (hcontainer : (graph.actualNode id).isContainer = true) (haround : graph.actual id ∉ around)
      (harray : (graph.actualNode id).isArray = true)
  | map (h : (graph.actualNode id).isTypeDefinition = false)
      (hfile : ((graph.actualNode id).isFile && !(graph.actualNode id).isArray) = false)
      (hcontainer : (graph.actualNode id).isContainer = true) (haround : graph.actual id ∉ around)
      (harray : (graph.actualNode id).isArray = false)
  | base (h : (graph.actualNode id).isTypeDefinition = false)
      (hfile : ((graph.actualNode id).isFile && !(graph.actualNode id).isArray) = false)
      (hcontainer : (graph.actualNode id).isContainer = false)

theorem branch (graph : Graph) (around : List NodeId) (id : NodeId) : Branch graph around id := by
  cases h : (graph.actualNode id).isTypeDefinition with
  | true => exact .definition h
  | false =>
    cases hfile : ((graph.actualNode id).isFile && !(graph.actualNode id).isArray) with
    | true => exact .file h hfile
    | false =>
      cases hcontainer : (graph.actualNode id).isContainer with
      | false => exact .base h hfile hcontainer
      | true =>
        by_cases haround : graph.actual id ∈ around
        · exact .recursive h hfile hcontainer haround
        · cases harray : (graph.actualNode id).isArray with
          | true => exact .array h hcontainer haround harray
          | false => exact .map h hfile hcontainer haround harray

end Branches

/-! ### What resolving keeps -/

section Keeping

variable {resolver : Resolver} {graph : Graph} {reached : NodeId → Prop}

/-- What holds of types that are given at once, with an event or without, what is kept where a type
is made from the type of a part, and what holds of the names and the base types that are met: it
holds of resolving. -/
theorem resolveWithin_closed {C : TypingM String → Prop} (hreached : graph.Closed reached)
    (hpure : ∀ type, C (pure type))
    (hnote : ∀ event type, C (do Typing.note event; return type))
    (hmap : ∀ step (f : String → String), C step → C (do return f (← step)))
    (hname : ∀ id, reached id → (graph.actualNode id).isTypeDefinition = true →
      C (Registry.name resolver.language graph (graph.actual id)))
    (hbase : ∀ id, reached id → ∀ nullable use,
      C (resolver.baseType (graph.actualNode id) nullable use))
    (around : List NodeId) {id : NodeId} (hid : reached id) (usage : Usage) :
    C (resolver.resolveWithin graph around id usage) := by
  induction hsize : graph.unseen around using Nat.strongRecOn generalizing around id usage with
  | ind size ih =>
    subst hsize
    cases branch graph around id with
    | definition h =>
      rw [resolveWithin_definition h]
      exact hmap _ _ (hname id hid h)
    | file h hfile =>
      rw [resolveWithin_file h hfile]
      exact hpure _
    | recursive h hfile hcontainer haround =>
      rw [resolveWithin_recursive h hfile hcontainer haround]
      exact hnote _ _
    | array h hcontainer haround harray =>
      have hfewer := graph.unseen_cons_lt haround (graph.lt_size_of_isContainer hcontainer)
      rw [resolveWithin_array h hcontainer haround harray]
      refine hmap _ _ ?_
      unfold itemType
      cases hchild : (graph.actualNode id).items with
      | none => exact hpure _
      | some child => exact ih _ hfewer _ (hreached.items (hreached.actual hid) hchild) _ rfl
    | map h hfile hcontainer haround harray =>
      have hfewer := graph.unseen_cons_lt haround (graph.lt_size_of_isContainer hcontainer)
      rw [resolveWithin_map h hfile hcontainer haround harray]
      refine hmap _ _ ?_
      unfold valueType
      cases hchild : (graph.actualNode id).additional with
      | unsaid => exact hpure _
      | allowed _ => exact hpure _
      | shape child => exact ih _ hfewer _ (hreached.values (hreached.actual hid) hchild) _ rfl
    | base h hfile hcontainer =>
      rw [resolveWithin_base h hfile hcontainer]
      exact hbase id hid _ _

theorem resolve_closed {C : TypingM String → Prop} (hreached : graph.Closed reached)
    (hpure : ∀ type, C (pure type))
    (hnote : ∀ event type, C (do Typing.note event; return type))
    (hmap : ∀ step (f : String → String), C step → C (do return f (← step)))
    (hname : ∀ id, reached id → (graph.actualNode id).isTypeDefinition = true →
      C (Registry.name resolver.language graph (graph.actual id)))
    (hbase : ∀ id, reached id → ∀ nullable use,
      C (resolver.baseType (graph.actualNode id) nullable use))
    {schema : Option NodeId} (hschema : ∀ id, schema = some id → reached id) (usage : Usage) :
    C (resolver.resolve graph schema usage) := by
  cases schema with
  | none => exact hpure _
  | some id =>
    exact resolveWithin_closed hreached hpure hnote hmap hname hbase [] (hschema id rfl) usage

/-- Resolving keeps a property of the state, also where it fails. -/
def Keeps (resolver : Resolver) (graph : Graph) (P : Typing → Prop) : Prop :=
  ∀ ⦃schema usage s outcome t⦄, P s →
    runStep (resolver.resolve graph schema usage) s = (outcome, t) → P t

theorem keeps_true (resolver : Resolver) (graph : Graph) : resolver.Keeps graph fun _ => True :=
  fun _ _ _ _ _ _ _ => trivial

variable {P : Registry → Prop} {E : Failure → Prop}

/-- What naming the type definitions among some nodes keeps, and what the base types keep, is kept
by resolving any of these nodes. -/
theorem upholds_resolve (hreached : graph.Closed reached)
    (hname : ∀ id, reached id → (graph.actualNode id).isTypeDefinition = true →
      Upholds (fun s : Typing => P s.registry) E
        (Registry.name resolver.language graph (graph.actual id)))
    (hbase : ∀ id, reached id → ∀ nullable use, Upholds (fun s : Typing => P s.registry) E
      (resolver.baseType (graph.actualNode id) nullable use))
    {schema : Option NodeId} (hschema : ∀ id, schema = some id → reached id) (usage : Usage) :
    Upholds (fun s : Typing => P s.registry) E (resolver.resolve graph schema usage) :=
  resolve_closed hreached (fun _ => upholds_pure _)
    (fun event _ => upholds_bind (Registry.upholds_note event) fun _ => upholds_pure _)
    (fun _ _ hstep => upholds_bind hstep fun _ => upholds_pure _) hname hbase hschema usage

/-- The base types of a language fail where the format of a node cannot be looked up. -/
theorem upholds_primitiveType (language : Language) (node : Node) (nullable : Bool) (use : String)
    (hmalformed : node.format.isKey = false → E .malformed) :
    Upholds (fun s : Typing => P s.registry) E (primitiveType language node nullable use) := by
  have hformat : ∀ primitive failure,
      language.primitive? primitive node.format = .error failure → E failure := by
    intro primitive failure h
    suffices hfailure : failure = .malformed ∧ node.format.isKey = false by
      rw [hfailure.1]
      exact hmalformed hfailure.2
    unfold Language.primitive? at h
    cases hfind : language.primitives.find? (·.1 == primitive) with
    | none => simp [hfind] at h
    | some entry =>
      simp only [hfind] at h
      cases hformat : node.format <;> simp_all [Spellings.get, Except.map, Json.isKey]
  unfold primitiveType
  cases node.kinds.primitive? with
  | none =>
    by_cases hnoted : (!node.kinds.atMostObject || !node.properties.isEmpty) = true
    · simp only [hnoted, if_true]
      exact upholds_bind (Registry.upholds_note _) fun _ => upholds_pure _
    · simp only [hnoted, if_false, Bool.false_eq_true]
      exact upholds_pure _
  | some primitive =>
    refine upholds_bind (upholds_mk (hformat primitive)) fun type => ?_
    cases type with
    | some type => exact upholds_pure _
    | none => exact upholds_bind (Registry.upholds_note _) fun _ => upholds_pure _

end Keeping

end Resolver

/-! ### The exception type -/

namespace Responses

/-- The use that the type of a response is asked for in. -/
def usage (isSuccess : Bool) (response : Response) : Usage :=
  { nullable := response.nullable
    fallbackName := if isSuccess then "Response" else "Exception"
    isResponse := true }

/-- The exception type of an operation that has some errors: the type of the error if it is one
alone. -/
def errorType (resolver : Resolver) (graph : Graph) (key : String) :
    List Response → TypingM String
  | [error] =>
    match error.schema with
    | none => pure resolver.language.exceptionFallback
    | some id =>
      if graph.isEmpty id then pure resolver.language.exceptionFallback
      else resolver.resolve graph (some id) (usage false error)
  | errors => do
    if !errors.isEmpty then
      Typing.note (.severalErrors key errors.length resolver.language.genericException)
    return resolver.language.genericException

theorem exceptionType_eq (resolver : Resolver) (graph : Graph) (operation : Operation) :
    exceptionType resolver graph operation = Typing.lift (checked operation) >>= fun responses =>
      errorType resolver graph operation.key ((responses.filter fun entry =>
        !(successCodes (responses.map (·.1))).contains entry.1).map (·.2)) := by
  refine bind_congr fun responses => ?_
  dsimp only
  generalize List.filter _ responses = found
  match found with
  | [] => rfl
  | [(_, error)] => rfl
  | _ :: _ :: rest => simp [errorType]

/-- What holds of types that are given at once, with an event or without, and of the types of all
errors holds of the exception type. -/
theorem errorType_closed {C : TypingM String → Prop} {resolver : Resolver} {graph : Graph}
    (hpure : ∀ type, C (pure type))
    (hnote : ∀ event type, C (do Typing.note event; return type)) {errors : List Response}
    (hresolve : ∀ error ∈ errors, C (resolver.resolve graph error.schema (usage false error)))
    (key : String) : C (errorType resolver graph key errors) := by
  match errors with
  | [] => exact hpure _
  | _ :: _ :: _ => exact hnote _ _
  | [error] =>
    have herror := hresolve error List.mem_cons_self
    simp only [errorType]
    split
    · exact hpure _
    · rename_i id hschema
      rw [hschema] at herror
      split
      · exact hpure _
      · exact herror

end Responses

end ApiClients
