import ApiClients.Language.Known
import ApiClients.Proofs.Resolution

/-!
# Emitted names over a history of calls

A type resolver is used by calls: nodes are registered, types are resolved, the registry is frozen.
This file is about all histories of such calls, those among them that fail included.  What naming a
node keeps is kept by every call (`Call.upholds_step`) and so by every history: the registry stays
consistent, and a later registry extends an earlier one.
-/

namespace ApiClients

/-- A call of a type resolver. -/
inductive Call where
  | register (ids : List NodeId)
  | resolve (schema : Option NodeId) (usage : Usage)
  | freeze

namespace Call

/-- What a call does. -/
def step (resolver : Resolver) (graph : Graph) : Call → TypingM Unit
  | .register ids => Registry.register resolver.language graph ids
  | .resolve schema usage => do
    let _ ← resolver.resolve graph schema usage
  | .freeze => Registry.freeze

/-- The state after some calls from a state, whether they fail or not. -/
def afterFrom (resolver : Resolver) (graph : Graph) (calls : List Call) (s : Typing) : Typing :=
  calls.foldl (fun s call => (runStep (call.step resolver graph) s).2) s

/-- The state after some calls of a new type resolver. -/
def after (resolver : Resolver) (graph : Graph) (calls : List Call) : Typing :=
  afterFrom resolver graph calls {}

end Call

/-- The base types have no access to the registry. -/
def Resolver.LeavesRegistry (resolver : Resolver) : Prop :=
  ∀ node nullable use s,
    (runStep (resolver.baseType node nullable use) s).2.registry = s.registry

theorem Resolver.leavesRegistry_ofLanguage (language : Language) :
    (Resolver.ofLanguage language).LeavesRegistry := by
  intro node nullable use s
  exact (upholds_primitiveType (P := fun registry => registry = s.registry) (E := fun _ => True)
    language node nullable use (fun _ => trivial) s rfl).1

namespace Registry

/-- Registering a node has nothing to do: it stands for no type definition, or for one that has a
name. -/
def Knows (registry : Registry) (graph : Graph) (id : NodeId) : Prop :=
  (graph.actualNode id).isTypeDefinition = true →
    ∃ name, registry.nameOf? (graph.actual id) = some name

theorem Knows.mono {registry later : Registry} {graph : Graph} {id : NodeId}
    (h : registry.Knows graph id) (hextends : registry.Extends later) : later.Knows graph id := by
  intro hdefinition
  obtain ⟨name, hname⟩ := h hdefinition
  exact ⟨name, hextends.names hname⟩

section

variable {language : Language} {graph : Graph} {ids : List NodeId} {s t : Typing}

/-- The loop of `register`, a node at a time. -/
def registerAll (language : Language) (graph : Graph) (ids : List NodeId) : TypingM Unit := do
  for id in ids do
    let actual := graph.actual id
    if (graph.node actual).isTypeDefinition then
      let _ ← assign language graph actual

theorem runStep_register (language : Language) (graph : Graph) (ids : List NodeId) (s : Typing) :
    runStep (register language graph ids) s =
      if s.registry.frozen then (.error .frozen, s)
      else runStep (registerAll language graph ids) s := by
  unfold register
  rw [runStep_bind_of_ok (runStep_get s)]
  by_cases hfreeze : s.registry.frozen = true
  · simp only [hfreeze, if_true]
    rw [runStep_bind_of_error (runStep_throw Failure.frozen s)]
  · simp only [hfreeze, if_false, Bool.false_eq_true]
    rfl

theorem registerAll_cons_definition {id : NodeId}
    (h : (graph.actualNode id).isTypeDefinition = true) :
    registerAll language graph (id :: ids) =
      assign language graph (graph.actual id) >>= fun _ => registerAll language graph ids := by
  unfold Graph.actualNode at h
  unfold registerAll
  simp only [List.forIn_cons, h, if_true, bind_assoc, pure_bind]

theorem registerAll_cons_other {id : NodeId}
    (h : (graph.actualNode id).isTypeDefinition = false) :
    registerAll language graph (id :: ids) = registerAll language graph ids := by
  unfold Graph.actualNode at h
  unfold registerAll
  simp only [List.forIn_cons, h, if_false, Bool.false_eq_true, pure_bind]

theorem registerAll_nil (language : Language) (graph : Graph) :
    registerAll language graph [] = pure () := by
  unfold registerAll
  rw [List.forIn_nil, pure_bind]

theorem registerAll_append (language : Language) (graph : Graph) (ids more : List NodeId) :
    registerAll language graph (ids ++ more) =
      registerAll language graph ids >>= fun _ => registerAll language graph more := by
  induction ids with
  | nil => rw [List.nil_append, registerAll_nil, pure_bind]
  | cons id ids ih =>
    rw [List.cons_append]
    cases hdefinition : (graph.actualNode id).isTypeDefinition with
    | true =>
      rw [registerAll_cons_definition hdefinition, registerAll_cons_definition hdefinition,
        bind_assoc]
      exact bind_congr fun _ => ih
    | false => rw [registerAll_cons_other hdefinition, registerAll_cons_other hdefinition, ih]

/-- Nodes that have their names already are registered without any change. -/
theorem registerAll_of_knows (h : ∀ id ∈ ids, s.registry.Knows graph id) :
    runStep (registerAll language graph ids) s = (.ok (), s) := by
  induction ids with
  | nil => rfl
  | cons id ids ih =>
    have hrest := ih fun other hother => h other (List.mem_cons_of_mem id hother)
    cases hdefinition : (graph.actualNode id).isTypeDefinition with
    | true =>
      obtain ⟨name, hname⟩ := h id List.mem_cons_self hdefinition
      rw [registerAll_cons_definition hdefinition, runStep_bind_of_ok (assign_of_named hname)]
      exact hrest
    | false =>
      rw [registerAll_cons_other hdefinition]
      exact hrest

theorem extends_registerAll (language : Language) (graph : Graph) (ids : List NodeId)
    (s : Typing) :
    s.registry.Extends (runStep (registerAll language graph ids) s).2.registry := by
  induction ids generalizing s with
  | nil => exact Extends.refl _
  | cons id ids ih =>
    cases hdefinition : (graph.actualNode id).isTypeDefinition with
    | true =>
      have hassign := extends_assign language graph (graph.actual id) s
      rw [registerAll_cons_definition hdefinition, runStep_bind]
      rcases hrun : runStep (assign language graph (graph.actual id)) s with ⟨e | name, t⟩
      · rw [hrun] at hassign
        exact hassign
      · rw [hrun] at hassign
        exact hassign.trans (ih t)
    | false =>
      rw [registerAll_cons_other hdefinition]
      exact ih s

/-- Where registering succeeds, all the nodes have their names afterwards. -/
theorem knows_of_registerAll (h : runStep (registerAll language graph ids) s = (.ok (), t)) :
    ∀ id ∈ ids, t.registry.Knows graph id := by
  induction ids generalizing s with
  | nil => intro id hid; cases hid
  | cons first ids ih =>
    intro id hid
    cases hdefinition : (graph.actualNode first).isTypeDefinition with
    | true =>
      rw [registerAll_cons_definition hdefinition, runStep_bind_ok] at h
      obtain ⟨name, u, hassign, hrest⟩ := h
      rcases List.mem_cons.mp hid with rfl | hid
      · have hlater := extends_registerAll language graph ids u
        rw [hrest] at hlater
        intro _
        exact ⟨name, hlater.names (nameOf?_of_assign hassign)⟩
      · exact ih hrest id hid
    | false =>
      rw [registerAll_cons_other hdefinition] at h
      rcases List.mem_cons.mp hid with rfl | hid
      · intro hdefinition'
        rw [hdefinition] at hdefinition'
        cases hdefinition'
      · exact ih h id hid

end

end Registry

/-- A definition whose name is a text is registered under this text. -/
theorem Registry.identity_of_str {node : Node} {name : String} (h : node.typeName = .str name) :
    Registry.identity node = .ok name := by
  unfold Registry.identity
  rw [h]
  by_cases hempty : name = ""
  · subst hempty
    rfl
  · have hgiven : (Json.str name).given = true := by simp [Json.given, hempty]
    simp [hgiven]

/-! ### Histories -/

section Histories

variable {resolver : Resolver} {graph : Graph}

/-- A property of the registry that naming a node and freezing keep is kept by every call. -/
theorem Call.upholds_step {P : Registry → Prop} (hbase : resolver.LeavesRegistry)
    (hassign : ∀ id s, P s.registry →
      P (runStep (Registry.assign resolver.language graph id) s).2.registry)
    (hfreeze : ∀ registry, P registry → P { registry with frozen := true }) (call : Call) :
    Upholds (fun s : Typing => P s.registry) (fun _ => True) (call.step resolver graph) := by
  have hassigns : ∀ id, Upholds (fun s : Typing => P s.registry) (fun _ => True)
      (Registry.assign resolver.language graph id) :=
    fun id s hs => ⟨hassign id s hs, fun _ _ => trivial⟩
  cases call with
  | register ids => exact Registry.upholds_register (fun id _ => hassigns id) fun _ _ _ => trivial
  | resolve schema usage =>
    refine upholds_bind ?_ fun _ => upholds_pure _
    refine Resolver.upholds_resolve graph.closed_all ?name ?base (fun _ _ => trivial) usage
    case name =>
      intro id _ _
      exact Registry.upholds_name (hassigns _) fun _ => trivial
    case base =>
      intro id _ nullable use s hs
      refine ⟨?_, fun _ _ => trivial⟩
      show P (runStep _ s).2.registry
      rw [hbase _ nullable use s]
      exact hs
  | freeze => exact upholds_modify fun s hs => hfreeze s.registry hs

/-- By induction on the calls: what one call keeps, a history keeps. -/
theorem Call.afterFrom_of_step {P : Registry → Prop}
    (hstep : ∀ call : Call,
      Upholds (fun s : Typing => P s.registry) (fun _ => True) (call.step resolver graph))
    (calls : List Call) {s : Typing} (h : P s.registry) :
    P (Call.afterFrom resolver graph calls s).registry := by
  induction calls generalizing s with
  | nil => exact h
  | cons call calls ih => exact ih (hstep call s h).1

theorem Call.consistent_after (hbase : resolver.LeavesRegistry) (graph : Graph)
    (calls : List Call) : (Call.after resolver graph calls).registry.Consistent graph := by
  refine Call.afterFrom_of_step (Call.upholds_step hbase ?_ ?_) calls
    (Registry.Consistent.empty graph)
  · exact fun id s hs => Registry.consistent_assign resolver.language id hs
  · intro registry h
    exact ⟨h.named, h.emitted, h.single, h.apart, h.distinct⟩

/-- Nothing is taken back, from whatever state the calls begin in. -/
theorem Call.extends_afterFrom (hbase : resolver.LeavesRegistry) (graph : Graph)
    (calls : List Call) (s : Typing) :
    s.registry.Extends (Call.afterFrom resolver graph calls s).registry := by
  refine Call.afterFrom_of_step (Call.upholds_step hbase ?_ ?_) calls (Registry.Extends.refl _)
  · exact fun id t ht => ht.trans (Registry.extends_assign resolver.language graph id t)
  · exact fun registry h => ⟨h.names, h.definitions⟩

theorem Call.after_append (calls later : List Call) :
    Call.after resolver graph (calls ++ later) =
      Call.afterFrom resolver graph later (Call.after resolver graph calls) :=
  List.foldl_append

/-- Nodes of a consistent registry have one emitted name exactly when they have one definition name
and one shape. -/
theorem Registry.Consistent.same_name_iff {registry : Registry} (h : registry.Consistent graph)
    {a b : NodeId} {m n x y : String} (ha : registry.nameOf? a = some m)
    (hb : registry.nameOf? b = some n) (hx : (graph.node a).typeName = .str x)
    (hy : (graph.node b).typeName = .str y) :
    m = n ↔ x = y ∧ graph.fingerprint a = graph.fingerprint b := by
  obtain ⟨identity, fingerprint, hidentity, hfingerprint, hmem⟩ := h.named ha
  obtain ⟨identity', fingerprint', hidentity', hfingerprint', hmem'⟩ := h.named hb
  rw [Registry.identity_of_str hx, Except.ok.injEq] at hidentity
  rw [Registry.identity_of_str hy, Except.ok.injEq] at hidentity'
  subst hidentity hidentity'
  rw [hfingerprint, hfingerprint', Except.ok.injEq]
  constructor
  · rintro rfl
    exact h.apart hmem hmem'
  · rintro ⟨rfl, rfl⟩
    exact h.single hmem hmem'

/-- The names over a history of calls.  After any calls: the emitted name of a node is among the
definitions, which have distinct names; nodes have one emitted name exactly when they have one
definition name and one shape; whatever is called later, names and definitions stay as they are;
and nodes that have been registered are registered again without any change. -/
theorem names_after_calls (resolver : Resolver) (graph : Graph) (hbase : resolver.LeavesRegistry)
    (calls later : List Call) :
    let s := Call.after resolver graph calls
    let t := Call.after resolver graph (calls ++ later)
    (∀ id name, s.registry.nameOf? id = some name → s.registry.isTaken name = true)
      ∧ (s.registry.definitions.map (·.1)).Nodup
      ∧ (∀ a b m n x y, s.registry.nameOf? a = some m → s.registry.nameOf? b = some n →
          (graph.node a).typeName = .str x → (graph.node b).typeName = .str y →
            (m = n ↔ x = y ∧ graph.fingerprint a = graph.fingerprint b))
      ∧ (∀ id name, s.registry.nameOf? id = some name → t.registry.nameOf? id = some name)
      ∧ s.registry.definitions <+: t.registry.definitions
      ∧ (∀ name id, Entries.get? s.registry.definitions name = some id →
          Entries.get? t.registry.definitions name = some id)
      ∧ (∀ ids, (runStep (Registry.register resolver.language graph ids) s).1 = .ok () →
          ∀ id ∈ ids, (runStep (Registry.register resolver.language graph ids) s).2.registry.Knows
            graph id)
      ∧ (∀ id, s.registry.Knows graph id → t.registry.Knows graph id)
      ∧ ∀ ids, (∀ id ∈ ids, s.registry.Knows graph id) →
          (runStep (Registry.register resolver.language graph ids) s).2 = s := by
  intro s t
  have hconsistent : s.registry.Consistent graph := Call.consistent_after hbase graph calls
  have hextends : s.registry.Extends t.registry := by
    have hlater := Call.extends_afterFrom hbase graph later s
    rwa [← Call.after_append] at hlater
  refine ⟨?emitted, hconsistent.distinct, ?same, ?stay, hextends.definitions, ?kept, ?registered,
    fun id h => h.mono hextends, ?again⟩
  case emitted =>
    intro id name hname
    obtain ⟨identity, fingerprint, -, -, hmem⟩ := hconsistent.named hname
    exact hconsistent.emitted hmem
  case same =>
    intro a b m n x y ha hb hx hy
    exact hconsistent.same_name_iff ha hb hx hy
  case stay => exact fun id name hname => hextends.names hname
  case kept =>
    intro name id hid
    obtain ⟨more, hmore⟩ := hextends.definitions
    rw [← hmore, Entries.get?_append, hid, Option.some_or]
  case registered =>
    intro ids hok
    rw [Registry.runStep_register] at hok ⊢
    by_cases hfrozen : s.registry.frozen = true
    · rw [if_pos hfrozen] at hok
      cases hok
    · rw [if_neg hfrozen] at hok ⊢
      exact Registry.knows_of_registerAll (Prod.ext hok rfl)
  case again =>
    intro ids hids
    rw [Registry.runStep_register, Registry.registerAll_of_knows hids]
    by_cases hfrozen : s.registry.frozen = true
    · rw [if_pos hfrozen]
    · rw [if_neg hfrozen]

/-- Two shapes called `Pet`, a definition whose own name is what the second of them is emitted
under, and a reference to the first. -/
def petGraph : Graph where
  nodes := #[
    { kinds := Kinds.ofList [.object], typeName := .str "Pet", properties := [("id", 3)] },
    { kinds := Kinds.ofList [.string], typeName := .str "Pet", enumValues := [.str "cat"] },
    { kinds := Kinds.ofList [.object], typeName := .str "Pet2" },
    { kinds := Kinds.ofList [.integer] },
    { reference := some 0, nullable := true }]

/-- Two of the pets are registered, the third is met as a type is resolved. -/
def petCalls : List Call := [.register [4, 1], .resolve (some 2) {}, .freeze]

theorem names_after_calls_pets :
    let resolver := Resolver.ofLanguage Language.csharp
    let s := Call.after resolver petGraph petCalls
    resolver.LeavesRegistry
      ∧ s.registry.names = [(0, "Pet"), (1, "Pet2"), (2, "Pet22")]
      ∧ s.registry.isTaken "Pet22" = true
      ∧ ("Pet2" = "Pet22" ↔ "Pet" = "Pet2" ∧ petGraph.fingerprint 1 = petGraph.fingerprint 2)
      ∧ (runStep (Registry.register Language.csharp petGraph [2, 4]) s).2 = s := by
  intro resolver s
  have hbase : resolver.LeavesRegistry := Resolver.leavesRegistry_ofLanguage Language.csharp
  have hnames : s.registry.names = [(0, "Pet"), (1, "Pet2"), (2, "Pet22")] := by decide +kernel
  have hname1 : s.registry.nameOf? 1 = some "Pet2" := by
    unfold Registry.nameOf?
    rw [hnames]
    rfl
  have hname2 : s.registry.nameOf? 2 = some "Pet22" := by
    unfold Registry.nameOf?
    rw [hnames]
    rfl
  obtain ⟨hemitted, -, hsame, -, -, -, -, -, hagain⟩ :=
    names_after_calls resolver petGraph hbase petCalls []
  refine ⟨hbase, hnames, hemitted 2 _ hname2, hsame 1 2 _ _ _ _ hname1 hname2 rfl rfl, ?_⟩
  refine hagain [2, 4] ?_
  intro id hid _
  rcases List.mem_pair.mp hid with rfl | rfl
  · exact ⟨"Pet22", by decide +kernel⟩
  · exact ⟨"Pet", by decide +kernel⟩

end Histories

end ApiClients
