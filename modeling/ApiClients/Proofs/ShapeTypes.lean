import ApiClients.Proofs.EndlessShapes
import ApiClients.Proofs.FrozenResolution

/-!
# The type of a shape

The type of a node is spelled out from what the containers in it say, up to the type definition in
which they may end (`Graph.Meets`), whose emitted name stands in its place.  All that is spelled out
can be read off the fingerprint of the node; of the type definition the fingerprint tells no more
than what it is called in the document.  So `Fingerprint.type` is the type of a shape, given what is
emitted for the definition that it ends in, and resolving in a frozen registry comes to it
(`outcome_eq_type`).
-/

namespace ApiClients

/-! ### Where the containers end -/

/-- A type definition whose name stands in the type of a node: the node stands for it, or it is met
in the items or values of the container that the node stands for. -/
inductive Graph.Meets (graph : Graph) : NodeId → NodeId → Prop
  | here {id : NodeId} (h : (graph.actualNode id).isTypeDefinition = true) :
      Meets graph id (graph.actual id)
  | item {id child last : NodeId} (h : (graph.actualNode id).isTypeDefinition = false)
      (harray : (graph.actualNode id).isArray = true)
      (hchild : (graph.actualNode id).items = some child) (hrest : Meets graph child last) :
      Meets graph id last
  | value {id child last : NodeId} (h : (graph.actualNode id).isTypeDefinition = false)
      (harray : (graph.actualNode id).isArray = false)
      (hfile : (graph.actualNode id).isFile = false)
      (hmap : (graph.actualNode id).isDictionary = true)
      (hchild : (graph.actualNode id).additional = .shape child) (hrest : Meets graph child last) :
      Meets graph id last

namespace Graph

variable {graph : Graph} {id last other : NodeId}

theorem Meets.definition (h : graph.Meets id last) :
    (graph.actualNode last).isTypeDefinition = true ∧ graph.actual last = last := by
  induction h with
  | @here id h => exact ⟨by rwa [actualNode_actual], actual_actual graph id⟩
  | item _ _ _ _ ih => exact ih
  | value _ _ _ _ _ _ ih => exact ih

theorem Meets.itself (href : (graph.node id).reference = none)
    (h : (graph.node id).isTypeDefinition = true) : graph.Meets id id := by
  have hactual : graph.actual id = id := follow_none [] href
  have hmeets : graph.Meets id (graph.actual id) := .here (by rwa [actualNode, hactual])
  rwa [hactual] at hmeets

/-- A node meets one type definition at most. -/
theorem Meets.unique (h : graph.Meets id last) (h' : graph.Meets id other) : last = other := by
  induction h with
  | here h => cases h' <;> simp_all
  | item h harray hchild _ ih =>
    cases h' with
    | here h' => simp_all
    | item _ _ hchild' hrest' =>
      rw [hchild, Option.some.injEq] at hchild'
      exact ih (hchild' ▸ hrest')
    | value _ harray' => simp_all
  | value h harray _ _ hchild _ ih =>
    cases h' with
    | here h' => simp_all
    | item _ harray' => simp_all
    | value _ _ _ _ hchild' hrest' =>
      rw [hchild, Additional.shape.injEq] at hchild'
      exact ih (hchild' ▸ hrest')

theorem Meets.within {roots : List NodeId} (h : graph.Meets id last)
    (hid : graph.Within roots id) : graph.Within roots last := by
  induction h with
  | here => exact hid.actual
  | item _ _ hchild _ ih => exact ih (hid.actual.step (refersTo_items hchild))
  | value _ _ _ _ hchild _ ih => exact ih (hid.actual.step (refersTo_additional hchild))

end Graph

/-! ### What a fingerprint says of the type -/

namespace Fingerprint

/-- The shape itself, without the references to it. -/
def core : Fingerprint → Fingerprint
  | .reference _ target => target.core
  | other => other

/-- Whether a reference to the shape admits null; only the first one counts. -/
def admitsNull : Fingerprint → Bool
  | .reference nullable _ => nullable
  | _ => false

/-- Whether properties beyond the listed ones are admitted. -/
def admits : Fingerprint → Bool
  | .unsaid => false
  | .allowed yes => yes
  | _ => true

/-- Whether a shape is a map. -/
def isMap (outline : Outline) (additional : Fingerprint)
    (properties : List (String × Fingerprint)) : Bool :=
  properties.isEmpty && additional.admits
    && (outline.kinds.atMostObject || decide (outline.kinds = Kinds.ofList [.object, .null]))

end Fingerprint

/-- The type of a shape that is neither a type definition nor a file nor a container. -/
def Language.baseType (language : Language) (kinds : Kinds) (format : Json) (nullable : Bool) :
    Except Failure String :=
  match kinds.primitive? with
  | none => .ok (language.nullableIf nullable language.any)
  | some primitive =>
    (language.primitive? primitive format).map fun type =>
      language.nullableIf nullable (type.getD language.any)

namespace Fingerprint

/-- The type of a shape, with null admitted if so asked.  A file has the type that is given for
files, and the definition that the shape ends in the one that `ending` says. -/
def type (language : Language) (ending : Bool → Except Failure String) :
    Fingerprint → Bool → String → Except Failure String
  | .unsaid, _, _ => .ok language.any
  | .allowed _, _, _ => .ok language.any
  | .reference _ target, nullable, file => type language ending target nullable file
  | .named _, nullable, _ => ending nullable
  | .shape outline items additional properties, nullable, file =>
    let nullable := nullable || outline.nullable || outline.kinds.has .null
    if outline.kinds.has .array then
      let item :=
        if items = .unsaid then
          .ok (if outline.kinds.has .file then language.fileParameter else language.any)
        else type language ending items items.admitsNull language.fileParameter
      item.map fun item => language.nullableIf nullable (language.sequenceOf item)
    else if outline.kinds.has .file then .ok file
    else if isMap outline additional properties then
      let value := type language ending additional additional.admitsNull language.fileParameter
      value.map fun value => language.nullableIf nullable (language.dictionaryOf value)
    else language.baseType outline.kinds outline.format nullable

theorem type_core (language : Language) (ending : Bool → Except Failure String)
    (nullable : Bool) (file : String) : ∀ fingerprint : Fingerprint,
    type language ending fingerprint.core nullable file =
      type language ending fingerprint nullable file
  | .reference _ target => by
    rw [core, type]
    exact type_core language ending nullable file target
  | .unsaid => rfl
  | .allowed _ => rfl
  | .named _ => rfl
  | .shape _ _ _ _ => rfl

end Fingerprint

/-! ### Shapes spelled out -/

namespace Graph

section

variable {inner : NodeId → Except Failure Fingerprint} {node : Node} {graph : Graph}
  {path : List NodeId} {id : NodeId} {fingerprint : Fingerprint}

/-- A node that stands for itself is spelled out part by part. -/
theorem spell_parts (href : node.reference = none) (h : spell inner node = .ok fingerprint) :
    ∃ required items additional properties,
      fingerprint = .shape (outline node required) items additional properties
        ∧ spellItems inner node = .ok items ∧ spellAdditional inner node = .ok additional
        ∧ spellProperties inner node = .ok properties := by
  unfold spell at h
  rw [href] at h
  obtain ⟨items, hitems, h⟩ := Except.bind_ok.mp h
  obtain ⟨additional, hadditional, h⟩ := Except.bind_ok.mp h
  obtain ⟨properties, hproperties, h⟩ := Except.bind_ok.mp h
  cases hsort : Json.sort? node.required with
  | none =>
    simp only [hsort] at h
    cases h
  | some required =>
    simp only [hsort] at h
    cases h
    exact ⟨required, items, additional, properties, rfl, hitems, hadditional, hproperties⟩

/-- A node that stands for another one is spelled out as a reference to it. -/
theorem spell_reference {target : NodeId} (href : node.reference = some target)
    (h : spell inner node = .ok fingerprint) :
    ∃ part, inner target = .ok part ∧ fingerprint = .reference node.nullable part := by
  unfold spell at h
  rw [href] at h
  obtain ⟨part, hpart, h⟩ := Except.bind_ok.mp h
  cases h
  exact ⟨part, hpart, rfl⟩

/-- Properties are spelled out one by one, in the order of their names. -/
theorem spellProperties_parts {properties : List (String × Fingerprint)}
    (h : spellProperties inner node = .ok properties) :
    List.Forall₂ (fun entry part => part.1 = entry.1 ∧ inner entry.2 = .ok part.2)
      (Entries.sortByKey node.properties) properties := by
  unfold spellProperties at h
  generalize Entries.sortByKey node.properties = entries at h ⊢
  induction entries generalizing properties with
  | nil =>
    cases h
    exact .nil
  | cons entry entries ih =>
    rw [List.mapM_cons] at h
    obtain ⟨first, hfirst, h⟩ := Except.bind_ok.mp h
    obtain ⟨parts, hparts, h⟩ := Except.bind_ok.mp h
    obtain ⟨part, hpart, hnamed⟩ := Except.bind_ok.mp hfirst
    cases hnamed
    cases h
    exact .cons ⟨rfl, hpart⟩ (ih hparts)

/-- How a chain of references ends for a node that has a fingerprint: in a type definition, or in a
node that is spelled out. -/
theorem chain_of_ok (path : List NodeId) (id : NodeId)
    (h : graph.nestedFingerprint path false id = .ok fingerprint) :
    ∃ last around, Relation.ReflTransGen graph.StandsFor id last
      ∧ (graph.node last).reference = none ∧ path ⊆ around
      ∧ ((graph.node last).isTypeDefinition = true
          ∧ fingerprint.core = .named (graph.node last).typeName.normal
        ∨ (graph.node last).isTypeDefinition = false ∧ last ∉ around
          ∧ spell (graph.nestedFingerprint (last :: around) false) (graph.node last) =
            .ok fingerprint.core) := by
  induction path, id using graph.nested_induction generalizing fingerprint with
  | h path id ih =>
    cases hnamed : (graph.node id).isOpaque with
    | true =>
      rw [nestedFingerprint_of_named hnamed] at h
      cases h
      simp only [Node.isOpaque, Bool.and_eq_true, Option.isNone_iff_eq_none] at hnamed
      exact ⟨id, path, .refl, hnamed.1, List.Subset.refl _, .inl ⟨hnamed.2, rfl⟩⟩
    | false =>
      rw [nestedFingerprint_of_spelled (.inl hnamed)] at h
      by_cases hpath : id ∈ path
      · rw [if_pos hpath] at h
        cases h
      rw [if_neg hpath] at h
      cases href : (graph.node id).reference with
      | none =>
        have hdefinition : (graph.node id).isTypeDefinition = false := by
          simpa [Node.isOpaque, href] using hnamed
        refine ⟨id, path, .refl, href, List.Subset.refl _, .inr ⟨hdefinition, hpath, ?_⟩⟩
        by_cases hlt : id < graph.size
        · rw [if_pos hlt] at h
          obtain ⟨_, _, _, _, rfl, -, -, -⟩ := spell_parts href h
          exact h
        · rw [if_neg hlt, graph.node_eq_default (Nat.le_of_not_lt hlt)] at h
          cases h
          rw [graph.node_eq_default (Nat.le_of_not_lt hlt)]
          rfl
      | some target =>
        have hlt : id < graph.size := graph.lt_size_of_node_ne fun hempty => by
          rw [hempty] at href
          cases href
        rw [if_pos hlt] at h
        obtain ⟨part, hpart, rfl⟩ := spell_reference href h
        obtain ⟨last, around, hchain, hlast, hsubset, hcase⟩ := ih hpath hlt target hpart
        exact ⟨last, around, hchain.head href, hlast,
          fun other hother => hsubset (List.mem_cons_of_mem id hother), hcase⟩

end

section

variable {graph : Graph} {path : List NodeId} {id : NodeId} {fingerprint : Fingerprint}

/-- The fingerprint of a node is no mark for one that is missing. -/
theorem admits_of_ok (h : graph.nestedFingerprint path false id = .ok fingerprint) :
    fingerprint ≠ .unsaid ∧ fingerprint.admits = true := by
  obtain ⟨last, around, -, hlast, -, ⟨-, hcore⟩ | ⟨-, -, hspell⟩⟩ := chain_of_ok path id h
  · cases fingerprint <;> simp_all [Fingerprint.core, Fingerprint.admits]
  · obtain ⟨_, _, _, _, hcore, -, -, -⟩ := spell_parts hlast hspell
    cases fingerprint <;> simp_all [Fingerprint.core, Fingerprint.admits]

/-- Only a reference says of itself whether it admits null. -/
theorem admitsNull_of_ok (h : graph.nestedFingerprint path false id = .ok fingerprint) :
    fingerprint.admitsNull =
      ((graph.node id).reference.isSome && (graph.node id).nullable) := by
  rw [nestedFingerprint_eq] at h
  cases href : (graph.node id).reference with
  | none =>
    split at h
    · cases h
      rfl
    · split at h
      · cases h
      · split at h
        · obtain ⟨_, _, _, _, rfl, -, -, -⟩ := spell_parts href h
          rfl
        · cases h
          rfl
  | some target =>
    have hlt : id < graph.size := graph.lt_size_of_node_ne fun hempty => by
      rw [hempty] at href
      cases href
    have hspelled : (graph.node id).isOpaque = false := by simp [Node.isOpaque, href]
    simp only [hspelled, hlt, if_true, Bool.false_and, if_false, Bool.false_eq_true] at h
    split at h
    · cases h
    · obtain ⟨part, -, rfl⟩ := spell_reference href h
      simp [Fingerprint.admitsNull]

end

end Graph

/-- A node is a map if it is one as it is spelled out. -/
theorem isMap_of_spelled {inner : NodeId → Except Failure Fingerprint} {node : Node}
    (required : List Json) {additional : Fingerprint} {properties : List (String × Fingerprint)}
    (hinner : ∀ child part, inner child = .ok part → part.admits = true)
    (hadditional : Graph.spellAdditional inner node = .ok additional)
    (hproperties : Graph.spellProperties inner node = .ok properties) :
    Fingerprint.isMap (Graph.outline node required) additional properties = node.isDictionary := by
  have hempty : properties.isEmpty = node.properties.isEmpty := by
    have hparts := Graph.spellProperties_parts hproperties
    have hsorted : ∀ entry, entry ∈ Entries.sortByKey node.properties ↔ entry ∈ node.properties :=
      fun _ => Entries.mem_sortByKey
    cases hparts' : properties with
    | nil =>
      rw [hparts', List.forall₂_nil_right_iff] at hparts
      simp only [hparts, List.not_mem_nil, false_iff] at hsorted
      rw [List.eq_nil_iff_forall_not_mem.mpr hsorted]
      rfl
    | cons part parts =>
      rw [hparts'] at hparts
      obtain ⟨entry, entries, -, -, hcons⟩ := List.forall₂_cons_right_iff.mp hparts
      have hmem := (hsorted entry).mp (hcons ▸ List.mem_cons_self)
      cases hnil : node.properties with
      | nil =>
        rw [hnil] at hmem
        cases hmem
      | cons _ _ => rfl
  have hadmits : additional.admits = node.additional.admits := by
    unfold Graph.spellAdditional at hadditional
    cases hsaid : node.additional with
    | unsaid =>
      rw [hsaid] at hadditional
      cases hadditional
      rfl
    | allowed yes =>
      rw [hsaid] at hadditional
      cases hadditional
      rfl
    | shape child =>
      rw [hsaid] at hadditional
      exact hinner child additional hadditional
  unfold Fingerprint.isMap Node.isDictionary
  rw [hempty, hadmits]
  rfl

namespace Graph

/-- What a fingerprint says of the node that carries the shape: its name if it is a type definition,
and otherwise its parts, which are spelled out inside of it and of more nodes. -/
inductive Core (graph : Graph) (path : List NodeId) (id : NodeId) : Fingerprint → Prop
  | named (h : (graph.actualNode id).isTypeDefinition = true) :
      Core graph path id (.named (graph.actualNode id).typeName.normal)
  | shape {around : List NodeId} {required : List Json} {items additional : Fingerprint}
      {properties : List (String × Fingerprint)}
      (h : (graph.actualNode id).isTypeDefinition = false) (hsubset : path ⊆ around)
      (hfresh : graph.actual id ∉ around)
      (hitems : spellItems (graph.nestedFingerprint (graph.actual id :: around) false)
        (graph.actualNode id) = .ok items)
      (hadditional : spellAdditional (graph.nestedFingerprint (graph.actual id :: around) false)
        (graph.actualNode id) = .ok additional)
      (hmap : Fingerprint.isMap (outline (graph.actualNode id) required) additional properties =
        (graph.actualNode id).isDictionary) :
      Core graph path id (.shape (outline (graph.actualNode id) required) items additional
        properties)

theorem core_of_ok {graph : Graph} {path : List NodeId} {id : NodeId} {fingerprint : Fingerprint}
    (h : graph.nestedFingerprint path false id = .ok fingerprint) :
    Core graph path id fingerprint.core := by
  obtain ⟨last, around, hchain, hlast, hsubset, hcase⟩ := chain_of_ok path id h
  obtain rfl : graph.actual id = last := actual_of_end hchain hlast
  rcases hcase with ⟨hdefinition, hcore⟩ | ⟨hdefinition, hfresh, hspell⟩
  · rw [hcore]
    exact .named hdefinition
  · obtain ⟨required, _, _, _, hcore, hitems, hadditional, hproperties⟩ := spell_parts hlast hspell
    rw [hcore]
    exact .shape hdefinition hsubset hfresh hitems hadditional
      (isMap_of_spelled required (fun _ _ hpart => (admits_of_ok hpart).2) hadditional hproperties)

/-- Inside a container fewer nodes are left to be met. -/
theorem unseen_inside {graph : Graph} {path around : List NodeId} {id : NodeId}
    (hcontainer : (graph.actualNode id).isContainer = true) (hsubset : path ⊆ around)
    (hfresh : graph.actual id ∉ around) :
    graph.unseen (graph.actual id :: around) < graph.unseen path :=
  Nat.lt_of_lt_of_le (graph.unseen_cons_lt hfresh (graph.lt_size_of_isContainer hcontainer))
    (graph.unseen_of_subset hsubset)

end Graph

/-! ### The definition that a shape ends in -/

/-- The type of a shape is spelled out up to a definition of a name. -/
inductive Fingerprint.Ends (name : Json) : Fingerprint → Prop
  | named : Ends name (.named name)
  | reference {nullable : Bool} {target : Fingerprint} (h : Ends name target) :
      Ends name (.reference nullable target)
  | item {outline : Outline} {items additional : Fingerprint}
      {properties : List (String × Fingerprint)} (harray : outline.kinds.has .array = true)
      (h : Ends name items) : Ends name (.shape outline items additional properties)
  | value {outline : Outline} {items additional : Fingerprint}
      {properties : List (String × Fingerprint)} (harray : outline.kinds.has .array = false)
      (hfile : outline.kinds.has .file = false)
      (hmap : Fingerprint.isMap outline additional properties = true) (h : Ends name additional) :
      Ends name (.shape outline items additional properties)

theorem Fingerprint.ends_core {name : Json} : ∀ {fingerprint : Fingerprint},
    fingerprint.core.Ends name ↔ fingerprint.Ends name
  | .reference _ target => by
    rw [core, ends_core]
    constructor
    · exact .reference
    · rintro (_ | h)
      exact h
  | .unsaid => Iff.rfl
  | .allowed _ => Iff.rfl
  | .named _ => Iff.rfl
  | .shape _ _ _ _ => Iff.rfl

namespace Graph

variable {graph : Graph} {path : List NodeId} {id last : NodeId} {fingerprint : Fingerprint}

/-- The definition that a node meets is called what its fingerprint ends in. -/
theorem Meets.ends (hmeets : graph.Meets id last)
    (h : graph.nestedFingerprint path false id = .ok fingerprint) :
    fingerprint.Ends (graph.node last).typeName.normal := by
  induction hmeets generalizing path fingerprint with
  | here hdefinition =>
    have hcore := core_of_ok h
    rw [← Fingerprint.ends_core]
    generalize fingerprint.core = core at hcore
    cases hcore with
    | named => exact .named
    | shape hnot => simp [hdefinition] at hnot
  | item hnot harray hchild _ ih =>
    have hcore := core_of_ok h
    rw [← Fingerprint.ends_core]
    generalize fingerprint.core = core at hcore
    cases hcore with
    | named hdefinition => simp [hdefinition] at hnot
    | shape _ _ _ hitems =>
      rw [spellItems, hchild] at hitems
      exact .item harray (ih hitems)
  | value hnot harray hfile hmap hchild _ ih =>
    have hcore := core_of_ok h
    rw [← Fingerprint.ends_core]
    generalize fingerprint.core = core at hcore
    cases hcore with
    | named hdefinition => simp [hdefinition] at hnot
    | shape _ _ _ _ hadditional hmap' =>
      rw [spellAdditional, hchild] at hadditional
      exact .value harray hfile (hmap'.trans hmap) (ih hadditional)

/-- A node whose fingerprint ends in a name meets a definition that is called so. -/
theorem meets_of_ends (path : List NodeId) (id : NodeId) {name : Json}
    (h : graph.nestedFingerprint path false id = .ok fingerprint) (hends : fingerprint.Ends name) :
    ∃ last, graph.Meets id last ∧ (graph.node last).typeName.normal = name := by
  induction hunseen : graph.unseen path using Nat.strongRecOn
    generalizing path id fingerprint with
  | ind unseen ih =>
    have hcore := core_of_ok h
    rw [← Fingerprint.ends_core] at hends
    generalize fingerprint.core = core at hcore hends
    cases hcore with
    | named hdefinition =>
      cases hends
      exact ⟨_, .here hdefinition, rfl⟩
    | shape hnot hsubset hfresh hitems hadditional hmap =>
      cases hends with
      | item harray hitem =>
        cases hchild : (graph.actualNode id).items with
        | none =>
          rw [spellItems, hchild] at hitems
          cases hitems
          cases hitem
        | some child =>
          rw [spellItems, hchild] at hitems
          have hcontainer : (graph.actualNode id).isContainer = true :=
            Bool.or_eq_true_iff.mpr (.inl harray)
          have hfewer := hunseen ▸ unseen_inside hcontainer hsubset hfresh
          obtain ⟨last, hmeets, hname⟩ := ih _ hfewer _ child hitems hitem rfl
          exact ⟨last, .item hnot harray hchild hmeets, hname⟩
      | value harray hfile hismap hvalue =>
        have hdictionary := hmap.symm.trans hismap
        cases hchild : (graph.actualNode id).additional with
        | shape child =>
          rw [spellAdditional, hchild] at hadditional
          have hcontainer : (graph.actualNode id).isContainer = true :=
            Bool.or_eq_true_iff.mpr (.inr hdictionary)
          have hfewer := hunseen ▸ unseen_inside hcontainer hsubset hfresh
          obtain ⟨last, hmeets, hname⟩ := ih _ hfewer _ child hadditional hvalue rfl
          exact ⟨last, .value hnot harray hfile hdictionary hchild hmeets, hname⟩
        | _ =>
          rw [spellAdditional, hchild] at hadditional
          cases hadditional
          cases hvalue

end Graph

/-! ### Resolving in a frozen registry -/

/-- What is emitted for a type definition that is referred to. -/
def Registry.mention (registry : Registry) (language : Language) (graph : Graph) (id : NodeId)
    (nullable : Bool) : Except Failure String :=
  match registry.nameOf? id with
  | some name => .ok (language.nullableIf (nullable || (graph.node id).isNullable) name)
  | none =>
    let typeName := (graph.node id).typeName
    .error (.unregisteredType (if typeName.given then typeName.plain else ""))

namespace Resolver

section

variable {language : Language} {graph : Graph} {s : Typing} {id : NodeId} {usage : Usage}

/-- A step that only makes something of what another step comes to. -/
theorem outcome_map {α β : Type} (step : TypingM α) (f : α → β) (s : Typing) :
    (runStep (do return f (← step)) s).1 = (runStep step s).1.map f := by
  rw [runStep_bind]
  rcases runStep step s with ⟨e | a, t⟩ <;> rfl

theorem outcome_name (hfrozen : s.registry.frozen = true) (nullable : Bool) :
    (runStep (do
      let name ← Registry.name language graph id
      return language.nullableIf (nullable || (graph.node id).isNullable) name) s).1 =
        s.registry.mention language graph id nullable := by
  rw [outcome_map]
  unfold Registry.name Registry.mention
  rw [runStep_bind_of_ok (runStep_get s)]
  cases hname : s.registry.nameOf? id with
  | some name =>
    simp only [hname]
    rfl
  | none =>
    simp only [hname, hfrozen, if_true]
    rfl

/-- The base types see of a format no more than its normal form. -/
theorem primitive?_normal (language : Language) (type : String) (format : Json) :
    language.primitive? type format.normal = language.primitive? type format := by
  unfold Language.primitive?
  cases language.primitives.find? (·.1 == type) with
  | none => rfl
  | some entry =>
    cases format with
    | real x => cases h : x.toInt? <;> simp [Json.normal, h, Spellings.get]
    | _ => simp [Json.normal, Spellings.get]

theorem outcome_primitiveType (node : Node) (nullable : Bool) (use : String) (s : Typing) :
    (runStep (primitiveType language node nullable use) s).1 =
      language.baseType node.kinds node.format.normal nullable := by
  unfold primitiveType Language.baseType
  cases node.kinds.primitive? with
  | none =>
    by_cases hnoted : (!node.kinds.atMostObject || !node.properties.isEmpty) = true
    · simp only [hnoted, if_true]
      rfl
    · simp only [hnoted, if_false, Bool.false_eq_true]
      rfl
  | some primitive =>
    dsimp only
    rw [primitive?_normal]
    cases hprimitive : language.primitive? primitive node.format with
    | error e => rfl
    | ok found => cases found <;> rfl

variable {roots : List NodeId}

/-- References say no more than whether they admit null. -/
def References (graph : Graph) (roots : List NodeId) : Prop :=
  ∀ id, graph.Within roots id → (graph.node id).reference.isSome →
    (graph.node id).isNullable = (graph.node id).nullable

theorem references_of_none (h : ∀ node ∈ graph.nodes, node.reference = none) :
    References graph roots := by
  intro id _ href
  have hnone : (graph.node id).reference = none := by
    unfold Graph.node
    cases hnode : graph.nodes[id]? with
    | none => rfl
    | some node => exact h node (Array.mem_of_getElem? hnode)
  rw [hnone] at href
  cases href

/-- What an array holds, spelled out, given what the nodes in it come to. -/
theorem outcome_itemType {around : List NodeId} {inner : NodeId → Except Failure Fingerprint}
    {ending : Bool → Except Failure String} {items : Fingerprint}
    (hitems : Graph.spellItems inner (graph.actualNode id) = .ok items)
    (hinner : ∀ child part, (graph.actualNode id).items = some child → inner child = .ok part →
      part ≠ .unsaid ∧ ∀ usage : Usage,
        (runStep ((ofLanguage language).resolveWithin graph (graph.actual id :: around) child usage)
          s).1 = part.type language ending (usage.nullable || part.admitsNull)
            (fileType language usage)) :
    (runStep (itemType (ofLanguage language) graph around id usage) s).1 =
      if items = .unsaid then
        .ok (if (graph.actualNode id).isFile then language.fileParameter else language.any)
      else items.type language ending items.admitsNull language.fileParameter := by
  unfold itemType
  unfold Graph.spellItems at hitems
  cases hchild : (graph.actualNode id).items with
  | none =>
    rw [hchild] at hitems
    cases hitems
    rfl
  | some child =>
    rw [hchild] at hitems
    obtain ⟨hsaid, htype⟩ := hinner child items hchild hitems
    rw [if_neg hsaid]
    exact htype _

/-- What a map holds, in the same way. -/
theorem outcome_valueType {around : List NodeId} {inner : NodeId → Except Failure Fingerprint}
    {ending : Bool → Except Failure String} {additional : Fingerprint}
    (hadditional : Graph.spellAdditional inner (graph.actualNode id) = .ok additional)
    (hinner : ∀ child part, (graph.actualNode id).additional = .shape child →
      inner child = .ok part → ∀ usage : Usage,
        (runStep ((ofLanguage language).resolveWithin graph (graph.actual id :: around) child usage)
          s).1 = part.type language ending (usage.nullable || part.admitsNull)
            (fileType language usage)) :
    (runStep (valueType (ofLanguage language) graph around id usage) s).1 =
      additional.type language ending additional.admitsNull language.fileParameter := by
  unfold valueType
  unfold Graph.spellAdditional at hadditional
  cases hchild : (graph.actualNode id).additional with
  | shape child =>
    rw [hchild] at hadditional
    exact hinner child additional hchild hadditional _
  | _ =>
    rw [hchild] at hadditional
    cases hadditional
    rfl

/-- Whether a use admits null, or the node, or the reference that it is. -/
theorem admitsNull_eq (hreferences : References graph roots) (hid : graph.Within roots id)
    {path : List NodeId} {fingerprint : Fingerprint}
    (h : graph.nestedFingerprint path false id = .ok fingerprint) :
    admitsNull graph id usage =
      (usage.nullable || fingerprint.admitsNull || (graph.actualNode id).isNullable) := by
  unfold admitsNull
  rw [Graph.admitsNull_of_ok h]
  cases href : (graph.node id).reference with
  | none =>
    have hactual : graph.actualNode id = graph.node id :=
      congrArg graph.node (Graph.follow_none [] href)
    simp [hactual]
  | some target =>
    rw [hreferences id hid (by simp [href])]
    simp

/-- By induction on the containers that are spelled out around the node: they are among those that
its fingerprint is made inside of, so none of them is met again. -/
theorem outcome_eq_type (hreferences : References graph roots) (hfrozen : s.registry.frozen = true)
    {ending : Bool → Except Failure String} (path : List NodeId) (id : NodeId)
    {around : List NodeId} {fingerprint : Fingerprint} (hid : graph.Within roots id)
    (h : graph.nestedFingerprint path false id = .ok fingerprint) (haround : around ⊆ path)
    (hending : ∀ last, graph.Meets id last → ending = s.registry.mention language graph last)
    (usage : Usage) :
    (runStep ((ofLanguage language).resolveWithin graph around id usage) s).1 =
      fingerprint.type language ending (usage.nullable || fingerprint.admitsNull)
        (fileType language usage) := by
  induction hunseen : graph.unseen path using Nat.strongRecOn
    generalizing path id around fingerprint usage with
  | ind unseen ih =>
    have hnull := @admitsNull_eq _ _ usage _ hreferences hid _ _ h
    have hcore := Graph.core_of_ok h
    rw [← Fingerprint.type_core]
    generalize fingerprint.core = core at hcore
    cases hcore with
    | named hdefinition =>
      rw [resolveWithin_definition hdefinition, hnull, hending _ (.here hdefinition)]
      exact outcome_name hfrozen _
    | @shape outer required items additional properties hnot hsubset hfresh hitems hadditional
        hmap =>
      have hkept : graph.actual id :: around ⊆ graph.actual id :: outer :=
        List.cons_subset_cons _ fun other hother => hsubset (haround hother)
      have harrays : (Graph.outline (graph.actualNode id) required).kinds.has .array =
        (graph.actualNode id).isArray := rfl
      have hfiles : (Graph.outline (graph.actualNode id) required).kinds.has .file =
        (graph.actualNode id).isFile := rfl
      have hnulls : (usage.nullable || fingerprint.admitsNull
          || (Graph.outline (graph.actualNode id) required).nullable
          || (Graph.outline (graph.actualNode id) required).kinds.has .null) =
            admitsNull graph id usage := by
        rw [hnull, Bool.or_assoc]
        rfl
      rw [Fingerprint.type, hmap, harrays, hfiles, hnulls]
      cases branch graph around id with
      | definition hdefinition => simp [hdefinition] at hnot
      | file _ hfile =>
        rw [resolveWithin_file hnot hfile]
        simp only [Bool.and_eq_true, Bool.not_eq_true'] at hfile
        simp only [hfile.1, hfile.2, if_true, if_false, Bool.false_eq_true]
        rfl
      | recursive _ _ _ hmet => exact absurd (hsubset (haround hmet)) hfresh
      | array _ hcontainer hout harray =>
        have hfewer := hunseen ▸ Graph.unseen_inside hcontainer hsubset hfresh
        rw [resolveWithin_array hnot hcontainer hout harray, outcome_map, if_pos harray]
        refine congrArg (Except.map _) (outcome_itemType hitems ?_)
        intro child part hchild hpart
        refine ⟨(Graph.admits_of_ok hpart).1, fun inner => ?_⟩
        exact ih _ hfewer _ child (hid.actual.step (Graph.refersTo_items hchild)) hpart hkept
          (fun last hlast => hending last (.item hnot harray hchild hlast)) inner rfl
      | map _ hfile hcontainer hout harray =>
        have hfewer := hunseen ▸ Graph.unseen_inside hcontainer hsubset hfresh
        have hfile' : (graph.actualNode id).isFile = false := by simpa [harray] using hfile
        have hdictionary : (graph.actualNode id).isDictionary = true := by
          simpa [Node.isContainer, harray] using hcontainer
        rw [resolveWithin_map hnot hfile hcontainer hout harray, outcome_map]
        simp only [harray, hfile', hdictionary, if_true, if_false, Bool.false_eq_true]
        refine congrArg (Except.map _) (outcome_valueType hadditional ?_)
        intro child part hchild hpart inner
        exact ih _ hfewer _ child (hid.actual.step (Graph.refersTo_additional hchild)) hpart hkept
          (fun last hlast => hending last (.value hnot harray hfile' hdictionary hchild hlast))
          inner rfl
      | base _ hfile hcontainer =>
        rw [resolveWithin_base hnot hfile hcontainer]
        simp only [Node.isContainer, Bool.or_eq_false_iff] at hcontainer
        have hfile' : (graph.actualNode id).isFile = false := by
          simpa [hcontainer.1] using hfile
        simp only [hcontainer.1, hcontainer.2, hfile', if_false, Bool.false_eq_true]
        exact outcome_primitiveType _ _ _ _

end

end Resolver

end ApiClients
