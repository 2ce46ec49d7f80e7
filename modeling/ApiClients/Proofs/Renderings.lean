import ApiClients.Proofs.Pointers
import ApiClients.Proofs.ReadingEnds

/-!
# What schemas are read to

A node renders a schema if it says what the schema says (`Renders`): it is the node of the
definition that the schema stands for, with null admitted around it if need be, or a node that
carries the shape which the schema spells out, and its parts render the schemas in this shape.
Reading makes nodes that render what has been read, whatever is read later
(`rendersWell_schemaTo`).  What a shape takes over from a definition that is a part of it depends on
how far the definition has been read by then; so a shape may have such a part only if it is one of
objects with properties anyway (`Firm`).
-/

namespace ApiClients

/-! ### What a node carries -/

/-- The node with null admitted if so asked. -/
def Node.admitting (node : Node) (nullable : Bool) : Node :=
  { node with nullable := nullable || node.nullable }

namespace Reading

/-- Whether a shape spells out a property. -/
def spellsProperty (members : List (String × Json)) : Bool :=
  ((Json.fields (Json.field members "properties")).toOption.getD []).any fun property =>
    property.2 ≠ .null

/-- The kinds that a shape names. -/
def kindsNamed (members : List (String × Json)) : Kinds :=
  kindsOf (Json.field members "type") (Json.field members "format")

/-- A shape has a property whatever it takes in from definitions: it spells one out itself, or a
part of it has one in this way. -/
inductive Propertied : List (String × Json) → Prop
  | own {members : List (String × Json)} (h : spellsProperty members = true) : Propertied members
  | part {part : Json} {members inner : List (String × Json)}
      (hpart : (.part, part) ∈ nested members) (hinner : Spelled part inner)
      (h : Propertied inner) : Propertied members

/-- A shape is one of objects with properties whatever it takes in from definitions. -/
inductive Firm (members : List (String × Json)) : Prop
  | own (h : spellsProperty members = true)
      (hkinds : kindsNamed members = Kinds.none ∨ (kindsNamed members).has .object = true)
  | part {part : Json} {inner : List (String × Json)} (hpart : (.part, part) ∈ nested members)
      (hinner : Spelled part inner) (h : Propertied inner)

/-- A schema, or a shape in it, takes a definition in as a part, and whether it is one of objects
with properties may depend on that. -/
inductive Merges : Json → Prop
  | part {data part name : Json} {members : List (String × Json)} (hdata : Spelled data members)
      (hpart : (.part, part) ∈ nested members) (hname : Stands part name)
      (hfirm : ¬ Firm members) : Merges data
  | inner {data : Json} {members : List (String × Json)} {entry : Role × Json}
      (hdata : Spelled data members) (hentry : entry ∈ nested members) (h : Merges entry.2) :
      Merges data

/-- A schema whose references name definitions and whose shapes take in none of them, unless they
are of objects with properties anyway. -/
structure Modest (defs : List (Json × Json)) (data : Json) : Prop where
  names : NamesOnly defs data
  merges : ¬ Merges data

/-- The parts of a shape that are given. -/
def givenParts (members : List (String × Json)) : List Json :=
  ((Json.listed (Json.field members "allOf")).toOption.getD []).filter fun part => part ≠ .null

/-- What is said of further properties, for the node of their shape. -/
def additionalOf (members : List (String × Json)) (shape : NodeId) : Additional :=
  match Json.field members "additionalProperties" with
  | .obj _ => .shape shape
  | .bool true => .allowed true
  | _ => .unsaid

/-- Some kinds with that of objects, if one of some parts makes its whole an object. -/
def kindsWith (parts : List Node) (kinds : Kinds) : Kinds :=
  if parts.any fun part => !part.properties.isEmpty || part.kinds.has .object then
    kinds.insert .object
  else kinds

/-- A node carries the shape that some members spell out, as far as its type depends on it.  The
nodes of the parts tell whether it is one of objects with properties, unless the shape does. -/
structure Carries (R : Json → NodeId → Prop) (graph : Graph) (nullable : Bool)
    (members : List (String × Json)) (node : Node) : Prop where
  reference : node.reference = none
  format : node.format = Json.field members "format"
  nullable : node.nullable = (nullable || Json.admitsNull members)
  items : node.items.isSome
    = (Entries.has members "items" && decide (Json.field members "items" ≠ .null))
  item : ∀ item, node.items = some item → R (Json.field members "items") item
  additional : ∃ shape, node.additional = additionalOf members shape
    ∧ ∀ inner, Json.field members "additionalProperties" = .obj inner → R (.obj inner) shape
  firm : Firm members →
    node.properties.isEmpty = false ∧ node.kinds = (kindsNamed members).insert .object
  parts : ¬ Firm members → ∃ parts : List (Json × NodeId), parts.map (·.1) = givenParts members
    ∧ (∀ part ∈ parts, R part.1 part.2)
    ∧ node.properties.isEmpty = (!spellsProperty members
      && parts.all fun part => (graph.node part.2).properties.isEmpty)
    ∧ node.kinds = (settleKinds { node with
        kinds := kindsWith (parts.map fun part => graph.node part.2) (kindsNamed members) }).kinds

/-- A node says what a schema says, with null admitted beside if so asked. -/
inductive Renders (s : Reading) : Bool → Json → NodeId → Prop
  | blank {nullable : Bool} {data : Json} {id : NodeId} (hdata : ∀ members, data ≠ .obj members)
      (hnode : s.graph.node id = { nullable := nullable }) : Renders s nullable data id
  | points {nullable : Bool} {members : List (String × Json)} {ref : String} {target id : NodeId}
      (hpoints : Points members (.str ref))
      (htarget : Entries.get? s.named (.str (Json.refName ref)) = some target)
      (hid : if nullable || Json.admitsNull members then
          s.graph.node id = { reference := some target, nullable := true }
        else id = target) : Renders s nullable (.obj members) id
  | variant {nullable : Bool} {members : List (String × Json)} {variants : List Json}
      {shape : Json} {id : NodeId} (href : Entries.get? members "$ref" = none)
      (hvariants : variants? members = some variants)
      (hshape : variants.filter (! isNullVariant ·) = [shape])
      (h : Renders s (nullable || (Json.admitsNull members || decide (1 < variants.length)))
        shape id) : Renders s nullable (.obj members) id
  | untyped {nullable : Bool} {members : List (String × Json)} {variants : List Json}
      {id : NodeId} (href : Entries.get? members "$ref" = none)
      (hvariants : variants? members = some variants)
      (hseveral : ∀ shape, variants.filter (! isNullVariant ·) ≠ [shape])
      (hnode : s.graph.node id = untypedObject (nullable || (Json.admitsNull members
        || decide ((variants.filter (! isNullVariant ·)).length < variants.length)))) :
      Renders s nullable (.obj members) id
  | plain {nullable : Bool} {members : List (String × Json)} {id : NodeId}
      {R : Json → NodeId → Prop} (hparts : ∀ data part, R data part → Renders s false data part)
      (hplain : Plain members) (hunnamed : (s.graph.node id).typeName = .null)
      (hnode : Carries R s.graph nullable members (s.graph.node id)) :
      Renders s nullable (.obj members) id

section

variable {defs : List (Json × Json)} {s t u later : Reading} {read : ReadSchema}
  {trail : List String} {id other : NodeId} {nullable : Bool} {data : Json}
  {members : List (String × Json)}

theorem Merges.variant {shape : Json} (h : Merges shape) (hvariant : Variant members shape) :
    Merges (.obj members) := by
  cases h with
  | part hdata hpart hname hfirm => exact .part (.variant hvariant hdata) hpart hname hfirm
  | inner hdata hentry h => exact .inner (.variant hvariant hdata) hentry h

theorem Merges.of_variant {shape : Json} (h : Merges (.obj members))
    (hvariant : Variant members shape) : Merges shape := by
  cases h with
  | part hdata hpart hname hfirm => exact .part (hdata.of_variant hvariant) hpart hname hfirm
  | inner hdata hentry h => exact .inner (hdata.of_variant hvariant) hentry h

theorem Plain.not_merges (h : Plain members)
    (hparts : Firm members ∨ ∀ entry ∈ nested members, ∀ name, ¬ Stands entry.2 name)
    (hinner : ∀ entry ∈ nested members, ¬ Merges entry.2) : ¬ Merges (.obj members) := by
  intro hmerges
  cases hmerges with
  | part hdata hpart hname hfirm =>
    obtain rfl := h.eq_of_spelled hdata
    exact (hparts.resolve_left hfirm) _ hpart _ hname
  | inner hdata hentry hmerges =>
    obtain rfl := h.eq_of_spelled hdata
    exact hinner _ hentry hmerges

/-- What stands for a definition has no shape of its own that could take another one in. -/
theorem Merges.not_stands (h : Merges data) (name : Json) : ¬ Stands data name := by
  cases h with
  | part hdata _ _ _ => exact hdata.not_stands
  | inner hdata _ _ => exact hdata.not_stands

theorem Modest.variant {shape : Json} (h : Modest defs (.obj members))
    (hvariant : Variant members shape) : Modest defs shape :=
  ⟨h.names.variant hvariant, fun hmerges => h.merges (hmerges.variant hvariant)⟩

theorem Modest.nested (h : Modest defs (.obj members)) (hplain : Plain members)
    {entry : Role × Json} (hentry : entry ∈ nested members) : Modest defs entry.2 :=
  ⟨h.names.nested hplain hentry,
    fun hmerges => h.merges (.inner (.plain hplain) hentry hmerges)⟩

theorem Modest.part (h : Modest defs (.obj members)) (hplain : Plain members) {part name : Json}
    (hpart : (.part, part) ∈ Reading.nested members) (hfirm : ¬ Firm members) :
    ¬ Stands part name :=
  fun hname => h.merges (.part (.plain hplain) hpart hname hfirm)

theorem mem_givenParts {part : Json} :
    part ∈ givenParts members ↔ (.part, part) ∈ nested members ∧ part ≠ .null := by
  have hparts : (Role.part, part) ∈ nested members ↔ (Role.part, part) ∈ nestedParts members := by
    simp only [nested, nestedItems, nestedAdditional, nestedProperties, List.mem_append]
    split_ifs <;> split <;> simp
  rw [hparts, givenParts, nestedParts, List.mem_filter]
  simp

/-- A shape with a property that is not one of objects anyway has the property itself. -/
theorem Propertied.spells (h : Propertied members) (hfirm : ¬ Firm members) :
    spellsProperty members = true := by
  cases h with
  | own h => exact h
  | part hpart hinner h => exact absurd (.part hpart hinner h) hfirm

theorem Carries.propertied {R : Json → NodeId → Prop} {graph : Graph} {node : Node}
    (hcarries : Carries R graph nullable members node) (h : Propertied members) :
    node.properties.isEmpty = false := by
  by_cases hfirm : Firm members
  · exact (hcarries.firm hfirm).1
  · obtain ⟨_, -, -, hempty, -⟩ := hcarries.parts hfirm
    rw [hempty, h.spells hfirm]
    rfl

/-- The node of a schema that spells out a shape with a property has one. -/
theorem Renders.propertied (h : Renders s nullable data id) {inner : List (String × Json)}
    (hinner : Spelled data inner) (hproperty : Propertied inner) :
    (s.graph.node id).properties.isEmpty = false := by
  induction h with
  | blank hdata _ => cases hinner <;> exact absurd rfl (hdata _)
  | points hpoints => exact absurd hinner hpoints.not_spelled
  | variant href hvariants hshape _ ih => exact ih (hinner.of_variant ⟨href, _, hvariants, hshape⟩)
  | untyped href hvariants hseveral _ =>
    cases hinner with
    | plain hplain => simp [hplain.2.1] at hvariants
    | variant hvariant _ =>
      obtain ⟨-, _, hvariants', hshape⟩ := hvariant
      cases hvariants.symm.trans hvariants'
      exact absurd hshape (hseveral _)
  | plain _ hplain _ hnode =>
    obtain rfl := hplain.eq_of_spelled hinner
    exact hnode.propertied hproperty

/-- A schema that stands for no definition has a node of its own. -/
theorem Renders.unnamed (h : Renders s nullable data id) (hstands : ∀ name, ¬ Stands data name) :
    (s.graph.node id).typeName = .null ∧ (s.graph.node id).reference = none := by
  induction h with
  | blank _ hnode => simp [hnode]
  | points hpoints => exact absurd (.points hpoints) (hstands _)
  | variant href hvariants hshape _ ih =>
    exact ih fun name hname => hstands name (.variant ⟨href, _, hvariants, hshape⟩ hname)
  | untyped _ _ _ hnode => simp [hnode, untypedObject]
  | plain _ _ hunnamed hnode => exact ⟨hunnamed, hnode.reference⟩

end

/-! ### While a node is being filled -/

/-- A state that comes after another one while a node is being filled, which is the only one among
those found that changes. -/
structure Along (id : NodeId) (s t : Reading) : Prop where
  sound : t.Sound
  named : s.named <+: t.named
  definitions : s.definitions <+: t.definitions
  size : s.graph.size ≤ t.graph.size
  kept : ∀ other < s.graph.size, other ≠ id → t.graph.node other = s.graph.node other

/-- The nodes that have been put into the graph between two states are in a later one as they were,
but for one of them that may have changed since. -/
structure Preserved (s t : Reading) (id : NodeId) (later : Reading) : Prop where
  sound : later.Sound
  named : t.named <+: later.named
  nodes : ∀ other, s.graph.size ≤ other → other < t.graph.size → other ≠ id →
    later.graph.node other = t.graph.node other

section

variable {s t u later : Reading} {read : ReadSchema} {id : NodeId}

theorem Along.refl (hs : s.Sound) : Along id s s :=
  ⟨hs, List.prefix_rfl, List.prefix_rfl, Nat.le_refl _, fun _ _ _ => rfl⟩

theorem Along.grow (h : Along id s t) (hafter : t.After u) : Along id s u where
  sound := hafter.1
  named := h.named.trans hafter.2.named
  definitions := h.definitions.trans hafter.2.definitions
  size := Nat.le_trans h.size hafter.2.size
  kept other hother hne :=
    (hafter.2.kept other (Nat.lt_of_lt_of_le hother h.size)).trans (h.kept other hother hne)

theorem Along.trans (h : Along id s t) (h' : Along id t u) : Along id s u where
  sound := h'.sound
  named := h.named.trans h'.named
  definitions := h.definitions.trans h'.definitions
  size := Nat.le_trans h.size h'.size
  kept other hother hne :=
    (h'.kept other (Nat.lt_of_lt_of_le hother h.size) hne).trans (h.kept other hother hne)

theorem Along.change (h : Along id s t) {f : Node → Node}
    (hf : ∀ node, (f node).typeName = node.typeName) :
    Along id s { t with graph := t.graph.modify id f } where
  sound := h.sound.change hf
  named := h.named
  definitions := h.definitions
  size := by
    rw [Graph.size_modify]
    exact h.size
  kept other hother hne := by
    rw [Graph.node_modify_of_ne _ _ hne]
    exact h.kept other hother hne

theorem filling_along (hread : Careful read) : Filling (Along id s) read id := by
  constructor
  · exact fun trail data t ht => ⟨ht.grow (hread trail data t ht.sound).1, fun _ _ => trivial⟩
  · exact fun f hf => upholds_modify fun t ht => ht.change hf

/-- What a stage of filling a node leads to. -/
theorem along_of_upholds {α : Type} {step : ReadingM α} {a : α} (hs : s.Sound)
    (hstep : Upholds (Along id s) (fun _ => True) step) (h : runStep step s = (.ok a, t)) :
    Along id s t := by
  have hdone := (hstep s (Along.refl hs)).1
  rwa [h] at hdone

/-- A state that holds what is there in the end holds what was there by a stage. -/
theorem Preserved.before (h : Preserved s u id later) (halong : Along id t u) :
    Preserved s t id later where
  sound := h.sound
  named := halong.named.trans h.named
  nodes other hlow hhigh hne :=
    (h.nodes other hlow (Nat.lt_of_lt_of_le hhigh halong.size) hne).trans
      (halong.kept other hhigh hne)

theorem Preserved.after (h : Preserved s u id later) (hsize : s.graph.size ≤ t.graph.size) :
    Preserved t u id later where
  sound := h.sound
  named := h.named
  nodes other hlow := h.nodes other (Nat.le_trans hsize hlow)

theorem Preserved.changed {f : Node → Node}
    (h : Preserved s { t with graph := t.graph.modify id f } id later) :
    Preserved s t id later where
  sound := h.sound
  named := h.named
  nodes other hlow hhigh hne := by
    rw [h.nodes other hlow (by simpa using hhigh) hne, Graph.node_modify_of_ne _ _ hne]

theorem Careful.after {trail : List String} {data : Json} {made : Option NodeId} (h : Careful read)
    (hs : s.Sound) (hrun : runStep (read trail data) s = (.ok made, t)) : s.After t := by
  have hafter := (h trail data s hs).1
  rwa [hrun] at hafter

end

/-! ### Stages -/

/-- A reading of schemas makes nodes that render them in all states that hold what it has put into
the graph; the node of the schema itself may admit null there. -/
structure RendersWell (defs : List (Json × Json)) (read : ReadSchema) : Prop where
  careful : Careful read
  null : ∀ {trail data s made t}, runStep (read trail data) s = (.ok made, t) →
    (made = none ↔ data = .null)
  renders : ∀ {trail data s id t later nullable}, s.Sound → defs <+: s.definitions →
    Modest defs data → runStep (read trail data) s = (.ok (some id), t) → Preserved s t id later →
    (s.graph.size ≤ id → later.graph.node id = (t.graph.node id).admitting nullable) →
    (nullable = true → (t.graph.node id).isNamed = false) → Renders later nullable data id

/-- A loop of steps through a list succeeds where the first step does and then the others. -/
theorem runStep_steps_cons {α : Type} {step : α → ReadingM Unit} {a : α} {as : List α}
    {s t : Reading}
    (h : runStep (do
      for b in a :: as do
        step b) s = (.ok (), t)) :
    ∃ u, runStep (step a) s = (.ok (), u) ∧ runStep (do
      for b in as do
        step b) u = (.ok (), t) := by
  simp only [List.forIn_cons, bind_assoc, pure_bind] at h
  obtain ⟨_, u, hfirst, hrest⟩ := runStep_bind_ok.mp h
  exact ⟨u, hfirst, hrest⟩

section

variable {defs : List (Json × Json)} {s t u later : Reading} {read : ReadSchema}
  {trail : List String} {id other : NodeId} {nullable : Bool} {data : Json}
  {members : List (String × Json)}

/-- A schema that stands in the shape of a node is rendered in a state that holds what the stage in
which it is read puts into the graph. -/
theorem RendersWell.nested (h : RendersWell defs read) (hs : s.Sound)
    (hdefs : defs <+: s.definitions) (hdata : Modest defs data) (hid : id < s.graph.size)
    (hrun : runStep (read trail data) s = (.ok (some other), t)) (hlater : Preserved s t id later) :
    Renders later false data other := by
  have hafter := h.careful trail data s hs
  rw [hrun] at hafter
  have hnode : ∀ node, s.graph.size ≤ node → node < t.graph.size →
      later.graph.node node = t.graph.node node := fun node hlow hhigh =>
    hlater.nodes node hlow hhigh (Nat.ne_of_gt (Nat.lt_of_lt_of_le hid hlow))
  refine h.renders hs hdefs hdata hrun ⟨hlater.sound, hlater.named, fun node hlow hhigh _ =>
    hnode node hlow hhigh⟩ (fun hlow => ?_) fun hfalse => by cases hfalse
  exact hnode other hlow (hafter.2 other rfl).1.1

theorem fillKeywords_ok (hid : id < s.graph.size)
    (h : runStep (fillKeywords id members) s = (.ok (), t)) :
    ∃ values, t.graph.node id
      = { putKeywords members (s.graph.node id) with enumValues := values } := by
  unfold fillKeywords at h
  obtain ⟨_, u, hfirst, h⟩ := runStep_bind_ok.mp h
  cases hfirst
  obtain ⟨values, -, h⟩ := runStep_lift_bind h
  cases h
  refine ⟨values, ?_⟩
  rw [Graph.node_modify_self _ _ (by simpa using hid), Graph.node_modify_self _ _ hid]
  rfl

theorem fillItems_ok (hread : RendersWell defs read) (hs : s.Sound) (hdefs : defs <+: s.definitions)
    (hmodest : Modest defs (.obj members)) (hplain : Plain members) (hid : id < s.graph.size)
    (hblank : (s.graph.node id).items = none)
    (h : runStep (fillItems read trail id members) s = (.ok (), t))
    (hlater : Preserved s t id later) :
    ∃ items : Option NodeId, t.graph.node id = { s.graph.node id with items := items }
      ∧ items.isSome
        = (Entries.has members "items" && decide (Json.field members "items" ≠ .null))
      ∧ ∀ item, items = some item → Renders later false (Json.field members "items") item := by
  unfold fillItems at h
  by_cases hitems : Entries.has members "items" = true
  · rw [if_pos hitems] at h
    obtain ⟨made, u, hrun, h⟩ := runStep_bind_ok.mp h
    cases h
    have hgrows := (hread.careful.after hs hrun).2
    refine ⟨made, ?_, ?_, ?_⟩
    · rw [Graph.node_modify_self _ _ (Nat.lt_of_lt_of_le hid hgrows.size), hgrows.kept id hid]
    · have hnull := hread.null hrun
      cases made <;> simp_all
    · rintro item rfl
      exact hread.nested hs hdefs (hmodest.nested hplain (mem_nested_items hitems)) hid hrun
        hlater.changed
  · rw [if_neg hitems] at h
    cases h
    refine ⟨none, ?_, by simp [hitems], fun _ hitem => by cases hitem⟩
    rw [← hblank]

theorem fillAdditional_ok (hread : RendersWell defs read) (hs : s.Sound)
    (hdefs : defs <+: s.definitions) (hmodest : Modest defs (.obj members)) (hplain : Plain members)
    (hid : id < s.graph.size) (hblank : (s.graph.node id).additional = .unsaid)
    (h : runStep (fillAdditional read trail id members) s = (.ok (), t))
    (hlater : Preserved s t id later) :
    ∃ shape, t.graph.node id = { s.graph.node id with additional := additionalOf members shape }
      ∧ ∀ inner, Json.field members "additionalProperties" = .obj inner →
        Renders later false (.obj inner) shape := by
  unfold fillAdditional at h
  unfold additionalOf
  cases hfield : Json.field members "additionalProperties" with
  | obj inner =>
    rw [hfield] at h
    obtain ⟨made, u, hrun, h⟩ := runStep_bind_ok.mp h
    have hgrows := (hread.careful.after hs hrun).2
    cases made with
    | none => cases (hread.null hrun).mp rfl
    | some shape =>
      cases h
      refine ⟨shape, ?_, ?_⟩
      · rw [Graph.node_modify_self _ _ (Nat.lt_of_lt_of_le hid hgrows.size), hgrows.kept id hid]
      · rintro _ ⟨⟩
        exact hread.nested hs hdefs (hmodest.nested hplain (mem_nested_additional hfield)) hid hrun
          hlater.changed
  | bool yes =>
    rw [hfield] at h
    refine ⟨0, ?_, fun _ hinner => by cases hinner⟩
    cases yes with
    | true =>
      cases h
      rw [Graph.node_modify_self _ _ hid]
    | false =>
      cases h
      rw [← hblank]
  | _ =>
    rw [hfield] at h
    cases h
    refine ⟨0, ?_, fun _ hinner => by cases hinner⟩
    rw [← hblank]

theorem fillRequired_ok (hid : id < s.graph.size)
    (h : runStep (fillRequired id members) s = (.ok (), t)) :
    ∃ names, t.graph.node id = { s.graph.node id with required := names } := by
  obtain ⟨names, -, h⟩ := runStep_lift_bind h
  cases h
  exact ⟨names, Graph.node_modify_self _ _ hid⟩

theorem isEmpty_put {α : Type} (key : String) (value : α) (entries : List (String × α)) :
    (Entries.put key value entries).isEmpty = false := by
  cases entries with
  | nil => rfl
  | cons entry rest =>
    unfold Entries.put Entries.putAlike
    split <;> rfl

theorem readProperty_ok (hread : RendersWell defs read) (hs : s.Sound) (hid : id < s.graph.size)
    {property : String × Json}
    (h : runStep (readProperty read trail id property) s = (.ok (), t)) :
    ∃ properties, t.graph.node id = { s.graph.node id with properties := properties }
      ∧ properties.isEmpty
        = ((s.graph.node id).properties.isEmpty && decide (property.2 = .null)) := by
  obtain ⟨made, u, hrun, h⟩ := runStep_bind_ok.mp h
  have hgrows := (hread.careful.after hs hrun).2
  have hnull := hread.null hrun
  cases made with
  | none =>
    cases h
    exact ⟨_, by rw [hgrows.kept id hid], by simp [hnull.mp rfl]⟩
  | some child =>
    cases h
    refine ⟨Entries.put property.1 child (s.graph.node id).properties, ?_, ?_⟩
    · rw [Graph.node_modify_self _ _ (Nat.lt_of_lt_of_le hid hgrows.size), hgrows.kept id hid]
    · have hgiven : property.2 ≠ .null := fun hnone => by cases hnull.mpr hnone
      simp [isEmpty_put, hgiven]

theorem readProperties_ok (hread : RendersWell defs read) (properties : List (String × Json))
    (hs : s.Sound) (hid : id < s.graph.size)
    (h : runStep (do
      for property in properties do
        readProperty read trail id property) s = (.ok (), t)) :
    ∃ made, t.graph.node id = { s.graph.node id with properties := made }
      ∧ made.isEmpty = ((s.graph.node id).properties.isEmpty
        && !properties.any fun property => property.2 ≠ .null) := by
  induction properties generalizing s with
  | nil =>
    cases h
    exact ⟨(t.graph.node id).properties, rfl, by simp⟩
  | cons property properties ih =>
    obtain ⟨u, hfirst, hrest⟩ := runStep_steps_cons h
    have halong : Along id s u := along_of_upholds hs
      ((filling_along hread.careful).readProperty trail property) hfirst
    obtain ⟨made, hnode, hempty⟩ := readProperty_ok hread hs hid hfirst
    obtain ⟨more, hnode', hempty'⟩ :=
      ih halong.sound (Nat.lt_of_lt_of_le hid halong.size) hrest
    refine ⟨more, by rw [hnode', hnode], ?_⟩
    rw [hempty', hnode, hempty, List.any_cons, Bool.and_assoc]
    by_cases hgiven : property.2 = .null <;> simp [hgiven]

theorem fillProperties_ok (hread : RendersWell defs read) (hs : s.Sound) (hid : id < s.graph.size)
    (h : runStep (fillProperties read trail id members) s = (.ok (), t)) :
    ∃ made, t.graph.node id = { s.graph.node id with properties := made }
      ∧ made.isEmpty
        = ((s.graph.node id).properties.isEmpty && !spellsProperty members) := by
  obtain ⟨properties, hproperties, h⟩ := runStep_lift_bind h
  unfold spellsProperty
  rw [hproperties]
  exact readProperties_ok hread properties hs hid h

/-- A part that is given, the node it is read to, and what its shape absorbs. -/
structure Taken where
  part : Json
  child : NodeId
  shape : Node

/-- The node of a part renders it later too, and what has been absorbed is what it has then if the
part does not stand for a definition. -/
structure Taken.Held (taken : Taken) (later : Reading) : Prop where
  renders : Renders later false taken.part taken.child
  shape : (∀ name, ¬ Stands taken.part name) → taken.shape = later.graph.node taken.child

theorem readPart_ok (hread : RendersWell defs read) (hs : s.Sound) (hdefs : defs <+: s.definitions)
    {part : Json} (hmodest : Modest defs part) (hid : id < s.graph.size)
    (h : runStep (readPart read trail id part) s = (.ok (), t)) (hlater : Preserved s t id later) :
    part = .null ∧ t.graph.node id = s.graph.node id
      ∨ ∃ taken : Taken, taken.part = part ∧ part ≠ .null ∧ taken.Held later
        ∧ t.graph.node id = absorb (s.graph.node id) taken.shape := by
  obtain ⟨made, u, hrun, h⟩ := runStep_bind_ok.mp h
  have hafter := hread.careful.after hs hrun
  cases made with
  | none =>
    cases h
    exact Or.inl ⟨(hread.null hrun).mp rfl, hafter.2.kept id hid⟩
  | some child =>
    cases h
    have hholds : Preserved s u id later := hlater.changed
    have hrenders := hread.nested hs hdefs hmodest hid hrun hholds
    refine Or.inr ⟨⟨part, child, u.graph.actualNode child⟩, rfl,
      fun hnull => (by cases (hread.null hrun).mpr hnull), ⟨hrenders, fun hstands => ?_⟩, ?_⟩
    · obtain ⟨hunnamed, hreference⟩ := hrenders.unnamed hstands
      -- the node of the part is a new one, since it has no name
      have hresult := (hread.careful trail part s hs).2 child
      rw [hrun] at hresult
      obtain ⟨hlt, hnew | ⟨ref, href⟩⟩ := (hresult rfl).1
      · have hne : child ≠ id := Nat.ne_of_gt (Nat.lt_of_lt_of_le hid hnew.1)
        have hsame := hholds.nodes child hnew.1 hlt hne
        have hactual : u.graph.actual child = child :=
          Graph.follow_none [] (hsame ▸ hreference)
        rw [Graph.actualNode, hactual, hsame]
      · have hname := (hlater.sound.known (get?_mono hholds.named href)).2
        rw [hunnamed] at hname
        cases hname
    · rw [Graph.node_modify_self _ _ (Nat.lt_of_lt_of_le hid hafter.2.size), hafter.2.kept id hid]

theorem readParts_ok (hread : RendersWell defs read) (parts : List Json) (hs : s.Sound)
    (hdefs : defs <+: s.definitions) (hmodest : ∀ part ∈ parts, Modest defs part)
    (hid : id < s.graph.size)
    (h : runStep (do
      for part in parts do
        readPart read trail id part) s = (.ok (), t)) (hlater : Preserved s t id later) :
    ∃ takens : List Taken, takens.map (·.part) = parts.filter (fun part => part ≠ .null)
      ∧ (∀ taken ∈ takens, taken.Held later)
      ∧ t.graph.node id = (takens.map (·.shape)).foldl absorb (s.graph.node id) := by
  induction parts generalizing s with
  | nil =>
    cases h
    exact ⟨[], rfl, by simp, rfl⟩
  | cons part parts ih =>
    obtain ⟨u, hfirst, hrest⟩ := runStep_steps_cons h
    have halong : Along id s u := along_of_upholds hs
      ((filling_along hread.careful).readPart trail part) hfirst
    have hid' := Nat.lt_of_lt_of_le hid halong.size
    have halong' : Along id u t := along_of_upholds halong.sound
      (upholds_steps fun part => (filling_along hread.careful).readPart trail part) hrest
    obtain ⟨takens, hnames, hheld, hnode⟩ := ih halong.sound (hdefs.trans halong.definitions)
      (fun other hother => hmodest other (List.mem_cons_of_mem part hother)) hid' hrest
      (hlater.after halong.size)
    rcases readPart_ok hread hs hdefs (hmodest part List.mem_cons_self) hid hfirst
      (hlater.before halong') with ⟨hnull, hsame⟩ | ⟨taken, rfl, hgiven, hfirst, habsorbed⟩
    · refine ⟨takens, ?_, hheld, hsame ▸ hnode⟩
      rw [hnames, List.filter_cons_of_neg (by simp [hnull])]
    · refine ⟨taken :: takens, ?_, ?_, ?_⟩
      · rw [List.map_cons, hnames, List.filter_cons_of_pos (by simp [hgiven])]
      · intro other hother
        rcases List.mem_cons.mp hother with rfl | hother
        · exact hfirst
        · exact hheld other hother
      · rw [hnode, habsorbed, List.map_cons, List.foldl_cons]

theorem isEmpty_foldl_putNew (more properties : List (String × NodeId)) :
    (more.foldl (fun ps (name, p) => Entries.putNew ps name p) properties).isEmpty
      = (properties.isEmpty && more.isEmpty) := by
  induction more generalizing properties with
  | nil => simp
  | cons first more ih =>
    rw [List.foldl_cons, ih]
    have hput : (Entries.putNew properties first.1 first.2).isEmpty = false := by
      unfold Entries.putNew
      split
      · rename_i hhas
        obtain ⟨entry, hentry, -⟩ := List.any_eq_true.mp hhas
        exact List.isEmpty_eq_false_iff.mpr (List.ne_nil_of_mem hentry)
      · simp
    simp [hput]

/-- What absorbing parts does to a node: it may get properties, required names and a kind. -/
theorem absorb_parts (parts : List Node) (node : Node) :
    ∃ properties required, parts.foldl absorb node
        = { node with
            properties := properties
            required := required
            kinds := kindsWith parts node.kinds }
      ∧ properties.isEmpty
        = (node.properties.isEmpty && parts.all fun part => part.properties.isEmpty) := by
  induction parts generalizing node with
  | nil => exact ⟨node.properties, node.required, rfl, by simp⟩
  | cons part parts ih =>
    obtain ⟨properties, required, hfold, hempty⟩ := ih (absorb node part)
    refine ⟨properties, required, ?_, ?_⟩
    · rw [List.foldl_cons, hfold]
      have hkinds : kindsWith parts (absorb node part).kinds
          = kindsWith (part :: parts) node.kinds := by
        simp only [kindsWith, absorb, List.any_cons, Bool.or_eq_true]
        by_cases hfirst : (!part.properties.isEmpty) = true ∨ part.kinds.has .object = true
        · simp only [hfirst, true_or, if_true]
          split <;> rfl
        · simp only [hfirst, false_or, if_false]
      rw [hkinds]
      rfl
    · rw [hempty, absorb, isEmpty_foldl_putNew, List.all_cons, Bool.and_assoc]

theorem fillParts_ok (hread : RendersWell defs read) (hs : s.Sound) (hdefs : defs <+: s.definitions)
    (hmodest : Modest defs (.obj members)) (hplain : Plain members) (hid : id < s.graph.size)
    (h : runStep (fillParts read trail id members) s = (.ok (), t))
    (hlater : Preserved s t id later) :
    ∃ (takens : List Taken) (properties : List (String × NodeId)) (required : List Json),
      takens.map (·.part) = givenParts members
      ∧ (∀ taken ∈ takens, taken.Held later)
      ∧ t.graph.node id = { s.graph.node id with
          properties := properties
          required := required
          kinds := kindsWith (takens.map (·.shape)) (s.graph.node id).kinds }
      ∧ properties.isEmpty = ((s.graph.node id).properties.isEmpty
        && (takens.map (·.shape)).all fun part => part.properties.isEmpty) := by
  obtain ⟨given, hgiven, h⟩ := runStep_lift_bind h
  obtain ⟨takens, hnames, hheld, hnode⟩ := readParts_ok hread given hs hdefs
    (fun part hpart => hmodest.nested hplain (mem_nested_part hgiven hpart)) hid h hlater
  obtain ⟨properties, required, hfold, hempty⟩ :=
    absorb_parts (takens.map (·.shape)) (s.graph.node id)
  refine ⟨takens, properties, required, ?_, hheld, hnode.trans hfold, hempty⟩
  rw [hnames, givenParts, hgiven]
  rfl

/-- A node with a property that names no kind is settled to be one of objects. -/
theorem kinds_settle_of_property {node : Node} (h : node.properties.isEmpty = false) :
    (settleKinds node).kinds
      = if node.kinds = Kinds.none then Kinds.none.insert .object else node.kinds := by
  unfold settleKinds
  rw [h]
  split_ifs <;> first | rfl | simp_all

/-- A shape of objects with properties anyway is read to a node of this sort, whatever has been
absorbed of the definitions among its parts. -/
theorem Firm.filled (hfirm : Firm members) {takens : List Taken}
    (hnames : takens.map (·.part) = givenParts members) (hheld : ∀ taken ∈ takens, taken.Held later)
    {node : Node} (hkinds : node.kinds = kindsWith (takens.map (·.shape)) (kindsNamed members))
    (hempty : node.properties.isEmpty = (!spellsProperty members
      && (takens.map (·.shape)).all fun part => part.properties.isEmpty)) :
    node.properties.isEmpty = false
      ∧ (settleKinds node).kinds = (kindsNamed members).insert .object := by
  cases hfirm with
  | own hown hnamed =>
    have hsome : node.properties.isEmpty = false := by
      rw [hempty, hown]
      rfl
    refine ⟨hsome, ?_⟩
    rw [kinds_settle_of_property hsome, hkinds]
    rcases hnamed with hnone | hobject
    · rw [hnone, kindsWith]
      split_ifs <;> first | rfl | contradiction
    · have hne : kindsNamed members ≠ Kinds.none := by
        intro hnone
        rw [hnone] at hobject
        cases hobject
      rw [kindsWith, Kinds.insert_of_has hobject, ite_self, if_neg hne]
  | @part part inner hpart hinner hproperty =>
    have hgiven : part ∈ takens.map (·.part) := by
      rw [hnames, mem_givenParts]
      exact ⟨hpart, fun hnull => by subst hnull; cases hinner⟩
    obtain ⟨taken, htaken, rfl⟩ := List.mem_map.mp hgiven
    have hpropertied : taken.shape.properties.isEmpty = false := by
      rw [(hheld taken htaken).shape fun _ => hinner.not_stands]
      exact (hheld taken htaken).renders.propertied hinner hproperty
    have hshape : taken.shape ∈ takens.map (·.shape) := List.mem_map_of_mem htaken
    have hinsert : node.kinds = (kindsNamed members).insert .object := by
      rw [hkinds, kindsWith, if_pos]
      exact List.any_eq_true.mpr ⟨_, hshape, by simp [hpropertied]⟩
    have hsome : node.properties.isEmpty = false := by
      rw [hempty, Bool.and_eq_false_iff]
      exact Or.inr (List.all_eq_false.mpr ⟨_, hshape, by simp [hpropertied]⟩)
    refine ⟨hsome, ?_⟩
    rw [kinds_settle_of_property hsome, hinsert, if_neg]
    intro hnone
    have hobject : ((kindsNamed members).insert .object).has .object = false := by
      rw [hnone]
      rfl
    cases hobject

/-- Where the shape does not tell, what has been absorbed is what the nodes of the parts have. -/
theorem shapes_of_held (hmodest : Modest defs (.obj members)) (hplain : Plain members)
    (hfirm : ¬ Firm members) {takens : List Taken}
    (hnames : takens.map (·.part) = givenParts members)
    (hheld : ∀ taken ∈ takens, taken.Held later) :
    takens.map (·.shape) = takens.map fun taken => later.graph.node taken.child := by
  refine List.map_congr_left fun taken htaken => (hheld taken htaken).shape fun name => ?_
  have hgiven : taken.part ∈ givenParts members := hnames ▸ List.mem_map_of_mem htaken
  exact hmodest.part hplain (mem_givenParts.mp hgiven).1 hfirm

theorem kinds_settle_admitting (node : Node) (nullable : Bool) :
    (settleKinds (node.admitting nullable)).kinds = (settleKinds node).kinds := by
  unfold settleKinds Node.admitting
  dsimp only
  split_ifs <;> rfl

/-- What the stages of filling a blank node have made of it when its kinds are yet to be settled. -/
structure Unsettled (later : Reading) (members : List (String × Json)) (name : Json) (node : Node) :
    Prop where
  typeName : node.typeName = name
  reference : node.reference = none
  format : node.format = Json.field members "format"
  nullable : node.nullable = Json.admitsNull members
  items : node.items.isSome
    = (Entries.has members "items" && decide (Json.field members "items" ≠ .null))
  item : ∀ item, node.items = some item → Renders later false (Json.field members "items") item
  additional : ∃ shape, node.additional = additionalOf members shape
    ∧ ∀ inner, Json.field members "additionalProperties" = .obj inner →
      Renders later false (.obj inner) shape
  parts : ∃ takens : List Taken, takens.map (·.part) = givenParts members
    ∧ (∀ taken ∈ takens, taken.Held later)
    ∧ node.properties.isEmpty = (!spellsProperty members
      && (takens.map (·.shape)).all fun part => part.properties.isEmpty)
    ∧ node.kinds = kindsWith (takens.map (·.shape)) (kindsNamed members)

theorem Unsettled.typeName_settled {name : Json} {node : Node}
    (h : Unsettled later members name node) :
    ((settleKinds node).admitting nullable).typeName = name := by
  obtain ⟨kinds, hsettled⟩ := settleKinds_eq node
  rw [hsettled]
  exact h.typeName

theorem Unsettled.carries {name : Json} {node : Node} (h : Unsettled later members name node)
    (hmodest : Modest defs (.obj members)) (hplain : Plain members) :
    Carries (Renders later false) later.graph nullable members
      ((settleKinds node).admitting nullable) := by
  obtain ⟨takens, hnames, hheld, hempty, hkinds⟩ := h.parts
  have hanyway := fun hfirm : Firm members => hfirm.filled hnames hheld hkinds hempty
  have hsame := kinds_settle_admitting node nullable
  obtain ⟨kinds, hsettled⟩ := settleKinds_eq node
  rw [hsettled] at hanyway hsame ⊢
  refine ⟨h.reference, h.format, congrArg (nullable || ·) h.nullable, h.items, h.item,
    h.additional, hanyway, fun hfirm =>
      ⟨takens.map fun taken => (taken.part, taken.child), ?_, ?_, ?_, ?_⟩⟩
  · rw [List.map_map]
    exact hnames
  · exact List.forall_mem_map.mpr fun taken htaken => (hheld taken htaken).renders
  · rw [shapes_of_held hmodest hplain hfirm hnames hheld] at hempty
    show node.properties.isEmpty = _
    rw [hempty, List.all_map, List.all_map]
    rfl
  · rw [shapes_of_held hmodest hplain hfirm hnames hheld] at hkinds
    rw [List.map_map]
    refine hsame.symm.trans ?_
    exact congrArg (fun kinds => (settleKinds { node.admitting nullable with kinds := kinds }).kinds)
      hkinds

/-- The stages of filling a blank node, one after the other, make it carry the shape. -/
theorem carries_of_fill (hread : RendersWell defs read) (hs : s.Sound)
    (hdefs : defs <+: s.definitions) (hmodest : Modest defs (.obj members)) (hplain : Plain members)
    (hid : id < s.graph.size) {name : Json} (hblank : s.graph.node id = { typeName := name })
    (h : runStep (fill read trail id members) s = (.ok (), t)) (hlater : Preserved s t id later)
    (hnode : later.graph.node id = (t.graph.node id).admitting nullable) :
    (later.graph.node id).typeName = name
      ∧ Carries (Renders later false) later.graph nullable members (later.graph.node id) := by
  rw [fill_eq] at h
  obtain ⟨_, s₁, h₁, h⟩ := runStep_bind_ok.mp h
  obtain ⟨_, s₂, h₂, h⟩ := runStep_bind_ok.mp h
  obtain ⟨_, s₃, h₃, h⟩ := runStep_bind_ok.mp h
  obtain ⟨_, s₄, h₄, h⟩ := runStep_bind_ok.mp h
  obtain ⟨_, s₅, h₅, h⟩ := runStep_bind_ok.mp h
  obtain ⟨_, s₆, h₆, h⟩ := runStep_bind_ok.mp h
  cases h
  -- each stage leaves the nodes alone that were there before it, and so do all later ones
  have hfilling : ∀ s, Filling (Along id s) read id := fun s => filling_along hread.careful
  have hfirst := along_of_upholds hs ((hfilling s).keywords members) h₁
  have hitems := hfirst.trans (along_of_upholds hfirst.sound ((hfilling s₁).items trail members) h₂)
  have hadditional :=
    along_of_upholds hitems.sound ((hfilling s₂).additional trail members) h₃
  have hrequired :=
    along_of_upholds hadditional.sound ((hfilling s₃).required members) h₄
  have hproperties :=
    along_of_upholds hrequired.sound ((hfilling s₄).properties trail members) h₅
  have hparts := along_of_upholds hproperties.sound ((hfilling s₅).parts trail members) h₆
  have hrest := hrequired.trans (hproperties.trans hparts)
  have hlast := hitems.trans (hadditional.trans (hrequired.trans hproperties))
  have hheld := hlater.changed
  have hlt : ∀ {u}, Along id s u → id < u.graph.size := fun halong =>
    Nat.lt_of_lt_of_le hid halong.size
  obtain ⟨values, hnode₁⟩ := fillKeywords_ok hid h₁
  obtain ⟨items, hnode₂, hgiven, hitem⟩ := fillItems_ok hread hfirst.sound
    (hdefs.trans hfirst.definitions) hmodest hplain (hlt hfirst) (by rw [hnode₁, hblank]; rfl) h₂
    ((hheld.after hfirst.size).before (hadditional.trans hrest))
  obtain ⟨shape, hnode₃, hshape⟩ := fillAdditional_ok hread hitems.sound
    (hdefs.trans hitems.definitions) hmodest hplain (hlt hitems)
    (by rw [hnode₂, hnode₁, hblank]; rfl) h₃ ((hheld.after hitems.size).before hrest)
  obtain ⟨required, hnode₄⟩ := fillRequired_ok (hlt (hitems.trans hadditional)) h₄
  obtain ⟨own, hnode₅, hown⟩ := fillProperties_ok hread hrequired.sound
    (hlt (hitems.trans (hadditional.trans hrequired))) h₅
  obtain ⟨takens, properties, required', hnames, htakens, hnode₆, hempty⟩ := fillParts_ok hread
    hproperties.sound (hdefs.trans hlast.definitions) hmodest hplain (hlt hlast) h₆
    (hheld.after hlast.size)
  rw [hnode₅, hown, hnode₄, hnode₃, hnode₂, hnode₁, hblank] at hempty
  rw [hnode₅, hnode₄, hnode₃, hnode₂, hnode₁, hblank] at hnode₆
  have hunsettled : Unsettled later members name (s₆.graph.node id) := by
    rw [hnode₆]
    exact ⟨rfl, rfl, rfl, Bool.false_or _, hgiven, hitem, ⟨shape, rfl, hshape⟩, takens, hnames,
      htakens, hempty, rfl⟩
  rw [Graph.node_modify_self _ _ (hlt (hlast.trans hparts))] at hnode
  rw [hnode]
  exact ⟨hunsettled.typeName_settled, hunsettled.carries hmodest hplain⟩

end

/-! ### Schemas -/

section

variable {defs : List (Json × Json)} {s t later : Reading} {read : ReadSchema}
  {trail : List String} {id wrapper : NodeId} {nullable : Bool} {data : Json}
  {members : List (String × Json)}

/-- A node that admits null around that of a definition renders what this one does. -/
theorem Renders.wrap (h : Renders later nullable data id)
    (hnamed : (later.graph.node id).typeName ≠ .null)
    (hwrapper : later.graph.node wrapper = { reference := some id, nullable := true }) :
    Renders later true data wrapper := by
  induction h with
  | blank _ hnode => simp [hnode] at hnamed
  | @points nullable members ref target id hpoints htarget hid =>
    by_cases hnull : (nullable || Json.admitsNull members) = true
    · rw [if_pos hnull] at hid
      simp [hid] at hnamed
    · rw [if_neg hnull] at hid
      subst hid
      exact .points hpoints htarget hwrapper
  | variant href hvariants hshape _ ih => exact .variant href hvariants hshape (ih hnamed hwrapper)
  | untyped _ _ _ hnode => simp [hnode, untypedObject] at hnamed
  | plain _ _ hunnamed _ => exact absurd hunnamed hnamed

/-- A node that has just been put into the graph is held as it is, or with null admitted. -/
theorem Preserved.push {node : Node}
    (h : Preserved s { t with graph := t.graph.push node } t.graph.size later) :
    Preserved s t id later where
  sound := h.sound
  named := h.named
  nodes other hlow hhigh _ := by
    have hsize : other < (t.graph.push node).size := by
      rw [Graph.size_push]
      exact Nat.lt_succ_of_lt hhigh
    rw [h.nodes other hlow hsize (Nat.ne_of_lt hhigh), Graph.node_push_of_lt _ _ hhigh]

namespace RendersWell

theorem nodeOf (h : RendersWell defs read) (hs : s.Sound) (hdefs : defs <+: s.definitions)
    (hdata : Modest defs data) (hrun : runStep (nodeOf read trail data) s = (.ok id, t))
    (hlater : Preserved s t id later)
    (hnode : s.graph.size ≤ id → later.graph.node id = (t.graph.node id).admitting nullable)
    (hunnamed : nullable = true → (t.graph.node id).isNamed = false) :
    Renders later nullable data id := by
  obtain ⟨made, u, hread, hrun⟩ := runStep_bind_ok.mp hrun
  cases made with
  | some child =>
    cases hrun
    exact h.renders hs hdefs hdata hread hlater hnode hunnamed
  | none =>
    cases hrun
    have hnew := hnode (h.careful.after hs hread).2.size
    rw [(h.null hread).mp rfl]
    refine .blank (fun _ hmembers => by cases hmembers) ?_
    rw [hnew]
    show (((u.graph.push {}).node u.graph.size).admitting nullable) = _
    rw [Graph.node_push_size]
    simp [Node.admitting]

theorem points (h : RendersWell defs read) (hs : s.Sound) (hdefs : defs <+: s.definitions)
    (hdata : Modest defs (.obj members)) {ref : Json} (hpoints : Points members ref)
    (hrun : runStep (schemaObject read trail members) s = (.ok id, t))
    (hlater : Preserved s t id later)
    (hnode : s.graph.size ≤ id → later.graph.node id = (t.graph.node id).admitting nullable)
    (hunnamed : nullable = true → (t.graph.node id).isNamed = false) :
    Renders later nullable (.obj members) id := by
  rw [schemaObject_of_points hpoints] at hrun
  obtain ⟨target, u, htarget, hrest⟩ := runStep_bind_ok.mp hrun
  cases ref with
  | str ref =>
    have hdefined : s.Defined (.str (Json.refName ref)) :=
      Or.inl (has_mono hdefs (hdata.names.points hpoints))
    rw [referenced_of_defined rfl hdefined] at htarget
    obtain ⟨hafter, hfound⟩ := definition_after h.careful (.str (Json.refName ref)) hs
    rw [htarget] at hafter hfound
    have hnamed := hfound target rfl
    cases hnull : Json.admitsNull members with
    | false =>
      rw [hnull] at hrest
      cases hrest
      have hname := (hafter.1.known hnamed).2
      have hnullable : nullable = false := by simpa [Node.isNamed, hname] using hunnamed
      refine .points hpoints (get?_mono hlater.named hnamed) ?_
      simp [hnull, hnullable]
    | true =>
      rw [hnull] at hrest
      cases hrest
      refine .points hpoints (get?_mono hlater.named hnamed) ?_
      rw [hnull, Bool.or_true, if_pos rfl, hnode hafter.2.size]
      show ((u.graph.push _).node u.graph.size).admitting nullable = _
      rw [Graph.node_push_size]
      simp [Node.admitting]
  | _ => cases htarget

theorem union (h : RendersWell defs read) (hs : s.Sound) (hdefs : defs <+: s.definitions)
    (hdata : Modest defs (.obj members)) {variants : List Json}
    (href : Entries.get? members "$ref" = none) (hvariants : variants? members = some variants)
    (hrun : runStep (schemaObject read trail members) s = (.ok id, t))
    (hlater : Preserved s t id later)
    (hnode : s.graph.size ≤ id → later.graph.node id = (t.graph.node id).admitting nullable)
    (hunnamed : nullable = true → (t.graph.node id).isNamed = false) :
    Renders later nullable (.obj members) id := by
  rw [schemaObject_of_union href hvariants] at hrun
  by_cases hone : ∃ shape, variants.filter (! isNullVariant ·) = [shape]
  · obtain ⟨shape, hshape⟩ := hone
    have hmodest := hdata.variant ⟨href, variants, hvariants, hshape⟩
    refine .variant href hvariants hshape ?_
    rw [union_of_one hshape] at hrun
    obtain ⟨made, u, hmade, hrun⟩ := runStep_bind_ok.mp hrun
    have hmakes := makes_nodeOf h.careful trail shape s hs
    rw [hmade] at hmakes
    obtain ⟨hafter, hresult⟩ := hmakes
    cases hflag : Json.admitsNull members || decide (1 < variants.length) with
    | false =>
      rw [hflag] at hrun
      cases hrun
      rw [Bool.or_false]
      exact h.nodeOf hs hdefs hmodest hmade hlater hnode hunnamed
    | true =>
      rw [hflag, if_pos rfl] at hrun
      rw [Bool.or_true]
      cases hnamed : (u.graph.node made).isNamed with
      | true =>
        rw [runStep_admitNull_of_named hnamed] at hrun
        cases hrun
        have hheld : Preserved s u made later := hlater.push
        have hlt := (hresult made rfl).1
        have hsame : Preserved s u u.graph.size later := hlater.push
        have hrenders : Renders later false shape made :=
          h.nodeOf hs hdefs hmodest hmade hheld
            (fun hlow => hsame.nodes made hlow hlt (Nat.ne_of_lt hlt))
            fun hfalse => by cases hfalse
        have hname : (u.graph.node made).typeName ≠ .null := by
          simpa [Node.isNamed] using hnamed
        have howned := (hlater.sound.known (get?_mono hlater.named (hafter.1.owned hname))).2
        refine hrenders.wrap (howned ▸ hname) ?_
        rw [hnode hafter.2.size]
        show ((u.graph.push _).node u.graph.size).admitting nullable = _
        rw [Graph.node_push_size]
        simp [Node.admitting]
      | false =>
        rw [runStep_admitNull_of_unnamed hnamed] at hrun
        cases hrun
        have hlt := (hresult _ rfl).1
        refine h.nodeOf hs hdefs hmodest hmade hlater.changed (fun hlow => ?_) fun _ => hnamed
        rw [hnode hlow]
        show ((u.graph.modify id _).node id).admitting nullable = _
        rw [Graph.node_modify_self _ _ hlt]
        simp [Node.admitting]
  · have hseveral : ∀ shape, variants.filter (! isNullVariant ·) ≠ [shape] :=
      fun shape hshape => hone ⟨shape, hshape⟩
    obtain ⟨count, hunion⟩ := @union_untyped read trail variants (Json.admitsNull members) hseveral
    rw [hunion] at hrun
    cases hrun
    refine .untyped href hvariants hseveral ?_
    rw [hnode (Nat.le_refl _)]
    show ((s.graph.push _).node s.graph.size).admitting nullable = _
    rw [Graph.node_push_size]
    rfl

theorem plain (h : RendersWell defs read) (hs : s.Sound) (hdefs : defs <+: s.definitions)
    (hdata : Modest defs (.obj members)) (hplain : Plain members)
    (hrun : runStep (schemaObject read trail members) s = (.ok id, t))
    (hlater : Preserved s t id later)
    (hnode : s.graph.size ≤ id → later.graph.node id = (t.graph.node id).admitting nullable) :
    Renders later nullable (.obj members) id := by
  rw [schemaObject_of_plain hplain] at hrun
  obtain ⟨made, u, hadd, hrun⟩ := runStep_bind_ok.mp hrun
  cases hadd
  obtain ⟨_, u, hfill, hrun⟩ := runStep_bind_ok.mp hrun
  cases hrun
  change runStep (fill read trail s.graph.size members) s.blank = _ at hfill
  have hsize : s.blank.graph.size = s.graph.size + 1 := Graph.size_push _ _
  have hblank : s.blank.graph.node s.graph.size = { typeName := .null } :=
    Graph.node_push_size _ _
  obtain ⟨hunnamed, hcarries⟩ := carries_of_fill (s := s.blank) h (hs.push rfl) hdefs hdata hplain
    (hsize ▸ Nat.lt_succ_self _) hblank hfill (hlater.after (hsize ▸ Nat.le_succ _))
    (hnode (Nat.le_refl _))
  exact .plain (fun _ _ hpart => hpart) hplain hunnamed hcarries

end RendersWell

theorem rendersWell_schemaStep (h : RendersWell defs read) :
    RendersWell defs (schemaStep read) := by
  refine ⟨careful_schemaStep h.careful, ?null, ?renders⟩
  case null =>
    intro trail data s made t hrun
    cases data with
    | null =>
      cases hrun
      simp
    | obj members =>
      rw [schemaStep_obj] at hrun
      obtain ⟨id, u, -, hrun⟩ := runStep_bind_ok.mp hrun
      cases hrun
      simp
    | _ =>
      cases hrun
      simp
  case renders =>
    intro trail data s id t later nullable hs hdefs hdata hrun hlater hnode hunnamed
    cases data with
    | null => cases hrun
    | obj members =>
      rw [schemaStep_obj] at hrun
      obtain ⟨made, u, hmade, hrun⟩ := runStep_bind_ok.mp hrun
      cases hrun
      cases form members with
      | points hpoints => exact h.points hs hdefs hdata hpoints hmade hlater hnode hunnamed
      | union href hvariants =>
        exact h.union hs hdefs hdata href hvariants hmade hlater hnode hunnamed
      | plain hplain => exact h.plain hs hdefs hdata hplain hmade hlater hnode
    | _ =>
      cases hrun
      refine .blank (fun _ hmembers => by cases hmembers) ?_
      rw [hnode (Nat.le_refl _)]
      show ((s.graph.push {}).node s.graph.size).admitting nullable = _
      rw [Graph.node_push_size]
      simp [Node.admitting]

/-- By induction on the depth: reading makes nodes that render what has been read. -/
theorem rendersWell_schemaTo (defs : List (Json × Json)) (depth : Nat) :
    RendersWell defs (schemaTo depth) := by
  induction depth with
  | zero =>
    refine ⟨careful_schemaTo 0, ?_, ?_⟩
    · intro trail data s made t hrun
      cases hrun
    · intro trail data s id t later nullable _ _ _ hrun
      cases hrun
  | succ depth ih => exact rendersWell_schemaStep ih

end

end Reading

end ApiClients
