import ApiClients.Proofs.Pointers
import ApiClients.Proofs.ReadingEnds

/-!
# Uses of a definition that admit null

A use of a definition may be wrapped up: in one part, in a union with null, in a union of a union, each
with its own keyword that admits null.  However this is spelled (`Uses`), reading it comes to one of
two nodes: that of the definition, which all its uses share, if null is admitted on no level; otherwise
a new node that admits null and stands for it directly (`nullable_uses_collapse`).  A union marks what
it has read in place, but only a node without a name, and of those it can meet none but such a new
node, which admits null already (`admitNull_nullableNode`).  So no second one is put around it, and
what all uses share is never marked.
-/

namespace ApiClients.Reading

/-- A schema uses the definition of a name, with null admitted on some level of it or on none.  It is
a reference; or one part that is a bare reference, beside which nothing is said of the shape; or a
union with one variant beside null, and that variant uses the definition. -/
inductive Uses (name : String) : Json → Bool → Prop
  | reference {members : List (String × Json)} {ref : String}
      (href : Entries.get? members "$ref" = some (.str ref)) (hname : Json.refName ref = name) :
      Uses name (.obj members) (Json.admitsNull members)
  | part {members : List (String × Json)} {ref : String}
      (hpart : Entries.get? members "allOf" = some (.arr [.obj [("$ref", .str ref)]]))
      (hbeside : ∀ member ∈ members, member.1 ∈ neutralKeywords) (hname : Json.refName ref = name) :
      Uses name (.obj members) (Json.admitsNull members)
  | union {members : List (String × Json)} {variants : List Json} {shape : Json} {nullable : Bool}
      (href : Entries.get? members "$ref" = none) (hvariants : variants? members = some variants)
      (hshape : variants.filter (! isNullVariant ·) = [shape]) (h : Uses name shape nullable) :
      Uses name (.obj members)
        (Json.admitsNull members || decide (1 < variants.length) || nullable)

/-- A use is read by reading the definition, unless that has been done, and admitting null around
it if so asked. -/
def useOf (read : ReadSchema) (name : String) (nullable : Bool) : ReadingM NodeId := do
  nullableNode nullable (← definition read (.str name))

section

variable {s t : Reading} {read inner : ReadSchema} {trail : List String} {id : NodeId} {name : String}
  {members : List (String × Json)} {use : Json} {nullable : Bool}

/-! ### One node around the definition -/

/-- The state with a node more, which admits null and stands for another one. -/
def wrap (s : Reading) (id : NodeId) : Reading :=
  { s with graph := s.graph.push { reference := some id, nullable := true } }

theorem runStep_nullableNode_true :
    runStep (nullableNode true id) s = (.ok s.graph.size, s.wrap id) := rfl

theorem node_wrap_size :
    (s.wrap id).graph.node s.graph.size = { reference := some id, nullable := true } :=
  Graph.node_push_size _ _

/-- Admitting null once more changes nothing: what has no name and is marked in place is the node
around the definition, and it is marked already. -/
theorem admitNull_nullableNode (h : (s.graph.node id).isNamed = true) (nullable : Bool) :
    runStep (nullableNode nullable id >>= admitNull) s = runStep (nullableNode true id) s := by
  cases nullable with
  | false =>
    show runStep (pure id >>= admitNull) s = _
    rw [pure_bind, runStep_admitNull_of_named h]
    rfl
  | true =>
    have hunnamed : ((s.wrap id).graph.node s.graph.size).isNamed = false := by
      rw [node_wrap_size]
      rfl
    have hmarked : runStep (change s.graph.size fun n => { n with nullable := true }) (s.wrap id)
        = (.ok (), s.wrap id) := change_same (by rw [node_wrap_size])
    rw [runStep_bind_of_ok runStep_nullableNode_true, runStep_nullableNode_true,
      runStep_admitNull_of_unnamed hunnamed]
    exact congrArg (fun run => (Except.ok s.graph.size, run.2)) hmarked

/-! ### Reading a use -/

theorem points_of_part {ref : String}
    (hpart : Entries.get? members "allOf" = some (.arr [.obj [("$ref", .str ref)]]))
    (hbeside : ∀ member ∈ members, member.1 ∈ neutralKeywords) : Points members (.str ref) := by
  have hnone : ∀ key, key ∉ neutralKeywords → Entries.get? members key = none := by
    intro key hkey
    cases hget : Entries.get? members key with
    | none => rfl
    | some value => exact absurd (hbeside _ (Entries.mem_of_get? hget)) hkey
  have hall : members.all (fun m => neutralKeywords.contains m.1) = true := by
    simpa using hbeside
  refine Or.inr ⟨hnone "$ref" (by decide), ?_, ?_⟩
  · simp only [variants?, hnone "oneOf" (by decide), hnone "anyOf" (by decide)]
  · simp only [soleReference?, hpart, hall, if_true]
    rfl

theorem schemaStep_of_points {ref : String} (h : Points members (.str ref))
    (hname : s.Defined (.str (Json.refName ref))) :
    runStep (schemaStep read trail (.obj members)) s
      = runStep (some <$> useOf read (Json.refName ref) (Json.admitsNull members)) s := by
  rw [schemaStep_obj, schemaObject_of_points h, map_eq_pure_bind]
  unfold useOf
  rw [runStep_bind, runStep_bind, runStep_bind, runStep_bind, referenced_of_defined rfl hname]

/-- The node of a definition that is read has a name. -/
theorem isNamed_of_definition (hread : Careful read) (hs : s.Sound)
    (h : runStep (definition read (.str name)) s = (.ok id, t)) :
    t.Sound ∧ (t.graph.node id).isNamed = true := by
  obtain ⟨hafter, hfound⟩ := definition_after hread (.str name) hs
  rw [h] at hafter hfound
  have htypeName := (hafter.1.known (hfound id rfl)).2
  exact ⟨hafter.1, by simp [Node.isNamed, htypeName]⟩

/-- A use that is read once more as the variant of a union with null is marked once. -/
theorem useOf_admitNull (hread : Careful read) (hs : s.Sound) :
    runStep (useOf read name nullable >>= admitNull) s = runStep (useOf read name true) s := by
  unfold useOf
  rw [bind_assoc, runStep_bind, runStep_bind]
  rcases hrun : runStep (definition read (.str name)) s with ⟨e | n, t⟩
  · rfl
  · exact admitNull_nullableNode (isNamed_of_definition hread hs hrun).2 nullable

theorem nodeOf_of_use
    (h : runStep (read trail use) s = runStep (some <$> useOf inner name nullable) s) :
    runStep (nodeOf read trail use) s = runStep (useOf inner name nullable) s := by
  unfold nodeOf
  rw [runStep_bind, h, map_eq_pure_bind, runStep_bind]
  rcases runStep (useOf inner name nullable) s with ⟨e | n, t⟩ <;> rfl

/-- A union whose one variant is a use is a use itself. -/
theorem union_of_use {variants : List Json} {shape : Json} {outer : Bool}
    (hinner : Careful inner) (hs : s.Sound)
    (hshape : variants.filter (! isNullVariant ·) = [shape])
    (h : runStep (read trail shape) s = runStep (some <$> useOf inner name nullable) s) :
    runStep (union read trail variants outer) s
      = runStep (useOf inner name (outer || decide (1 < variants.length) || nullable)) s := by
  rw [union_of_one hshape, runStep_bind, nodeOf_of_use h]
  cases outer || decide (1 < variants.length) with
  | false =>
    simp only [Bool.false_eq_true, if_false, Bool.false_or]
    rcases runStep (useOf inner name nullable) s with ⟨e | n, t⟩ <;> rfl
  | true =>
    simp only [if_true, Bool.true_or]
    rw [← runStep_bind, useOf_admitNull hinner hs]

/-- By induction on how the use is spelled: either there is no depth left to come to the definition, or
reading the use is reading the definition with null admitted around it once. -/
theorem runStep_of_uses (h : Uses name use nullable) (hs : s.Sound) (hname : s.Defined (.str name))
    (depth : Nat) (trail : List String) :
    depth < use.count ∧ runStep (schemaTo depth trail use) s = (.error .endless, s)
      ∨ ∃ inner, runStep (schemaTo depth trail use) s
          = runStep (some <$> useOf (schemaTo inner) name nullable) s := by
  induction h generalizing depth with
  | @reference members ref href href' =>
    cases depth with
    | zero => exact Or.inl ⟨Json.count_pos _, rfl⟩
    | succ depth =>
      subst href'
      exact Or.inr ⟨depth, schemaStep_of_points (Or.inl href) hname⟩
  | @part members ref hpart hbeside href =>
    cases depth with
    | zero => exact Or.inl ⟨Json.count_pos _, rfl⟩
    | succ depth =>
      subst href
      exact Or.inr ⟨depth, schemaStep_of_points (points_of_part hpart hbeside) hname⟩
  | @union members variants shape nullable href hvariants hshape _ ih =>
    cases depth with
    | zero => exact Or.inl ⟨Json.count_pos _, rfl⟩
    | succ depth =>
      have hstep : schemaTo (depth + 1) trail (.obj members)
          = some <$> union (schemaTo depth) trail variants (Json.admitsNull members) :=
        congrArg (some <$> ·) (schemaObject_of_union href hvariants)
      rw [hstep, map_eq_pure_bind]
      rcases ih depth with ⟨hshallow, hrun⟩ | ⟨inner, hrun⟩
      · have hcount := count_variant ⟨href, variants, hvariants, hshape⟩
        refine Or.inl ⟨by omega, ?_⟩
        rw [union_of_one hshape]
        exact runStep_bind_of_error (runStep_bind_of_error (runStep_bind_of_error hrun))
      · refine Or.inr ⟨inner, ?_⟩
        rw [map_eq_pure_bind, runStep_bind, runStep_bind,
          union_of_use (careful_schemaTo inner) hs hshape hrun]

/-! ### What a use comes to -/

/-- What a use comes to from a state in which the definition has its node `id`: that node, and nothing
has changed; or a node more, without a name, that admits null and stands for `id` directly. -/
structure Collapses (nullable : Bool) (id : NodeId) (t : Reading) (made : NodeId) (u : Reading) :
    Prop where
  shared : nullable = false → made = id ∧ u = t
  wrapped : nullable = true → made = t.graph.size
    ∧ u = { t with graph := t.graph.push { reference := some id, nullable := true } }
    ∧ u.graph.node made = { reference := some id, nullable := true, typeName := .null }
  kept : u.graph.node id = t.graph.node id

theorem collapses_nullableNode (hid : id < t.graph.size) (nullable : Bool) :
    ∃ made u, runStep (nullableNode nullable id) t = (.ok made, u)
      ∧ Collapses nullable id t made u := by
  cases nullable with
  | false => exact ⟨id, t, rfl, fun _ => ⟨rfl, rfl⟩, nofun, rfl⟩
  | true =>
    exact ⟨t.graph.size, t.wrap id, rfl, nofun, fun _ => ⟨rfl, rfl, node_wrap_size⟩,
      Graph.node_push_of_lt _ _ hid⟩

/-- A definition that is read on the way is read as it is by itself. -/
theorem uses_collapse (h : Uses name use nullable) (hs : s.Sound) (hname : s.Defined (.str name))
    {depth : Nat} (hdepth : use.count ≤ depth) (trail : List String) : ∃ inner,
      (∀ e t, runStep (definition (schemaTo inner) (.str name)) s = (.error e, t) →
        runStep (schemaTo depth trail use) s = (.error e, t))
      ∧ ∀ id t, runStep (definition (schemaTo inner) (.str name)) s = (.ok id, t) →
        Entries.get? t.named (.str name) = some id
          ∧ ∃ made u, runStep (schemaTo depth trail use) s = (.ok (some made), u)
            ∧ Collapses nullable id t made u := by
  rcases runStep_of_uses h hs hname depth trail with ⟨hshallow, -⟩ | ⟨inner, hrun⟩
  · exact absurd hdepth (Nat.not_le_of_lt hshallow)
  refine ⟨inner, ?fails, ?comes⟩
  case fails =>
    intro e t hdefinition
    rw [hrun, map_eq_pure_bind]
    exact runStep_bind_of_error (runStep_bind_of_error hdefinition)
  case comes =>
    intro id t hdefinition
    obtain ⟨hafter, hfound⟩ := definition_after (careful_schemaTo inner) (.str name) hs
    rw [hdefinition] at hafter hfound
    have hid := hfound id rfl
    obtain ⟨made, u, hmade, hcollapses⟩ :=
      collapses_nullableNode (hafter.1.known hid).1 nullable
    refine ⟨hid, made, u, ?_, hcollapses⟩
    rw [hrun]
    exact runStep_map_ok.mpr ⟨made, (runStep_bind_of_ok hdefinition).trans hmade, rfl⟩

theorem count_le_depthBound (s : Reading) (use : Json) : use.count ≤ s.depthBound use := by
  have hdepth := depth_suffices s use (Nat.zero_le _) (Nat.le_add_left use.count _)
  omega

/-- However a use of a declared definition is spelled, reading it reads the definition and fails
where that fails.  Otherwise it comes to the node of the definition, which all uses share, if null is
admitted on no level, and to one new node around it if it is admitted on some level; either way the
shared node is left as reading the definition leaves it.  A definition that has its node, as all of
them have when operations are read, is not read again, and then the use never fails. -/
theorem nullable_uses_collapse (hs : s.Sound)
    (hname : Entries.has s.definitions (.str name) = true) (h : Uses name use nullable) :
    (∀ depth trail, use.count ≤ depth → ∃ inner,
      (∀ e t, runStep (definition (schemaTo inner) (.str name)) s = (.error e, t) →
        runStep (schemaTo depth trail use) s = (.error e, t))
      ∧ ∀ id t, runStep (definition (schemaTo inner) (.str name)) s = (.ok id, t) →
        Entries.get? t.named (.str name) = some id
          ∧ ∃ made u, runStep (schemaTo depth trail use) s = (.ok (some made), u)
            ∧ Collapses nullable id t made u)
    ∧ ∀ id, Entries.get? s.named (.str name) = some id →
      ∃ made u, runStep (schema use) s = (.ok (some made), u) ∧ Collapses nullable id s made u := by
  refine ⟨fun depth trail hdepth => uses_collapse h hs (Or.inl hname) hdepth trail, ?_⟩
  intro id hid
  obtain ⟨inner, -, hcomes⟩ := uses_collapse h hs (Or.inl hname) (count_le_depthBound s use) []
  obtain ⟨-, made, u, hrun, hcollapses⟩ := hcomes id s (definition_known hid)
  refine ⟨made, u, ?_, hcollapses⟩
  unfold schema
  rw [runStep_bind_of_ok (runStep_get s)]
  exact hrun

end

/-- One part, which is the definition of pets. -/
def petPart : List (String × Json) :=
  [("description", .str "a pet"), ("allOf", .arr [.obj [("$ref", .str "#/definitions/Pet")]])]

def petUnion (flags : List (String × Json)) : List (String × Json) :=
  ("oneOf", .arr [.obj petPart]) :: flags

/-- Null is admitted on two levels. -/
def petOrNull : List (String × Json) :=
  [("anyOf", .arr [.obj [("type", .str "null")], .obj (petUnion [("x-nullable", .bool true)]),
    .obj [("type", .str "null")]])]

def petData : Json :=
  .obj [("definitions", .obj [("Pet", .obj [("type", .str "object")])]), ("paths", .obj [])]

/-- The state in which the one definition has been read. -/
def petRead : Reading :=
  (runStep (readDefinitions ((Json.definitions petData).toOption.getD []))
    (({} : Reading).begin petData ((Json.definitions petData).toOption.getD []))).2

theorem nullable_uses_collapse_pet :
    petRead.Sound ∧ Entries.get? petRead.named (.str "Pet") = some 0
      ∧ Uses "Pet" (.obj (petUnion [])) false ∧ Uses "Pet" (.obj petOrNull) true
      ∧ (∃ made u, runStep (schema (.obj (petUnion []))) petRead = (.ok (some made), u)
        ∧ Collapses false 0 petRead made u)
      ∧ ∃ made u, runStep (schema (.obj petOrNull)) petRead = (.ok (some made), u)
        ∧ Collapses true 0 petRead made u := by
  have hsound : petRead.Sound :=
    (named_of_readDefinitions (sound_begin _ _ _) (runStep_of_toOption (by decide +kernel))).1.1
  have hname : Entries.has petRead.definitions (.str "Pet") = true := by decide +kernel
  have hid : Entries.get? petRead.named (.str "Pet") = some 0 := by decide +kernel
  have hpart : Uses "Pet" (.obj petPart) false := .part rfl (by decide) (by decide)
  have hbare : Uses "Pet" (.obj (petUnion [])) false :=
    @Uses.union "Pet" (petUnion []) [.obj petPart] _ _ rfl rfl rfl hpart
  have hmarked : Uses "Pet" (.obj (petUnion [("x-nullable", .bool true)])) true :=
    .union rfl rfl rfl hpart
  have hnull : Uses "Pet" (.obj petOrNull) true :=
    @Uses.union "Pet" petOrNull [.obj [("type", .str "null")],
      .obj (petUnion [("x-nullable", .bool true)]), .obj [("type", .str "null")]] _ _ rfl rfl rfl
      hmarked
  refine ⟨hsound, hid, hbare, hnull, ?_, ?_⟩
  · exact (nullable_uses_collapse hsound hname hbare).2 0 hid
  · exact (nullable_uses_collapse hsound hname hnull).2 0 hid

end ApiClients.Reading
