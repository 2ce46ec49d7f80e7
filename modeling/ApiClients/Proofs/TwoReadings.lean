import ApiClients.Proofs.Histories
import ApiClients.Proofs.Mentions
import ApiClients.Proofs.ReadingOperations

/-!
# Reading one set of definitions twice

Two documents with the same definitions, whose references name definitions, are read alike as far as
the definitions go: whatever else the documents say and however deep each of them may be read, the
definitions get the same nodes at the same addresses (`agree_readDefinitions`).  Nothing of a document
but its definitions is looked at until its operations are read.
-/

namespace ApiClients.Reading

/-- Two states of reading the same definitions, with the same nodes and names so far. -/
structure Alike (defs : List (Json × Json)) (s t : Reading) : Prop where
  left : s.definitions = defs
  right : t.definitions = defs
  named : s.named = t.named
  graph : s.graph = t.graph

/-- Two ways of reading schemas come to the same where all references name definitions. -/
def ReadsAlike (defs : List (Json × Json)) (read read' : ReadSchema) : Prop :=
  ∀ trail data, NamesOnly defs data → Agree (Alike defs) (read trail data) (read' trail data)

section

variable {defs : List (Json × Json)} {read read' : ReadSchema} {members : List (String × Json)}

/-! ### Steps that do not depend on the way of reading -/

theorem agree_change (id : NodeId) (f : Node → Node) :
    Agree (Alike defs) (change id f) (change id f) :=
  agree_modify fun _ _ h => ⟨h.left, h.right, h.named, by rw [h.graph]⟩

theorem agree_add (node : Node) : Agree (Alike defs) (add node) (add node) := by
  intro s t h id s' id' t' hs ht
  cases hs
  cases ht
  exact ⟨congrArg Graph.size h.graph, h.left, h.right, h.named, by rw [h.graph]⟩

theorem agree_nameNode (name : Json) (id : NodeId) :
    Agree (Alike defs) (nameNode name id) (nameNode name id) :=
  agree_modify fun _ _ h => ⟨h.left, h.right, by rw [h.named], h.graph⟩

theorem agree_note (event event' : Event) : Agree (Alike defs) (note event) (note event') :=
  agree_modify fun _ _ h => ⟨h.left, h.right, h.named, h.graph⟩

theorem agree_nullableNode (nullable : Bool) (id : NodeId) :
    Agree (Alike defs) (nullableNode nullable id) (nullableNode nullable id) := by
  cases nullable with
  | false => exact agree_pure id
  | true => exact agree_add _

theorem agree_admitNull (id : NodeId) : Agree (Alike defs) (admitNull id) (admitNull id) := by
  unfold admitNull node
  simp only [bind_assoc, pure_bind]
  refine agree_get_bind fun s t h => ?_
  rw [h.graph]
  by_cases hnamed : (t.graph.node id).isNamed = true
  · simp only [hnamed, if_true]
    exact agree_nullableNode true id
  · simp only [hnamed, if_false, Bool.false_eq_true]
    exact agree_bind (agree_change id _) fun _ => agree_pure id

/-! ### Nested schemas -/

namespace ReadsAlike

theorem nodeOf (h : ReadsAlike defs read read') (trail : List String) {data : Json}
    (hdata : NamesOnly defs data) :
    Agree (Alike defs) (nodeOf read trail data) (Reading.nodeOf read' trail data) := by
  refine agree_bind (h trail data hdata) fun made => ?_
  cases made with
  | none => exact agree_add _
  | some id => exact agree_pure id

theorem fillItems (h : ReadsAlike defs read read') (trail : List String) (id : NodeId)
    (hrefs : ∀ entry ∈ nested members, NamesOnly defs entry.2) :
    Agree (Alike defs) (fillItems read trail id members)
      (Reading.fillItems read' trail id members) := by
  unfold Reading.fillItems
  by_cases hitems : Entries.has members "items" = true
  · simp only [hitems, if_true]
    exact agree_bind (h trail _ (hrefs _ (mem_nested_items hitems))) fun _ => agree_change id _
  · simp only [hitems, if_false, Bool.false_eq_true]
    exact agree_pure ()

theorem fillAdditional (h : ReadsAlike defs read read') (trail : List String) (id : NodeId)
    (hrefs : ∀ entry ∈ nested members, NamesOnly defs entry.2) :
    Agree (Alike defs) (fillAdditional read trail id members)
      (Reading.fillAdditional read' trail id members) := by
  unfold Reading.fillAdditional
  split
  · rename_i shape hshape
    refine agree_bind (h trail _ (hrefs _ (mem_nested_additional hshape))) fun made => ?_
    cases made with
    | none => exact agree_pure ()
    | some child => exact agree_change id _
  · exact agree_change id _
  · exact agree_pure ()

theorem fillProperties (h : ReadsAlike defs read read') (trail : List String) (id : NodeId)
    (hrefs : ∀ entry ∈ nested members, NamesOnly defs entry.2) :
    Agree (Alike defs) (fillProperties read trail id members)
      (Reading.fillProperties read' trail id members) := by
  refine agree_mk_bind fun properties hproperties => agree_forIn fun property hproperty => ?_
  have hnested := mem_nested_property hproperties hproperty
  refine agree_bind (h trail _ (hrefs _ hnested)) fun made => ?_
  cases made with
  | none => exact agree_pure ()
  | some child => exact agree_change id _

theorem fillParts (h : ReadsAlike defs read read') (trail : List String) (id : NodeId)
    (hrefs : ∀ entry ∈ nested members, NamesOnly defs entry.2) :
    Agree (Alike defs) (fillParts read trail id members)
      (Reading.fillParts read' trail id members) := by
  refine agree_mk_bind fun parts hparts => agree_forIn fun part hpart => ?_
  have hnested := mem_nested_part hparts hpart
  refine agree_bind (h trail _ (hrefs _ hnested)) fun made => ?_
  cases made with
  | none => exact agree_pure ()
  | some child =>
    refine agree_get_bind fun s t hst => ?_
    rw [hst.graph]
    exact agree_change id _

theorem fill (h : ReadsAlike defs read read') (trail : List String) (id : NodeId)
    (hrefs : ∀ entry ∈ nested members, NamesOnly defs entry.2) :
    Agree (Alike defs) (fill read trail id members) (Reading.fill read' trail id members) := by
  rw [fill_eq, fill_eq]
  refine agree_bind ?keywords fun _ => agree_bind (h.fillItems trail id hrefs) fun _ =>
    agree_bind (h.fillAdditional trail id hrefs) fun _ => agree_bind ?required fun _ =>
    agree_bind (h.fillProperties trail id hrefs) fun _ =>
    agree_bind (h.fillParts trail id hrefs) fun _ => agree_change id _
  case keywords =>
    exact agree_bind (agree_change id _) fun _ => agree_mk_bind fun _ _ => agree_change id _
  case required => exact agree_mk_bind fun _ _ => agree_change id _

/-! ### Definitions and references -/

theorem readDefinition (h : ReadsAlike defs read read') (hdefs : RefsDefined defs) (name : Json)
    (id : NodeId) : Agree (Alike defs) (readDefinition read name id)
      (Reading.readDefinition read' name id) := by
  refine agree_get_bind fun s t hst => ?_
  rw [hst.left, hst.right]
  cases hdata : Entries.get? defs name with
  | none => exact agree_note _ _
  | some data =>
    have hcontents : ∀ entry ∈ contents data, NamesOnly defs entry.2 :=
      fun entry hentry target htarget => hdefs name target ⟨data, hdata, entry, hentry, htarget⟩
    cases data with
    | obj members =>
      by_cases hlone : ∃ ref, members = [("$ref", ref)]
      · obtain ⟨ref, rfl⟩ := hlone
        refine agree_bind (h.nodeOf [] (hcontents _ (List.mem_singleton.mpr rfl))) fun target => ?_
        by_cases htarget : target ≠ id
        · rw [if_pos htarget]
          exact agree_change id _
        · rw [if_neg htarget]
          exact agree_pure ()
      · have hmembers : ∀ ref, members ≠ [("$ref", ref)] := fun ref hsame => hlone ⟨ref, hsame⟩
        rw [contents_shape hmembers] at hcontents
        dsimp only
        split
        · exact absurd rfl (hmembers _)
        · exact h.fill [] id hcontents
    | _ => exact agree_note _ _

theorem definition (h : ReadsAlike defs read read') (hdefs : RefsDefined defs) (name : Json) :
    Agree (Alike defs) (definition read name) (Reading.definition read' name) := by
  rw [definition_eq, definition_eq]
  refine agree_get_bind fun s t hst => ?_
  rw [hst.named]
  cases Entries.get? t.named name with
  | some id => exact agree_pure id
  | none =>
    exact agree_bind (agree_add _) fun id => agree_bind (agree_nameNode name id) fun _ =>
      agree_bind (h.readDefinition hdefs name id) fun _ => agree_pure id

theorem referenced (h : ReadsAlike defs read read') (hdefs : RefsDefined defs)
    (trail : List String) {ref : Json} (hmembers : NamesOnly defs (.obj members))
    (href : Points members ref) :
    Agree (Alike defs) (referenced read trail ref) (Reading.referenced read' trail ref) := by
  cases ref with
  | str ref =>
    have hdeclared := hmembers.points href
    refine agree_get_bind fun s t hst => ?_
    rw [hst.left, hst.right]
    simp only [hdeclared, Bool.true_or, if_true]
    exact h.definition hdefs _
  | _ => exact agree_throw

/-! ### Schemas -/

theorem union (h : ReadsAlike defs read read') (trail : List String) {variants : List Json}
    (hmembers : NamesOnly defs (.obj members)) (href : Entries.get? members "$ref" = none)
    (hvariants : variants? members = some variants) (nullable : Bool) :
    Agree (Alike defs) (union read trail variants nullable)
      (Reading.union read' trail variants nullable) := by
  by_cases hone : ∃ shape, variants.filter (! isNullVariant ·) = [shape]
  · obtain ⟨shape, hshape⟩ := hone
    have hvariant : Variant members shape := ⟨href, variants, hvariants, hshape⟩
    rw [union_of_one hshape, union_of_one hshape]
    refine agree_bind (h.nodeOf trail (hmembers.variant hvariant)) fun id => ?_
    cases nullable || decide (1 < variants.length) with
    | false => exact agree_pure id
    | true => exact agree_admitNull id
  · have hseveral : ∀ shape, variants.filter (! isNullVariant ·) ≠ [shape] :=
      fun shape hshape => hone ⟨shape, hshape⟩
    unfold Reading.union
    dsimp only
    split
    · rename_i shape hshape
      exact absurd hshape (hseveral shape)
    · exact agree_bind (agree_note _ _) fun _ => agree_add _

theorem schemaObject (h : ReadsAlike defs read read') (hdefs : RefsDefined defs)
    (trail : List String) (hmembers : NamesOnly defs (.obj members)) :
    Agree (Alike defs) (schemaObject read trail members)
      (Reading.schemaObject read' trail members) := by
  cases form members with
  | points hpoints =>
    rw [schemaObject_of_points hpoints, schemaObject_of_points hpoints]
    exact agree_bind (h.referenced hdefs trail hmembers hpoints) fun id => agree_nullableNode _ id
  | union href hvariants =>
    rw [schemaObject_of_union href hvariants, schemaObject_of_union href hvariants]
    exact h.union trail hmembers href hvariants _
  | plain hplain =>
    rw [schemaObject_of_plain hplain, schemaObject_of_plain hplain]
    exact agree_bind (agree_add _) fun id =>
      agree_bind (h.fill trail id fun _ => hmembers.nested hplain) fun _ => agree_pure id

theorem schemaStep (h : ReadsAlike defs read read') (hdefs : RefsDefined defs) :
    ReadsAlike defs (schemaStep read) (Reading.schemaStep read') := by
  intro trail data hdata
  cases data with
  | null => exact agree_pure none
  | obj members =>
    rw [schemaStep_obj, schemaStep_obj]
    exact agree_bind (h.schemaObject hdefs trail hdata) fun id => agree_pure (some id)
  | _ =>
    show Agree _ (some <$> add {}) (some <$> add {})
    rw [map_eq_pure_bind]
    exact agree_bind (agree_add _) fun id => agree_pure (some id)

end ReadsAlike

/-- However deep schemas may be nested, those that are read are read alike. -/
theorem readsAlike_schemaTo (hdefs : RefsDefined defs) (depth depth' : Nat) :
    ReadsAlike defs (schemaTo depth) (schemaTo depth') := by
  induction depth generalizing depth' with
  | zero => exact fun _ _ _ => agree_throw
  | succ depth ih =>
    cases depth' with
    | zero => exact fun _ _ _ s t _ a s' b t' _ ht => by cases ht
    | succ depth' => exact (ih depth').schemaStep hdefs

theorem agree_namedSchema (hdefs : RefsDefined defs) (name : Json) :
    Agree (Alike defs) (namedSchema name) (namedSchema name) :=
  agree_get_bind fun _ _ _ => (readsAlike_schemaTo hdefs _ _).definition hdefs name

theorem agree_readDefinitions (hdefs : RefsDefined defs) :
    Agree (Alike defs) (readDefinitions defs) (readDefinitions defs) :=
  agree_forIn fun entry _ => agree_namedSchema hdefs entry.1

end

end ApiClients.Reading
