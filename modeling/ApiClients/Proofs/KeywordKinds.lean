import ApiClients.Proofs.EmittedTypes
import ApiClients.Proofs.EndlessShapes
import ApiClients.Proofs.ReadingEnds

/-!
# Keywords with values of their kinds

A document may give keywords values that have no meaning for them; they are kept, and some of them
stop a later pass.  This file says which kinds of value a pass counts on (`WellKinded`): texts for
names and formats, lists of texts for required names.  Where a document keeps to them, so do the
nodes that it is read into (`kinded_of_read`) and the names of its definitions and parameters.
-/

namespace ApiClients

/-! ### Kinds of values -/

namespace Json

def isTextOrNull : Json → Bool
  | .null => true
  | value => value.isText

def areTextsOrNull : Json → Bool
  | .null => true
  | .arr values => values.all isText
  | _ => false

theorem isKey_of_isTextOrNull {value : Json} (h : value.isTextOrNull = true) :
    value.isKey = true := by
  cases value with
  | arr _ => cases h
  | obj _ => cases h
  | _ => rfl

theorem isText_of_listed {value : Json} {names : List Json} (h : value.areTextsOrNull = true)
    (hnames : listed value = .ok names) : ∀ name ∈ names, name.isText = true := by
  unfold listed at hnames
  split at hnames
  · cases hnames
    exact fun _ hname => by cases hname
  · cases value with
    | arr values =>
      cases hnames
      exact List.all_eq_true.mp h
    | null => cases hnames
    | _ => cases h

end Json

/-- The format of a node is a text, if there is one, and so are the names that it requires. -/
structure Node.Kinded (node : Node) : Prop where
  format : node.format.isTextOrNull = true
  required : ∀ name ∈ node.required, name.isText = true

namespace Reading

/-! ### Schemas of their kinds -/

/-- The format and the required names of a schema object are texts, if there are any. -/
def Kinded (members : List (String × Json)) : Prop :=
  (Json.field members "format").isTextOrNull = true
    ∧ (Json.field members "required").areTextsOrNull = true

instance (members : List (String × Json)) : Decidable (Kinded members) :=
  inferInstanceAs (Decidable (_ ∧ _))

/-- All shapes that are spelled out in a schema keep to the kinds of their keywords. -/
def SchemaKinded (data : Json) : Prop := ∀ members, Holds data (.shape members) → Kinded members

/-- Whether a shape keeps to the kinds of its keywords; references do not count. -/
def Item.isKinded : Item → Bool
  | .shape members => decide (Kinded members)
  | .reference _ => true

theorem schemaKinded_iff {data : Json} :
    SchemaKinded data ↔ ∀ item ∈ items data.count data, item.isKinded = true := by
  simp only [SchemaKinded, mem_items (Nat.le_refl _)]
  constructor
  · intro h item hitem
    cases item with
    | shape members => exact decide_eq_true (h members hitem)
    | reference _ => rfl
  · intro h members hshape
    exact of_decide_eq_true (h _ hshape)

instance (data : Json) : Decidable (SchemaKinded data) := decidable_of_iff _ schemaKinded_iff.symm

theorem schemaKinded_null : SchemaKinded .null := by
  intro members hshape
  cases hshape

/-- A definition and all that stands in it keep to the kinds of their keywords. -/
def DefinitionKinded : Json → Prop
  | .obj members => Kinded members ∧ ∀ entry ∈ contents (.obj members), SchemaKinded entry.2
  | _ => True

instance (data : Json) : Decidable (DefinitionKinded data) :=
  match data with
  | .obj members => inferInstanceAs
      (Decidable (Kinded members ∧ ∀ entry ∈ contents (.obj members), SchemaKinded entry.2))
  | .null | .bool _ | .int _ | .real _ | .str _ | .arr _ => isTrue trivial

/-- The keywords of a document have values of the kinds that they are for, as far as a pass counts on
them: definitions and parameters have texts for names, and so do formats and required names. -/
structure WellKinded (defs : List (Json × Json)) (document : Json) : Prop where
  names : ∀ name ∈ defs.map (·.1), name.isText = true
  definitions : ∀ entry ∈ defs, DefinitionKinded entry.2
  asked : ∀ {data}, Asks document data → SchemaKinded data
  promoted : ∀ {code data}, Responds document code data → isPromoted code data = true →
    DefinitionKinded data
  parameters : ∀ {name}, ParameterName document name → name.isText = true

/-- Of a document without operations only the definitions count. -/
theorem wellKinded_of_definitions {defs : List (Json × Json)} {document : Json}
    (hnone : ∀ {operation shared}, ¬ Declares document operation shared)
    (hnames : ∀ name ∈ defs.map (·.1), name.isText = true)
    (hdefs : ∀ entry ∈ defs, DefinitionKinded entry.2) : WellKinded defs document := by
  refine ⟨hnames, hdefs, fun hasks => ?_, fun hresponds => ?_, fun hname => ?_⟩
  · rw [hasks.eq_null hnone]
    exact schemaKinded_null
  · exact absurd hresponds (not_responds hnone)
  · rcases hname with ⟨⟨hoperation, -, -, -, -⟩, -⟩ | _ | ⟨⟨hoperation, -⟩⟩
    · exact absurd hoperation hnone
    · rfl
    · exact absurd hoperation hnone

/-- The schemas whose references name definitions and whose keywords have values of their kinds. -/
def kinded (defs : List (Json × Json)) : Scope where
  basis := defs
  schema data := NamesOnly defs data ∧ SchemaKinded data
  shape members := Kinded members
    ∧ ∀ entry ∈ nested members, NamesOnly defs entry.2 ∧ SchemaKinded entry.2
  plain h hplain := ⟨h.2 _ (.shape hplain), fun _ hentry =>
    ⟨h.1.nested hplain hentry, fun _ hshape => h.2 _ (.nested hplain hentry hshape)⟩⟩
  variant h hvariant := ⟨h.1.variant hvariant, fun _ hshape => h.2 _ (.variant hvariant hshape)⟩
  nested h := h.2

section

variable {reader s : Reading} {data : Json} {document : Document} {defs : List (Json × Json)}

theorem defines_kinded {data : Json} (hkinds : DefinitionKinded data)
    (hrefs : ∀ entry ∈ contents data, NamesOnly defs entry.2) : (kinded defs).Defines data := by
  refine Scope.defines_of ?_ ?_
  · rintro ref rfl
    exact ⟨hrefs _ (List.mem_singleton.mpr rfl), hkinds.2 _ (List.mem_singleton.mpr rfl)⟩
  · rintro members rfl hmembers
    have hcontents := contents_shape hmembers
    exact ⟨hkinds.1, fun entry hentry => ⟨hrefs entry (hcontents ▸ hentry),
      hkinds.2 entry (hcontents ▸ hentry)⟩⟩

theorem covers_kinded (hrefs : RefsNamed defs data) (hkinds : WellKinded defs data) :
    (kinded defs).Covers (reader.begin data defs) := by
  refine ⟨List.prefix_rfl, fun hname => (by cases hname), ?_, ?_⟩
  · intro name definition hdefinition
    refine defines_kinded (hkinds.definitions _ (Entries.mem_of_get? hdefinition)) ?_
    exact fun entry hentry target htarget =>
      hrefs.definitions name target ⟨definition, hdefinition, entry, hentry, htarget⟩
  · intro members ref hschema href hmissing
    have hdeclared : Entries.has (reader.begin data defs).definitions _ = true :=
      hschema.1.points href
    rw [hdeclared] at hmissing
    cases hmissing

theorem admits_kinded (hrefs : RefsNamed defs data) (hkinds : WellKinded defs data) :
    Admits (kinded defs) data (fun _ _ _ _ => True) fun _ => True :=
  admits_scope (fun hasks => ⟨hrefs.asked hasks, hkinds.asked hasks⟩) fun hresponds hpromoted =>
    defines_kinded (hkinds.promoted hresponds hpromoted) (hrefs.promoted hresponds hpromoted)

/-! ### Nodes of their kinds -/

theorem mem_addRequired {required more : List Json} {name : Json}
    (h : name ∈ addRequired required more) : name ∈ required ∨ name ∈ more := by
  induction more generalizing required with
  | nil => exact Or.inl h
  | cons first more ih =>
    rw [addRequired, List.foldl_cons] at h
    rcases ih h with hfirst | hmore
    · split at hfirst
      · exact Or.inl hfirst
      · rcases List.mem_append.mp hfirst with hold | hnew
        · exact Or.inl hold
        · exact Or.inr (List.mem_singleton.mp hnew ▸ List.mem_cons_self)
    · exact Or.inr (List.mem_cons_of_mem _ hmore)

theorem law_kinded (defs : List (Json × Json)) : NodeLaw (kinded defs) fun _ node => node.Kinded := by
  have hblank : ∀ name, Node.Kinded { typeName := name } :=
    fun _ => ⟨rfl, fun _ hname => by cases hname⟩
  refine ⟨fun _ hnode => hnode, fun _ => hblank, ?added, ?filled, ?put,
    fun _ _ => ⟨rfl, fun _ hname => by cases hname⟩, fun hnode => ⟨hnode.format, hnode.required⟩⟩
  case added =>
    intro graph node hfresh
    cases hfresh <;> exact ⟨rfl, fun _ hname => by cases hname⟩
  case filled => exact fun hshape _ _ => ⟨hshape.1.1, fun _ hname => by cases hname⟩
  case put =>
    intro graph piece node hfits hgraph _ hnode
    cases piece with
    | required names =>
      obtain ⟨members, hshape, hnames⟩ := hfits
      exact ⟨hnode.format, Json.isText_of_listed hshape.1.2 hnames⟩
    | part child =>
      refine ⟨hnode.format, fun name hname => ?_⟩
      rcases mem_addRequired hname with hown | hpart
      · exact hnode.required name hown
      · exact (hgraph _).required name hpart
    | settle =>
      obtain ⟨kinds, hsettled⟩ := settleKinds_eq node
      rw [Piece.put, hsettled]
      exact ⟨hnode.format, hnode.required⟩
    | _ => exact ⟨hnode.format, hnode.required⟩

/-- Promoted definitions have texts for names too. -/
theorem History.texts {scope : Scope} {t : Reading} {moves : List Move}
    (h : History scope s moves t) (hs : ∀ name ∈ s.definitions.map (·.1), name.isText = true) :
    ∀ name ∈ t.definitions.map (·.1), name.isText = true := by
  refine h.keeps (P := fun u => ∀ name ∈ u.definitions.map (·.1), name.isText = true) ?_ hs
  intro u move hallowed hu
  cases move with
  | define name definition =>
    obtain ⟨⟨text, rfl⟩, -⟩ := hallowed
    intro other hother
    rcases Entries.mem_keys_putNew.mp hother with rfl | hold
    · rfl
    · exact hu other hold
  | _ => exact hu

/-- What a pass finds in a document that keeps to the kinds of its keywords. -/
structure Prepared (document : Document) : Prop where
  nodes : ∀ id, (document.graph.node id).Kinded
  names : ∀ id, (document.graph.node id).typeName ≠ .null →
    (document.graph.node id).typeName.isText = true
  parameters : ∀ operation ∈ document.operations, ∀ parameters,
    operation.parameters = some parameters → ∀ parameter ∈ parameters, parameter.name.isText = true

theorem kinded_of_read (hread : Reading.read reader data = (.ok document, s))
    (hdefs : Json.definitions data = .ok defs) (hrefs : RefsNamed defs data)
    (hkinds : WellKinded defs data) : Prepared document := by
  obtain ⟨_, hgiven, hdefs'⟩ := definitions_of_read hread
  cases hdefs.symm.trans hdefs'
  obtain ⟨hpasses, -, hgraph, hnamed⟩ := ((admits_kinded hrefs hkinds).document hdefs hgiven
    (covers_kinded hrefs hkinds) reader rfl).1 _ _ hread
  refine ⟨fun id => hgraph ▸ hpasses.law (law_kinded defs) id, fun id hid => ?_, ?_⟩
  · obtain ⟨moves, hcourse⟩ := hpasses.course
    refine hcourse.history.texts hkinds.names _ (names_subset hread ?_)
    exact List.mem_map_of_mem (Entries.mem_of_get? (schema_of_typeName hread hid))
  · intro operation hoperation parameters hparameters parameter hparameter
    exact hkinds.parameters (hnamed operation hoperation parameters hparameters parameter hparameter)

end

end Reading

end ApiClients
