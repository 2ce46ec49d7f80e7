import ApiClients.Language.Known
import ApiClients.Proofs.Lineage
import ApiClients.Proofs.Parsed

/-!
# Named shapes that are inlined

A definition that is no type definition is spelled out where it is used, so a reference to it should
have the type of what the definition says.  Two nodes that render one schema have one type
(`Renders.twins`); the node of a definition that is a reference alone, or a shape, says what such a
node says, and so its name and its spelling have one type (`inlined_alike`).  But a definition is
only ever filled as a shape: where it is a union, a reference with keywords beside it or one part
that is a reference, its node says nothing, and its name and its spelling have different types
(`spelled_otherwise`).
-/

namespace ApiClients

namespace Reading

/-! ### Two nodes for one schema -/

section

variable {s : Reading} {graph : Graph} {nullable : Bool} {members : List (String × Json)}
  {R R' : Json → NodeId → Prop} {S : NodeId → NodeId → Prop} {node other : Node}

/-- Two nodes weigh the same as parts of another one. -/
def SameAsPart (graph : Graph) (id other : NodeId) : Prop :=
  (graph.node id).properties.isEmpty = (graph.node other).properties.isEmpty
    ∧ (graph.node id).kinds = (graph.node other).kinds

theorem kinds_settle_congr (hkinds : node.kinds = other.kinds)
    (hproperties : node.properties.isEmpty = other.properties.isEmpty)
    (hadmits : node.additional.admits = other.additional.admits)
    (hitems : node.items.isSome = other.items.isSome) :
    (settleKinds node).kinds = (settleKinds other).kinds := by
  unfold settleKinds
  rw [hkinds, hproperties, hadmits, hitems]
  split_ifs <;> first | rfl | exact hkinds

/-- What is said of parts one by one is the same for two lists of nodes for them. -/
theorem map_parts_congr {β : Type} {f : NodeId → β} {parts parts' : List (Json × NodeId)}
    (hnames : parts.map (·.1) = parts'.map (·.1))
    (h : ∀ part ∈ parts, ∀ part' ∈ parts', part.1 = part'.1 → f part.2 = f part'.2) :
    parts.map (fun part => f part.2) = parts'.map (fun part => f part.2) := by
  induction parts generalizing parts' with
  | nil =>
    cases parts' with
    | nil => rfl
    | cons part' parts' => cases hnames
  | cons part parts ih =>
    cases parts' with
    | nil => cases hnames
    | cons part' parts' =>
      obtain ⟨hfirst, hrest⟩ := List.cons.inj hnames
      have hmore := ih hrest fun other hother other' hother' =>
        h other (List.mem_cons_of_mem part hother) other' (List.mem_cons_of_mem part' hother')
      rw [List.map_cons, List.map_cons, hmore,
        h part List.mem_cons_self part' List.mem_cons_self hfirst]

/-- Two nodes that carry one shape are of one sort if the nodes for its parts weigh the same. -/
theorem Carries.sameSort (h : Carries R graph nullable members node)
    (h' : Carries R' graph nullable members other)
    (hparts : ∀ data id id', R data id → R' data id' → SameAsPart graph id id')
    (hadmits : node.additional.admits = other.additional.admits) :
    node.properties.isEmpty = other.properties.isEmpty ∧ node.kinds = other.kinds := by
  by_cases hfirm : Firm members
  · obtain ⟨hempty, hkinds⟩ := h.firm hfirm
    obtain ⟨hempty', hkinds'⟩ := h'.firm hfirm
    exact ⟨hempty.trans hempty'.symm, hkinds.trans hkinds'.symm⟩
  obtain ⟨parts, hnames, hrendered, hempty, hkinds⟩ := h.parts hfirm
  obtain ⟨parts', hnames', hrendered', hempty', hkinds'⟩ := h'.parts hfirm
  have hweigh : ∀ part ∈ parts, ∀ part' ∈ parts', part.1 = part'.1 →
      SameAsPart graph part.2 part'.2 := fun part hpart part' hpart' hname =>
    hparts part.1 part.2 part'.2 (hrendered part hpart) (hname ▸ hrendered' part' hpart')
  have hsame := hnames.trans hnames'.symm
  have hempties : parts.map (fun part => (graph.node part.2).properties.isEmpty)
      = parts'.map (fun part => (graph.node part.2).properties.isEmpty) :=
    map_parts_congr (f := fun id => (graph.node id).properties.isEmpty) hsame
      fun part hpart part' hpart' hname => (hweigh part hpart part' hpart' hname).1
  have hobjects : parts.map (fun part => !(graph.node part.2).properties.isEmpty
        || (graph.node part.2).kinds.has .object)
      = parts'.map (fun part => !(graph.node part.2).properties.isEmpty
        || (graph.node part.2).kinds.has .object) := by
    refine map_parts_congr (f := fun id => !(graph.node id).properties.isEmpty
      || (graph.node id).kinds.has .object) hsame fun part hpart part' hpart' hname => ?_
    obtain ⟨hproperties, hkinds⟩ := hweigh part hpart part' hpart' hname
    rw [hproperties, hkinds]
  have hproperties : node.properties.isEmpty = other.properties.isEmpty := by
    have hall := congrArg (List.all · id) hempties
    simp only [List.all_map, Function.comp_def, id] at hall
    rw [hempty, hempty', hall]
  refine ⟨hproperties, ?_⟩
  rw [hkinds, hkinds']
  refine kinds_settle_congr ?_ hproperties hadmits (h.items.trans h'.items.symm)
  have hany := congrArg (List.any · id) hobjects
  simp only [List.any_map, Function.comp_def, id] at hany
  simp only [kindsWith, List.any_map, Function.comp_def, hany]

/-- Two nodes that carry one shape say the same if the nodes for the schemas in it do. -/
theorem Carries.sameShape (h : Carries R graph nullable members node)
    (h' : Carries R' graph nullable members other)
    (hparts : ∀ data id id', R data id → R' data id' → S id id' ∧ SameAsPart graph id id') :
    node.SameShape S other := by
  obtain ⟨shape, hshape, hrelated⟩ := h.additional
  obtain ⟨shape', hshape', hrelated'⟩ := h'.additional
  have hitems : node.items.isSome = other.items.isSome := h.items.trans h'.items.symm
  have hadditional : Additional.Rel S node.additional other.additional := by
    rw [hshape, hshape']
    unfold additionalOf
    split
    · rename_i inner hinner
      exact .shape (hparts _ shape shape' (hrelated inner hinner) (hrelated' inner hinner)).1
    · exact .allowed true
    · exact .unsaid
  have hadmits : node.additional.admits = other.additional.admits := by
    rw [hshape, hshape']
    unfold additionalOf
    split <;> rfl
  obtain ⟨hproperties, hkinds⟩ :=
    h.sameSort h' (fun data id id' hid hid' => (hparts data id id' hid hid').2) hadmits
  refine ⟨h.reference, h'.reference, hkinds, h.format.trans h'.format.symm,
    h.nullable.trans h'.nullable.symm, hproperties, ?items, hadditional⟩
  case items =>
    cases hfirst : node.items with
    | none =>
      cases hsecond : other.items with
      | none => exact .none
      | some item' => simp [hfirst, hsecond] at hitems
    | some item =>
      cases hsecond : other.items with
      | none => simp [hfirst, hsecond] at hitems
      | some item' =>
        exact .some (hparts _ item item' (h.item item hfirst) (h'.item item' hsecond)).1

end

theorem sameShape_refl {S : NodeId → NodeId → Prop} (hS : ∀ id, S id id) {node : Node}
    (hreference : node.reference = none) : node.SameShape S node := by
  refine ⟨hreference, hreference, rfl, rfl, rfl, rfl, ?_, ?_⟩
  · cases node.items with
    | none => exact .none
    | some item => exact .some (hS item)
  · cases node.additional with
    | unsaid => exact .unsaid
    | allowed yes => exact .allowed yes
    | shape shape => exact .shape (hS shape)

theorem twins_of_node {graph : Graph} {id other : NodeId} (hsame : graph.node id = graph.node other)
    (hunnamed : (graph.node id).typeName = .null) (hreference : (graph.node id).reference = none) :
    graph.Twins id other ∧ SameAsPart graph id other := by
  refine ⟨.shape (fun _ _ h => h) ?_ hunnamed (hsame ▸ hunnamed), ?_, ?_⟩
  · rw [← hsame]
    exact sameShape_refl .same hreference
  · rw [hsame]
  · rw [hsame]

/-- By induction on how the first node renders the schema: the second one renders it in the same
way. -/
theorem Renders.twins {s : Reading} {nullable : Bool} {data : Json} {id other : NodeId}
    (h : Renders s nullable data id) (h' : Renders s nullable data other) :
    s.graph.Twins id other ∧ SameAsPart s.graph id other := by
  induction h generalizing other with
  | blank hdata hnode =>
    cases h' with
    | blank _ hnode' =>
      exact twins_of_node (hnode.trans hnode'.symm) (by simp [hnode]) (by simp [hnode])
    | _ => exact absurd rfl (hdata _)
  | @points nullable members ref target id hpoints htarget hid =>
    cases h' with
    | blank hdata _ => exact absurd rfl (hdata _)
    | points hpoints' htarget' hid' =>
      cases hpoints.unique hpoints'
      cases htarget.symm.trans htarget'
      by_cases hnull : (nullable || Json.admitsNull members) = true
      · rw [if_pos hnull] at hid hid'
        have htarget : (s.graph.node id).reference = some target := by rw [hid]
        refine ⟨.stand htarget ?_ ?_ ?_ ?_, ?_, ?_⟩ <;> simp [hid, hid']
      · rw [if_neg hnull] at hid hid'
        rw [hid, hid']
        exact ⟨.same target, rfl, rfl⟩
    | variant href hvariants hshape _ =>
      exact absurd ⟨href, _, hvariants, hshape⟩ hpoints.not_variant
    | untyped href hvariants _ _ => exact absurd hvariants (hpoints.not_union href _)
    | plain _ hplain _ _ => exact absurd hplain hpoints.not_plain
  | variant href hvariants hshape _ ih =>
    cases h' with
    | blank hdata _ => exact absurd rfl (hdata _)
    | points hpoints' _ _ => exact absurd ⟨href, _, hvariants, hshape⟩ hpoints'.not_variant
    | variant _ hvariants' hshape' h' =>
      cases hvariants.symm.trans hvariants'
      cases hshape.symm.trans hshape'
      exact ih h'
    | untyped _ hvariants' hseveral _ =>
      cases hvariants.symm.trans hvariants'
      exact absurd hshape (hseveral _)
    | plain _ hplain _ _ => exact absurd hplain (Variant.not_plain ⟨href, _, hvariants, hshape⟩)
  | untyped href hvariants hseveral hnode =>
    cases h' with
    | blank hdata _ => exact absurd rfl (hdata _)
    | points hpoints' _ _ => exact absurd hvariants (hpoints'.not_union href _)
    | variant _ hvariants' hshape' _ =>
      cases hvariants.symm.trans hvariants'
      exact absurd hshape' (hseveral _)
    | untyped _ hvariants' _ hnode' =>
      cases hvariants.symm.trans hvariants'
      exact twins_of_node (hnode.trans hnode'.symm) (by simp [hnode, untypedObject])
        (by simp [hnode, untypedObject])
    | plain _ hplain _ _ => simp [hplain.2.1] at hvariants
  | plain hparts hplain hunnamed hnode ih =>
    cases h' with
    | blank hdata _ => exact absurd rfl (hdata _)
    | points hpoints' _ _ => exact absurd hplain hpoints'.not_plain
    | variant href hvariants hshape _ =>
      exact absurd hplain (Variant.not_plain ⟨href, _, hvariants, hshape⟩)
    | untyped _ hvariants _ _ => simp [hplain.2.1] at hvariants
    | plain hparts' _ hunnamed' hnode' =>
      have hshape := hnode.sameShape hnode' fun data id id' hid hid' =>
        ih data id hid (hparts' data id' hid')
      exact ⟨.shape (fun _ _ h => h) hshape hunnamed hunnamed', hshape.properties, hshape.kinds⟩

/-! ### What definitions are read to -/

/-- A schema has been read to a node in the course of reading a document, and what was put into the
graph by that is in the end as it was then. -/
def ReadTo (defs : List (Json × Json)) (document : Document) (data : Json) (id : NodeId) : Prop :=
  ∃ depth trail s t, s.Sound ∧ defs <+: s.definitions
    ∧ runStep (schemaTo depth trail data) s = (.ok (some id), t) ∧ t.named <+: document.schemas
    ∧ ∀ node, s.graph.size ≤ node → node < t.graph.size →
      document.graph.node node = t.graph.node node

section

variable {defs : List (Json × Json)} {s t : Reading} {document : Document} {data name ref : Json}
  {id : NodeId} {members : List (String × Json)}

theorem modest_reference {text : String} (h : Entries.has defs (.str (Json.refName text)) = true) :
    Modest defs (.obj [("$ref", .str text)]) := by
  have hpoints : Points [("$ref", .str text)] (.str text) := Or.inl rfl
  refine ⟨fun name hname => ?_, fun hmerges => hmerges.not_stands _ (.points hpoints)⟩
  obtain ⟨_, ⟨⟩, rfl⟩ := hname.of_points hpoints
  exact h

/-- What renders a reference alone is the node of the definition. -/
theorem Renders.reference (h : Renders s false (.obj [("$ref", ref)]) id) :
    ∃ text, ref = .str text ∧ Entries.get? s.named (.str (Json.refName text)) = some id := by
  have hpoints : Points [("$ref", ref)] ref := Or.inl rfl
  cases h with
  | blank hdata _ => exact absurd rfl (hdata _)
  | points hpoints' htarget hid =>
    cases hpoints.unique hpoints'
    have hnull : ∀ ref, Json.admitsNull [("$ref", ref)] = false := fun _ => rfl
    rw [hnull] at hid
    exact ⟨_, rfl, hid ▸ htarget⟩
  | variant href hvariants _ _ => exact absurd hvariants (hpoints.not_union href _)
  | untyped href hvariants _ _ => exact absurd hvariants (hpoints.not_union href _)
  | plain _ hplain _ _ => exact absurd hplain hpoints.not_plain

theorem readTo_of_run (hs : s.Sound) (hdefs : defs <+: s.definitions) {depth : Nat}
    {trail : List String}
    (hmade : (runStep (schemaTo depth trail data) s).1.toOption = some (some id))
    (hnamed : (runStep (schemaTo depth trail data) s).2.named <+: document.schemas)
    (hkept : ∀ node < (runStep (schemaTo depth trail data) s).2.graph.size,
      s.graph.size ≤ node → document.graph.node node
        = (runStep (schemaTo depth trail data) s).2.graph.node node) :
    ReadTo defs document data id :=
  ⟨depth, trail, s, _, hs, hdefs, runStep_of_toOption hmade, hnamed, fun node hlow hhigh =>
    hkept node hhigh hlow⟩

theorem ReadTo.renders (h : ReadTo defs document data id) (hsound : t.Sound)
    (hschemas : document.schemas = t.named) (hgraph : document.graph = t.graph)
    (hdata : Modest defs data) : Renders t false data id := by
  obtain ⟨depth, trail, r, u, hr, hdefs, hrun, hnamed, hkept⟩ := h
  rw [hschemas] at hnamed
  rw [hgraph] at hkept
  have hread := rendersWell_schemaTo defs depth
  have hresult := (hread.careful trail data r hr).2 id
  rw [hrun] at hresult
  refine hread.renders hr hdefs hdata hrun ⟨hsound, hnamed, fun node hlow hhigh _ =>
    hkept node hlow hhigh⟩ (fun hlow => ?_) fun hfalse => by cases hfalse
  exact hkept id hlow (hresult rfl).1.1

/-- The reading of a definition that has been read: what it says has been put into its node. -/
theorem Formed.reading (h : Formed none s t name id)
    (hdata : Entries.get? s.definitions name = some data) :
    ∃ (depth : Nat) (r r' : Reading), r.Sound ∧ s.definitions <+: r.definitions
      ∧ Entries.get? r.named name = none
      ∧ runStep (readDefinition (schemaTo depth) name id) (r.enter name) = (.ok (), r')
      ∧ Entries.get? (r.enter name).definitions name = some data ∧ id = r.graph.size
      ∧ Preserved (r.enter name) r' id t ∧ t.graph.node id = r'.graph.node id := by
  obtain ⟨depth, r, r', hr, hsize, hname, hrun, hkept, hnode, -⟩ := h
  rw [definition_new hname] at hrun
  obtain ⟨_, u, hread, hrest⟩ := runStep_bind_ok.mp hrun
  cases hrest
  exact ⟨depth, r, r', hr.1, hr.2.definitions, hname, hread, get?_mono hr.2.definitions hdata, rfl,
    hkept.after (Nat.le_of_lt (r.lt_size_enter name)), hnode⟩

/-- The node of a definition that is spelled out carries its shape. -/
theorem Formed.carries (h : Formed none s t name id)
    (hdata : Entries.get? s.definitions name = some (.obj members))
    (hmodest : Modest s.definitions (.obj members)) (hplain : Plain members) :
    Carries (Renders t false) t.graph false members (t.graph.node id) := by
  obtain ⟨depth, r, r', hr, hdefs, hname, hread, hlook, rfl, hkept, hnode⟩ := h.reading hdata
  unfold readDefinition at hread
  rw [runStep_bind_of_ok (runStep_get _), hlook] at hread
  have hfill : runStep (fill (schemaTo depth) [] r.graph.size members) (r.enter name)
      = (.ok (), r') := by
    dsimp only at hread
    split at hread
    · exact absurd hplain.1 (by simp [Entries.get?])
    · exact hread
  have hsame : t.graph.node r.graph.size = (r'.graph.node r.graph.size).admitting false := by
    rw [hnode]
    rfl
  exact (carries_of_fill (rendersWell_schemaTo s.definitions depth) (hr.enter hname) hdefs hmodest
    hplain (r.lt_size_enter name) (r.node_enter name) hfill hkept hsame).2

/-- The node of a definition that is a reference alone stands for that of the other definition. -/
theorem Formed.stands (h : Formed none s t name id)
    (hdata : Entries.get? s.definitions name = some (.obj [("$ref", ref)]))
    (hmodest : Modest s.definitions (.obj [("$ref", ref)])) :
    ∃ target, Renders t false (.obj [("$ref", ref)]) target
      ∧ (target = id ∨ t.graph.node id = { typeName := name, reference := some target }) := by
  obtain ⟨depth, r, r', hr, hdefs, hname, hread, hlook, rfl, hkept, hnode⟩ := h.reading hdata
  unfold readDefinition at hread
  rw [runStep_bind_of_ok (runStep_get _), hlook] at hread
  obtain ⟨target, u, hmade, hrest⟩ := runStep_bind_ok.mp hread
  obtain ⟨made, u', hmade, hlast⟩ := runStep_bind_ok.mp hmade
  have hrenders := rendersWell_schemaTo s.definitions depth
  have hafter := hrenders.careful.after (hr.enter hname) hmade
  have hlt := r.lt_size_enter name
  have hblank : u'.graph.node r.graph.size = { typeName := name } :=
    (hafter.2.kept _ hlt).trans (r.node_enter name)
  cases made with
  | none => cases (hrenders.null hmade).mp rfl
  | some child =>
    cases hlast
    by_cases hself : target = r.graph.size
    · rw [if_neg (not_not_intro hself)] at hrest
      cases hrest
      exact ⟨target, hrenders.nested (hr.enter hname) hdefs hmodest hlt hmade hkept, Or.inl hself⟩
    · rw [if_pos hself] at hrest
      cases hrest
      refine ⟨target, hrenders.nested (hr.enter hname) hdefs hmodest hlt hmade hkept.changed,
        Or.inr ?_⟩
      rw [hnode, Graph.node_modify_self _ _ (Nat.lt_of_lt_of_le hlt hafter.2.size), hblank]

end

/-! ### Named and spelled out -/

section

variable {defs : List (Json × Json)} {reader s t : Reading} {document : Document} {data : Json}
  {members : List (String × Json)} {named inline : NodeId}

/-- A node that stands for another one of a definition has its type. -/
theorem resolve_of_stands (resolver : Resolver) {graph : Graph} {name : Json}
    (hnode : graph.node named = { typeName := name, reference := some inline })
    (hinline : (graph.node inline).reference ≠ none → (graph.node inline).isNullable = false)
    (hopen : graph.Open named) (usage : Usage) :
    resolver.resolveWithin graph [] named usage = resolver.resolveWithin graph [] inline usage := by
  have hactual := Graph.actual_of_reference hopen (by rw [hnode])
  refine Resolver.resolveWithin_actual hactual ?_
  have hnull : (graph.node named).isNullable = false := by
    rw [hnode]
    rfl
  rw [hnull, Graph.actualNode, Graph.actualNode, hactual]
  by_cases href : (graph.node inline).reference = none
  · rw [Graph.actual, Graph.follow_none [] href, Bool.false_or, Bool.or_self]
  · rw [hinline href]

/-- Two nodes that carry one shape, the one with a name and the other without, have one type. -/
theorem resolve_of_carries (language : Language) (hparents : t.graph.OneParent)
    (hnamed : Carries (Renders t false) t.graph false members (t.graph.node named))
    (hplain : Plain members) (hinline : Renders t false (.obj members) inline)
    (hdefinition : (t.graph.node named).isTypeDefinition = false) (hopen : t.graph.Open named)
    (hopen' : (t.graph.node inline).typeName = .null → t.graph.Open inline) (usage : Usage) :
    (Resolver.ofLanguage language).resolveWithin t.graph [] named usage
      = (Resolver.ofLanguage language).resolveWithin t.graph [] inline usage := by
  cases hinline with
  | blank hdata _ => exact absurd rfl (hdata _)
  | points hpoints _ _ => exact absurd hplain hpoints.not_plain
  | variant href hvariants hshape _ =>
    exact absurd hplain (Variant.not_plain ⟨href, _, hvariants, hshape⟩)
  | untyped _ hvariants _ _ => simp [hplain.2.1] at hvariants
  | plain hparts _ hunnamed hnode =>
    have hopen' := hopen' hunnamed
    have hshape := hnamed.sameShape hnode fun data id id' hid hid' =>
      Renders.twins hid (hparts data id' hid')
    refine Resolver.resolve_of_sameShape language hshape hdefinition
      (Resolver.not_typeDefinition_of_unnamed hunnamed) ?_ usage
    intro part part' hpart hpart' htwins usage
    rw [Resolver.resolveWithin_child hopen hpart, Resolver.resolveWithin_child hopen' hpart']
    exact Resolver.resolve_of_twins language hparents htwins (hopen.unnamed hparents hpart)
      (hopen'.unnamed hparents hpart') usage

/-- A definition that is no type definition has one type by its name and where what it says is
spelled out, in every language and use: if it is a reference alone or a shape, its references name
definitions, a shape in it takes definitions in as parts only if it is one of objects with
properties anyway, and it leads back neither to itself nor to where it is spelled out. -/
theorem inlined_alike (hread : Reading.read reader data = (.ok document, s))
    (hdefs : Json.definitions data = .ok defs) {ref : String}
    (hdata : Entries.get? defs (.str (Json.refName ref)) = some (.obj members))
    (hshape : (∃ target, members = [("$ref", target)]) ∨ Plain members)
    (hmodest : Modest defs (.obj members))
    (hnamed : ReadTo defs document (.obj [("$ref", .str ref)]) named)
    (hinline : ReadTo defs document (.obj members) inline)
    (hdefinition : (document.graph.node named).isTypeDefinition = false)
    (hopen : document.graph.Open named)
    (hopen' : (document.graph.node inline).typeName = .null → document.graph.Open inline)
    (language : Language) (usage : Usage) :
    (Resolver.ofLanguage language).resolve document.graph (some named) usage
      = (Resolver.ofLanguage language).resolve document.graph (some inline) usage := by
  obtain ⟨_, t, hdefs', hbred, hschemas, hgraph⟩ := bred_of_read hread
  cases hdefs.symm.trans hdefs'
  have hhas : Entries.has defs (.str (Json.refName ref)) = true :=
    Entries.has_iff_get?.mpr ⟨_, hdata⟩
  obtain ⟨_, ⟨⟩, hname⟩ :=
    (hnamed.renders hbred.after.1 hschemas hgraph (modest_reference hhas)).reference
  have hrenders := hinline.renders hbred.after.1 hschemas hgraph hmodest
  have hformed : Formed none (reader.begin data defs) t (.str (Json.refName ref)) named := by
    rcases hbred.formed hname with hold | hnone | hformed
    · cases hold
    · cases hnone
    · exact hformed
  have hlaw := law_of_read hread (law_shapeless .all) inline
  rw [hgraph] at hdefinition hopen hopen' hlaw ⊢
  show (Resolver.ofLanguage language).resolveWithin t.graph [] named usage
    = (Resolver.ofLanguage language).resolveWithin t.graph [] inline usage
  rcases hshape with ⟨target, rfl⟩ | hplain
  · obtain ⟨other, hother, hstands⟩ := hformed.stands hdata hmodest
    obtain ⟨text, rfl, hfound⟩ := hrenders.reference
    obtain ⟨_, ⟨⟩, hfound'⟩ := hother.reference
    cases hfound.symm.trans hfound'
    rcases hstands with rfl | hnode
    · rfl
    · refine resolve_of_stands _ hnode (fun href => ?_) hopen usage
      have htypeName := (hbred.after.1.known hfound).2
      have hnullable := hbred.grounded.standing (by rw [htypeName]; simp) href
      simp [Node.isNullable, hnullable, (hlaw href).1, Kinds.has, Kinds.none]
  · exact resolve_of_carries language hbred.grounded.parents (hformed.carries hdata hmodest hplain)
      hplain hrenders hdefinition hopen hopen' usage

def textShape : List (String × Json) := [("type", .str "string")]

def noteShape : List (String × Json) := [("properties", .obj [("note", .obj textShape)])]

/-- A label with a note. -/
def notedShape : List (String × Json) := [("allOf", .arr [pointer "Label", .obj noteShape])]

/-- A label with a note, or null. -/
def labelShape : List (String × Json) :=
  [("oneOf", .arr [.obj notedShape, .obj [("type", .str "null")]])]

def labelsShape : List (String × Json) := [("type", .str "array"), ("items", .obj labelShape)]

def queryParameter (name : String) (shape : Json) : Json :=
  .obj [("name", .str name), ("in", .str "query"), ("required", .bool true), ("schema", shape)]

def labelsDefs : List (Json × Json) :=
  [(.str "Label", .obj [("properties", .obj [("text", .obj textShape)])]),
    (.str "Labels", .obj labelsShape)]

/-- A query takes labels by their name and spelled out. -/
def labelsData : Json :=
  .obj [
    ("openapi", .str "3.0.0"),
    ("info", .obj [("title", .str "t"), ("version", .str "1")]),
    ("paths", .obj [("/pets", .obj [("get", .obj [
      ("parameters", .arr [
        queryParameter "named" (pointer "Labels"), queryParameter "inline" (.obj labelsShape)]),
      ("responses", .obj [("200", .obj [("description", .str "ok")])])])])]),
    ("components", .obj [("schemas", .obj [
      ("Label", .obj [("properties", .obj [("text", .obj textShape)])]),
      ("Labels", .obj labelsShape)])])]

def labelsGraph : Graph where
  nodes := #[
    { kinds := Kinds.ofList [.object], properties := [("text", 1)], typeName := .str "Label" },
    { kinds := Kinds.ofList [.string] },
    { kinds := Kinds.ofList [.array], items := some 3, typeName := .str "Labels" },
    { kinds := Kinds.ofList [.object], properties := [("text", 1), ("note", 5)], nullable := true },
    { kinds := Kinds.ofList [.object], properties := [("note", 5)] },
    { kinds := Kinds.ofList [.string] },
    { kinds := Kinds.ofList [.array], items := some 7 },
    { kinds := Kinds.ofList [.object], properties := [("text", 1), ("note", 9)], nullable := true },
    { kinds := Kinds.ofList [.object], properties := [("note", 9)] },
    { kinds := Kinds.ofList [.string] }]

def labelsOperation : Operation where
  method := "GET"
  path := "/pets"
  parameters := some [
    { name := .str "named", required := true, schema := some 2 },
    { name := .str "inline", required := true, schema := some 6 }]
  responses := some [("200", some { description := .str "ok" })]

/-- An item is an object with a note whatever it takes over from a label. -/
theorem modest_labels : Modest labelsDefs (.obj labelsShape) := by
  have hlabels : Plain labelsShape := ⟨by decide, by decide, by decide⟩
  have hlabel : Variant labelShape (.obj notedShape) := ⟨by decide, _, rfl, by decide⟩
  have hnoted : Plain notedShape := ⟨by decide, by decide, by decide⟩
  have hnote : Plain noteShape := ⟨by decide, by decide, by decide⟩
  have htext : Plain textShape := ⟨by decide, by decide, by decide⟩
  have hpart : (Role.part, Json.obj noteShape) ∈ nested notedShape :=
    mem_nested_part rfl (List.mem_cons_of_mem _ List.mem_cons_self)
  have hfirm : Firm notedShape := .part hpart (.plain hnote) (.own (by decide))
  have htext' : ¬ Merges (.obj textShape) :=
    htext.not_merges (Or.inr (List.forall_mem_nil _)) (List.forall_mem_nil _)
  have hnote' : ¬ Merges (.obj noteShape) :=
    hnote.not_merges (Or.inl (.own (by decide) (Or.inl rfl))) (List.forall_mem_singleton.mpr htext')
  have hnoted' : ¬ Merges (.obj notedShape) := by
    refine hnoted.not_merges (Or.inl hfirm) (List.forall_mem_cons.mpr ⟨fun hmerges => ?_, ?_⟩)
    · exact hmerges.not_stands _ (.points (Or.inl rfl))
    · exact List.forall_mem_singleton.mpr hnote'
  have hlabel' : ¬ Merges (.obj labelShape) := fun hmerges => hnoted' (hmerges.of_variant hlabel)
  refine ⟨by decide +kernel, hlabels.not_merges (Or.inr ?_) (List.forall_mem_singleton.mpr hlabel')⟩
  exact List.forall_mem_singleton.mpr fun name hname =>
    hnoted.not_stands (hname.of_variant hlabel)

/-- The state in which the operations of this document are read. -/
def labelsStart : Reading :=
  (runStep (readDefinitions labelsDefs) (({} : Reading).begin labelsData labelsDefs)).2

theorem inlined_alike_labels : ∃ document s,
    Reading.read {} labelsData = (.ok document, s) ∧ document.operations = [labelsOperation]
      ∧ ReadTo labelsDefs document (pointer "Labels") 2
      ∧ ReadTo labelsDefs document (.obj labelsShape) 6
      ∧ ∀ language usage,
        (Resolver.ofLanguage language).resolve document.graph (some 2) usage
          = (Resolver.ofLanguage language).resolve document.graph (some 6) usage := by
  obtain ⟨document, s, hread, hgraph, hoperations, hschemas⟩ :
      ∃ document s, Reading.read {} labelsData = (.ok document, s)
        ∧ document.graph = labelsGraph ∧ document.operations = [labelsOperation]
        ∧ document.schemas = [(.str "Label", 0), (.str "Labels", 2)] :=
    read_of_parts (by decide +kernel)
  have hsound : labelsStart.Sound :=
    (named_of_readDefinitions (sound_begin _ _ _) (runStep_of_toOption (by decide +kernel))).1.1
  have hnamed : ReadTo labelsDefs document (pointer "Labels") 2 := by
    refine @readTo_of_run _ _ _ _ _ hsound (by decide +kernel) 9 [] (by decide +kernel) ?_ ?_
    · rw [hschemas]
      decide +kernel
    · rw [hgraph]
      decide +kernel
  have hinline : ReadTo labelsDefs document (.obj labelsShape) 6 := by
    refine @readTo_of_run _ _ _ _ _ hsound (by decide +kernel) 9 [] (by decide +kernel) ?_ ?_
    · rw [hschemas]
      decide +kernel
    · rw [hgraph]
      decide +kernel
  have hplain : Plain labelsShape := ⟨by decide, by decide, by decide⟩
  have hopen : document.graph.Open 2 ∧ document.graph.Open 6 := by
    rw [hgraph]
    exact ⟨(Graph.unfollowed_of_children (by decide)).open,
      (Graph.unfollowed_of_children (by decide)).open⟩
  refine ⟨document, s, hread, hoperations, hnamed, hinline, ?_⟩
  exact inlined_alike hread (by decide +kernel) (by decide +kernel) (Or.inr hplain) modest_labels
    hnamed hinline (by rw [hgraph]; decide) hopen.1 fun _ => hopen.2

end

/-! ### Shapes that are lost under a name -/

/-- An integer or null. -/
def ageShape : Json :=
  .obj [("oneOf", .arr [.obj [("type", .str "integer")], .obj [("type", .str "null")]])]

/-- A reference that admits null beside it. -/
def rankShape : Json :=
  .obj [("$ref", .str "#/components/schemas/Count"), ("nullable", .bool true)]

/-- One part only, which is a reference. -/
def sizeShape : Json := .obj [("allOf", .arr [pointer "Count"])]

/-- A query takes each of these shapes twice, by its name and spelled out. -/
def spellingsData : Json :=
  .obj [
    ("openapi", .str "3.0.0"),
    ("info", .obj [("title", .str "t"), ("version", .str "1")]),
    ("paths", .obj [("/pets", .obj [("get", .obj [
      ("parameters", .arr [
        queryParameter "Age" (pointer "Age"), queryParameter "AgeInline" ageShape,
        queryParameter "Rank" (pointer "Rank"), queryParameter "RankInline" rankShape,
        queryParameter "Size" (pointer "Size"), queryParameter "SizeInline" sizeShape]),
      ("responses", .obj [("200", .obj [("description", .str "ok")])])])])]),
    ("components", .obj [("schemas", .obj [
      ("Count", .obj [("type", .str "integer")]),
      ("Age", ageShape),
      ("Rank", rankShape),
      ("Size", sizeShape)])])]

/-- The definitions of the three shapes have nodes that say nothing of them. -/
def spellingsGraph : Graph where
  nodes := #[
    { kinds := Kinds.ofList [.integer], typeName := .str "Count" },
    { typeName := .str "Age" },
    { typeName := .str "Rank", nullable := true },
    { typeName := .str "Size" },
    { kinds := Kinds.ofList [.integer], nullable := true },
    { reference := some 0, nullable := true }]

def spellingsOperation : Operation :=
  let parameter (name : String) (schema : NodeId) : Parameter :=
    { name := .str name, required := true, schema := some schema }
  { method := "GET", path := "/pets"
    parameters := some [parameter "Age" 1, parameter "AgeInline" 4, parameter "Rank" 2,
      parameter "RankInline" 5, parameter "Size" 3, parameter "SizeInline" 0]
    responses := some [("200", some { description := .str "ok" })] }

/-- Three definitions that are no type definitions and lead nowhere do not have the type of what
they say: by its name each of the shapes is anything, and spelled out it is an integer. -/
theorem spelled_otherwise : ∃ document s,
    Reading.read {} spellingsData = (.ok document, s)
      ∧ document.operations = [spellingsOperation]
      ∧ document.schemas = [(.str "Count", 0), (.str "Age", 1), (.str "Rank", 2), (.str "Size", 3)]
      ∧ (∀ id ∈ [1, 2, 3], (document.graph.node id).isTypeDefinition = false
        ∧ (document.graph.node id).children = [])
      ∧ ((spellingsOperation.parameters.getD []).map fun parameter =>
          Language.known.map fun language =>
            (runStep ((Resolver.ofLanguage language).resolve document.graph parameter.schema {})
              {}).1.toOption) =
        [[some "object", some "serde_json::Value"], [some "int?", some "Option<i64>"],
          [some "object", some "Option<serde_json::Value>"], [some "int?", some "Option<i64>"],
          [some "object", some "serde_json::Value"], [some "int", some "i64"]] := by
  obtain ⟨document, s, hread, hgraph, hoperations, hschemas⟩ :
      ∃ document s, Reading.read {} spellingsData = (.ok document, s)
        ∧ document.graph = spellingsGraph ∧ document.operations = [spellingsOperation]
        ∧ document.schemas =
          [(.str "Count", 0), (.str "Age", 1), (.str "Rank", 2), (.str "Size", 3)] :=
    read_of_parts (by decide +kernel)
  refine ⟨document, s, hread, hoperations, hschemas, ?_, ?_⟩
  · rw [hgraph]
    decide
  · rw [hgraph]
    decide +kernel

end Reading

end ApiClients
