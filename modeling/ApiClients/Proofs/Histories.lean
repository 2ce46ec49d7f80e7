import ApiClients.Proofs.Moves

/-!
# Histories of readings

The reading of a schema that lies in a scope makes allowed moves only, whether it fails or not, and
fills each node that it puts into the graph at most once (`Reads`).  What it may fail with is traced
back to the readings of nested schemas (`Falls`), so that a bound on their depth can be followed from
one to the next.
-/

namespace ApiClients.Reading

/-! ### Filling a node -/

theorem Piece.typeName_put (graph : Graph) (piece : Piece) (node : Node) :
    (piece.put graph node).typeName = node.typeName := by
  cases piece with
  | settle =>
    obtain ⟨kinds, hsettled⟩ := settleKinds_eq node
    rw [put, hsettled]
  | _ => rfl

theorem Piece.reference_put (graph : Graph) (piece : Piece) (node : Node) :
    (piece.put graph node).reference = node.reference := by
  cases piece with
  | settle =>
    obtain ⟨kinds, hsettled⟩ := settleKinds_eq node
    rw [put, hsettled]
  | _ => rfl

theorem mem_nested_items {members : List (String × Json)}
    (h : Entries.has members "items" = true) :
    (.aside, Json.field members "items") ∈ nested members := by
  simp [nested, nestedItems, h]

theorem mem_nested_additional {members shape : List (String × Json)}
    (h : Json.field members "additionalProperties" = .obj shape) :
    (.aside, .obj shape) ∈ nested members := by
  simp [nested, nestedAdditional, h]

theorem mem_nested_property {members properties : List (String × Json)}
    (h : Json.fields (Json.field members "properties") = .ok properties)
    {property : String × Json} (hproperty : property ∈ properties) :
    (.property property.1, property.2) ∈ nested members := by
  have hmem : (Role.property property.1, property.2) ∈ nestedProperties members := by
    unfold nestedProperties
    rw [h]
    exact List.mem_map_of_mem (f := fun p : String × Json => (Role.property p.1, p.2)) hproperty
  simp [nested, hmem]

theorem mem_nested_part {members : List (String × Json)} {parts : List Json}
    (h : Json.listed (Json.field members "allOf") = .ok parts) {part : Json}
    (hpart : part ∈ parts) : (.part, part) ∈ nested members := by
  have hmem : (Role.part, part) ∈ nestedParts members := by
    unfold nestedParts
    rw [h]
    exact List.mem_map_of_mem (f := fun p : Json => (Role.part, p)) hpart
  simp [nested, hmem]

section

variable {scope : Scope} {P₀ P : Reading → Prop} {C : Reading → NodeId → Prop}
  {F : Failure → Reading → Prop} {read : ReadSchema} {trail : List String} {id : NodeId}
  {members : List (String × Json)}

/-- What the filling of a node does, from the readings of the schemas that stand in its shape and
from the pieces that are put into it.  Nodes that come from these readings have a property `C`. -/
structure Fills (scope : Scope) (P₀ P : Reading → Prop) (C : Reading → NodeId → Prop)
    (F : Failure → Reading → Prop) (read : ReadSchema) (trail : List String) (id : NodeId)
    (members : List (String × Json)) : Prop where
  shape : scope.shape members
  keywords : ∀ s, P₀ s → P (Move.after s (.fill id members))
  read : ∀ entry ∈ nested members, Leads P
    (fun made s => P s ∧ ∀ child, made = some child → C s child) F
    (read trail entry.2)
  put : ∀ s piece, P s → Suits scope (C s) piece → P (Move.after s (.put id piece))
  malformed : ∀ s, P s → F .malformed s

namespace Fills

theorem change (h : Fills scope P₀ P C F read trail id members) (piece : Piece)
    (hfits : ∀ s : Reading, Suits scope (C s) piece) {f : Node → Node}
    (hf : ∀ graph node, piece.put graph node = f node) :
    Leads P (fun _ => P) F (Reading.change id f) := by
  refine leads_modify fun s hs => ?_
  have hput := h.put s piece hs (hfits s)
  simp only [Move.after, funext fun node => hf s.graph node] at hput
  exact hput

/-- A node that is read is put in place. -/
theorem change_read (h : Fills scope P₀ P C F read trail id members) {made : Option NodeId}
    (piece : Piece)
    (hfits : ∀ s : Reading, (∀ child, made = some child → C s child) →
      Suits scope (C s) piece)
    {f : Node → Node} (hf : ∀ graph node, piece.put graph node = f node) :
    Leads (fun s => P s ∧ ∀ child, made = some child → C s child) (fun _ => P) F
      (Reading.change id f) := by
  refine leads_modify fun s hs => ?_
  have hput := h.put s piece hs.1 (hfits s hs.2)
  simp only [Move.after, funext fun node => hf s.graph node] at hput
  exact hput

theorem items (h : Fills scope P₀ P C F read trail id members) :
    Leads P (fun _ => P) F (fillItems read trail id members) := by
  unfold fillItems
  by_cases hitems : Entries.has members "items" = true
  · rw [if_pos hitems]
    refine leads_bind (h.read _ (mem_nested_items hitems)) fun made => ?_
    exact h.change_read (.items made) (fun _ hmade => hmade) fun _ _ => rfl
  · rw [if_neg hitems]
    exact leads_pure fun _ hs => hs

theorem additional (h : Fills scope P₀ P C F read trail id members) :
    Leads P (fun _ => P) F (fillAdditional read trail id members) := by
  unfold fillAdditional
  cases hfield : Json.field members "additionalProperties" with
  | obj shape =>
    refine leads_bind (h.read _ (mem_nested_additional hfield)) fun made => ?_
    cases made with
    | none => exact leads_pure fun _ hs => hs.1
    | some child =>
      refine h.change_read (.additional (.shape child)) ?_ fun _ _ => rfl
      rintro s hmade _ ⟨⟩
      exact hmade child rfl
  | bool yes =>
    cases yes with
    | true =>
      exact h.change (.additional (.allowed true)) (fun _ _ hshape => by cases hshape)
        fun _ _ => rfl
    | false => exact leads_pure fun _ hs => hs
  | _ => exact leads_pure fun _ hs => hs

theorem required (h : Fills scope P₀ P C F read trail id members) :
    Leads P (fun _ => P) F (fillRequired id members) := by
  refine leads_lift_bind (fun names hnames => ?_) fun e he s hs => ?_
  · exact h.change (.required names) (fun _ => ⟨members, h.shape, hnames⟩) fun _ _ => rfl
  · exact Json.listed_error he ▸ h.malformed s hs

theorem properties (h : Fills scope P₀ P C F read trail id members) :
    Leads P (fun _ => P) F (fillProperties read trail id members) := by
  refine leads_lift_bind (fun properties hproperties => ?_) fun e he s hs =>
    Json.fields_error he ▸ h.malformed s hs
  refine leads_forIn fun property hproperty => ?_
  refine leads_bind (h.read _ (mem_nested_property hproperties hproperty)) fun made => ?_
  cases made with
  | none => exact leads_pure fun _ hs => hs.1
  | some child =>
    exact h.change_read (.property property.1 child) (fun _ hmade => hmade child rfl)
      fun _ _ => rfl

theorem parts (h : Fills scope P₀ P C F read trail id members) :
    Leads P (fun _ => P) F (fillParts read trail id members) := by
  refine leads_lift_bind (fun parts hparts => ?_) fun e he s hs =>
    Json.listed_error he ▸ h.malformed s hs
  refine leads_forIn fun part hpart => ?_
  refine leads_bind (h.read _ (mem_nested_part hparts hpart)) fun made => ?_
  cases made with
  | none => exact leads_pure fun _ hs => hs.1
  | some child =>
    refine leads_get_bind fun s hs => leads_modify ?_
    rintro _ rfl
    exact h.put _ (.part child) hs.1 trivial

theorem fill (h : Fills scope P₀ P C F read trail id members) :
    Leads P₀ (fun _ => P) F (Reading.fill read trail id members) := by
  rw [fill_eq]
  refine leads_bind ?keywords fun _ => leads_bind h.items fun _ => leads_bind h.additional
    fun _ => leads_bind h.required fun _ => leads_bind h.properties fun _ =>
    leads_bind h.parts fun _ => h.change .settle (fun _ => trivial) fun _ _ => rfl
  case keywords =>
    refine leads_bind (R := fun _ => P) (leads_modify h.keywords) fun _ => ?_
    refine leads_lift_bind (fun values _ => ?_) fun e he s hs =>
      Json.listed_error he ▸ h.malformed s hs
    exact h.change (.enumValues values) (fun _ => trivial) fun _ _ => rfl

end Fills

end

/-! ### Readings of schemas -/

/-- What reading does to the state while it reads a schema. -/
structure Goes (scope : Scope) (s t : Reading) : Prop where
  after : s.After t
  definitions : t.definitions = s.definitions
  course : ∃ moves, Course scope s moves t

/-- How the reading of a schema from a state may fail. -/
abbrev Fails := Reading → Json → Failure → Prop

/-- A reading of schemas makes allowed moves and fills no node twice. -/
structure Reads (scope : Scope) (fails : Fails) (read : ReadSchema) : Prop where
  careful : Careful read
  leads : ∀ {s}, s.Sound → scope.Covers s → ∀ trail {data}, scope.schema data →
    Leads (s = ·) (fun made t => Goes scope s t ∧ ∀ id, made = some id → id < t.graph.size)
      (fun e t => Goes scope s t ∧ fails s data e) (read trail data)

/-- Reading fails for a value of the wrong kind, or in one of some schemas. -/
def FailsIn (fails : Fails) (s : Reading) (schemas : List (Role × Json)) (e : Failure) : Prop :=
  e = .malformed ∨ ∃ t : Reading, s.named <+: t.named ∧ t.definitions = s.definitions
    ∧ ∃ entry ∈ schemas, fails t entry.2 e

/-- A schema fails as the schemas that are read for it do. -/
structure Falls (scope : Scope) (inner outer : Fails) : Prop where
  malformed : ∀ {s data}, outer s data .malformed
  nested : ∀ {s : Reading} {members e}, scope.Covers s → scope.schema (.obj members) →
    Plain members → FailsIn inner s (Reading.nested members) e → outer s (.obj members) e
  variant : ∀ {s : Reading} {members shape e}, scope.Covers s → scope.schema (.obj members) →
    Variant members shape → inner s shape e → outer s (.obj members) e
  definition : ∀ {s : Reading} {members ref data e}, scope.Covers s →
    scope.schema (.obj members) → Points members (.str ref) →
    Entries.get? s.named (.str (Json.refName ref)) = none →
    Entries.get? s.definitions (.str (Json.refName ref)) = some data →
    FailsIn inner (s.enter (.str (Json.refName ref))) (contents data) e →
    outer s (.obj members) e
  undeclared : ∀ {s : Reading} {members ref e}, scope.Covers s → scope.schema (.obj members) →
    Points members (.str ref) → Entries.has s.definitions (.str (Json.refName ref)) = false →
    e = .endless ∨ inner s (Json.target s.source ref) e → outer s (.obj members) e

section

variable {scope : Scope} {s t u : Reading} {id : NodeId}

namespace Goes

theorem refl (hs : s.Sound) : Goes scope s s := ⟨hs.after, rfl, [], Course.refl s⟩

theorem trans (h : Goes scope s t) (h' : Goes scope t u) : Goes scope s u := by
  obtain ⟨moves, hcourse⟩ := h.course
  obtain ⟨more, hmore⟩ := h'.course
  exact ⟨h.after.trans h'.after, h'.definitions.trans h.definitions, _, hcourse.append hmore⟩

theorem covers (h : Goes scope s t) (hs : scope.Covers s) : scope.Covers t := by
  obtain ⟨moves, hcourse⟩ := h.course
  exact hcourse.history.covers hs

theorem move (h : Goes scope s t) {next : Move} (hallowed : Allowed scope t next)
    (hmove : next.filled? = none) (hafter : s.After (next.after t))
    (hdefinitions : (next.after t).definitions = t.definitions) :
    Goes scope s (next.after t) := by
  obtain ⟨moves, hcourse⟩ := h.course
  exact ⟨hafter, hdefinitions.trans h.definitions, _, hcourse.move hallowed hmove⟩

theorem note (h : Goes scope s t) (event : Event) : Goes scope s (Move.after t (.note event)) :=
  h.move trivial rfl (h.after.note _) rfl

theorem add (h : Goes scope s t) {node : Node} (hnode : Fresh t.graph node) :
    Goes scope s (Move.after t (.add node)) := by
  refine h.move hnode rfl (h.after.push ?_) rfl
  cases hnode <;> rfl

/-- A node is put into the graph. -/
theorem leads_add {F : Failure → Reading → Prop} (node : Node) :
    Leads (fun t => Goes scope s t ∧ Fresh t.graph node)
      (fun id t => Goes scope s t ∧ id < t.graph.size) F (Reading.add node) := by
  intro t ht
  refine ⟨?_, fun e u hrun => by cases hrun⟩
  intro id u hrun
  cases hrun
  refine ⟨ht.1.add ht.2, ?_⟩
  show t.graph.size < (t.graph.push node).size
  rw [Graph.size_push]
  exact Nat.lt_succ_self _

theorem enter (h : Goes scope s t) {name : Json} (hname : Entries.get? t.named name = none)
    (hdeclared : Entries.has t.definitions name = true) : Goes scope s (t.enter name) := by
  have hallowed : Allowed scope t (.enter name) := ⟨hname, hdeclared⟩
  exact h.move hallowed rfl (h.after.enter hname) rfl

theorem admitNull (h : Goes scope s t) (hid : s.graph.size ≤ id) :
    Goes scope s (Move.after t (.admitNull id)) :=
  h.move trivial rfl (h.after.change hid fun _ => rfl) rfl

theorem put (h : Goes scope s t) (hid : s.graph.size ≤ id) {piece : Piece}
    (href : (t.graph.node id).reference = none) (hfits : Fits scope t.graph piece) :
    Goes scope s (Move.after t (.put id piece)) :=
  h.move ⟨href, hfits⟩ rfl (h.after.change hid (Piece.typeName_put t.graph piece)) rfl

end Goes

theorem Blank.keep (h : s.Blank id) (hgrows : s.Grows t) : t.Blank id := by
  obtain ⟨hlt, name, hnode⟩ := h
  exact ⟨Nat.lt_of_lt_of_le hlt hgrows.size, name, (hgrows.kept id hlt).trans hnode⟩

namespace Reads

variable {fails : Fails} {read : ReadSchema} {trail : List String}
  {members : List (String × Json)} {data name : Json}

/-- A node that is blank and has been put into the graph on the way is filled. -/
theorem fill (h : Reads scope fails read) (hgoes : Goes scope s t) (hcovers : scope.Covers s)
    (hshape : scope.shape members) (hid : s.graph.size ≤ id) (hblank : t.Blank id)
    (hstart : ∃ moves, Course scope s moves t ∧ id ∉ filled moves) (trail : List String) :
    Leads (t = ·) (fun _ u => Goes scope s u ∧ id < u.graph.size)
      (fun e u => Goes scope s u ∧ FailsIn fails t (nested members) e)
      (Reading.fill read trail id members) := by
  let P : Reading → Prop := fun u => Goes scope s u ∧ t.named <+: u.named
    ∧ id < u.graph.size ∧ (u.graph.node id).reference = none
  have hfills : Fills scope (t = ·) P (fun u child => child < u.graph.size)
      (fun e u => Goes scope s u ∧ FailsIn fails t (nested members) e) read trail id members := by
    refine ⟨hshape, ?keywords, ?read, ?put, fun u hu => ⟨hu.1, Or.inl rfl⟩⟩
    case keywords =>
      rintro _ rfl
      obtain ⟨moves, hcourse, hnew⟩ := hstart
      have hafter : s.After (Move.after t (.fill id members)) :=
        hgoes.after.change hid fun _ => rfl
      refine ⟨⟨hafter, hgoes.definitions, _,
        hcourse.fill ⟨hblank, hshape⟩ rfl hid hblank.1 hnew⟩, List.prefix_rfl, ?_, ?_⟩
      · show id < (t.graph.modify id _).size
        rw [Graph.size_modify]
        exact hblank.1
      · show ((t.graph.modify id _).node id).reference = none
        rw [Graph.node_modify_self _ _ hblank.1]
        obtain ⟨-, name, hnode⟩ := hblank
        rw [hnode]
        rfl
    case read =>
      intro entry hentry u ⟨hu, hnamed, hlt, href⟩
      have hread := h.leads hu.after.1 (hu.covers hcovers) trail (scope.nested hshape entry hentry)
        u rfl
      refine ⟨?_, ?_⟩
      · intro made v hrun
        obtain ⟨hv, hmade⟩ := hread.1 made v hrun
        refine ⟨⟨hu.trans hv, hnamed.trans hv.after.2.named,
          Nat.lt_of_lt_of_le hlt hv.after.2.size, ?_⟩, hmade⟩
        rw [hv.after.2.kept id hlt]
        exact href
      · intro e v hrun
        obtain ⟨hv, he⟩ := hread.2 e v hrun
        exact ⟨hu.trans hv, Or.inr ⟨u, hnamed, hu.definitions.trans hgoes.definitions.symm,
          entry, hentry, he⟩⟩
    case put =>
      intro u piece ⟨hu, hnamed, hlt, href⟩ hfits
      refine ⟨hu.put hid href hfits, hnamed, ?_, ?_⟩
      · show id < (u.graph.modify id _).size
        rw [Graph.size_modify]
        exact hlt
      · show ((u.graph.modify id _).node id).reference = none
        rw [Graph.node_modify_self _ _ hlt, Piece.reference_put]
        exact href
  exact hfills.fill.mono (fun _ hu => hu) (fun _ _ hu => ⟨hu.1, hu.2.2.1⟩) fun _ _ hu => hu

theorem nodeOf (h : Reads scope fails read) (hs : s.Sound) (hcovers : scope.Covers s)
    (hschema : scope.schema data) (trail : List String) :
    Leads (s = ·) (fun id t => Goes scope s t ∧ id < t.graph.size)
      (fun e t => Goes scope s t ∧ fails s data e) (nodeOf read trail data) := by
  refine leads_bind (h.leads hs hcovers trail hschema) fun made => ?_
  cases made with
  | some id => exact leads_pure fun t ht => ⟨ht.1, ht.2 id rfl⟩
  | none =>
    exact (Goes.leads_add {}).weaken fun _ ht => ⟨ht.1, .blank⟩

/-- The state in which a definition has got its node goes on from the one before. -/
theorem goes_enter (hs : s.Sound) (hname : Entries.get? s.named name = none)
    (hdeclared : Entries.has s.definitions name = true) :
    Goes scope s (s.enter name) ∧ (s.enter name).Blank s.graph.size
      ∧ Course scope s [.enter name] (s.enter name) := by
  have hallowed : Allowed scope s (.enter name) := ⟨hname, hdeclared⟩
  refine ⟨(Goes.refl hs).enter hname hdeclared, ⟨?_, name, Graph.node_push_size _ _⟩,
    (Course.refl s).move hallowed rfl⟩
  show s.graph.size < (s.graph.push _).size
  rw [Graph.size_push]
  exact Nat.lt_succ_self _

/-- What a definition says is read into its node, which is filled or made to stand for another. -/
theorem readDefinition (h : Reads scope fails read) (hs : s.Sound) (hcovers : scope.Covers s)
    (hname : Entries.get? s.named name = none)
    (hdata : Entries.get? s.definitions name = some data) :
    Leads (s.enter name = ·) (fun _ t => Goes scope s t ∧ s.graph.size < t.graph.size)
      (fun e t => Goes scope s t ∧ FailsIn fails (s.enter name) (contents data) e)
      (Reading.readDefinition read name s.graph.size) := by
  obtain ⟨hentered, hblank, hcourse⟩ :=
    @goes_enter scope s name hs hname (Entries.has_iff_get?.mpr ⟨data, hdata⟩)
  have hdefines := hcovers.definitions hdata
  unfold Reading.readDefinition
  refine leads_get_bind ?_
  rintro _ rfl
  have hlook : Entries.get? (s.enter name).definitions name = some data := hdata
  rw [hlook]
  cases data with
  | obj members =>
    by_cases hlone : ∃ ref, members = [("$ref", ref)]
    · obtain ⟨ref, rfl⟩ := hlone
      refine leads_bind ((h.nodeOf hentered.after.1 (hentered.covers hcovers) hdefines []).mono
        (fun _ ht => ht) (fun _ _ ht => ht) ?_) fun target => ?_
      · intro e t ht
        exact ⟨hentered.trans ht.1, Or.inr ⟨s.enter name, List.prefix_rfl, rfl, _,
          List.mem_singleton.mpr rfl, ht.2⟩⟩
      · by_cases hself : target ≠ s.graph.size
        · rw [if_pos hself]
          refine leads_modify fun t ht => ?_
          obtain ⟨more, hmore⟩ := ht.1.course
          -- what was filled on the way was put into the graph after the node of the definition
          have hnew : s.graph.size ∉ filled ([.enter name] ++ more) := by
            rw [filled_append]
            intro hmem
            rcases List.mem_append.mp hmem with hfirst | hlast
            · cases hfirst
            · exact absurd hblank.1 (Nat.not_lt_of_le (hmore.new _ hlast).1)
          have hgoes := hentered.trans ht.1
          have hkept := hblank.keep ht.1.after.2
          have hallowed : Allowed scope t (.stand s.graph.size target) := ⟨hkept, ht.2⟩
          refine ⟨⟨hgoes.after.change (Nat.le_refl _) fun _ => rfl, hgoes.definitions, _,
            (hcourse.append hmore).fill hallowed rfl (Nat.le_refl _) hkept.1 hnew⟩, ?_⟩
          rw [Graph.size_modify]
          exact hkept.1
        · rw [if_neg hself]
          exact leads_pure fun t ht => ⟨hentered.trans ht.1, (hblank.keep ht.1.after.2).1⟩
    · have hmembers : ∀ ref, members ≠ [("$ref", ref)] := fun ref hsame => hlone ⟨ref, hsame⟩
      rw [contents_shape hmembers]
      have hfill := h.fill hentered hcovers (hdefines.shape hmembers) (Nat.le_refl _) hblank
        ⟨_, hcourse, by simp [filled, Move.filled?]⟩ []
      dsimp only
      split
      · exact absurd rfl (hmembers _)
      · exact hfill
  | _ =>
    refine leads_modify ?_
    rintro _ rfl
    exact ⟨hentered.note _, hblank.1⟩

/-- A definition is read unless it has its node already. -/
theorem definition (h : Reads scope fails read) (hs : s.Sound) (hcovers : scope.Covers s)
    (hdeclared : Entries.has s.definitions name = true) :
    Leads (s = ·) (fun id t => Goes scope s t ∧ id < t.graph.size)
      (fun e t => Goes scope s t ∧ Entries.get? s.named name = none
        ∧ ∃ data, Entries.get? s.definitions name = some data
          ∧ FailsIn fails (s.enter name) (contents data) e)
      (Reading.definition read name) := by
  rintro _ rfl
  cases hname : Entries.get? s.named name with
  | some id =>
    rw [definition_known hname]
    refine ⟨?_, fun e t hrun => by cases hrun⟩
    intro id' t hrun
    cases hrun
    exact ⟨Goes.refl hs, (hs.known hname).1⟩
  | none =>
    rw [definition_new hname]
    obtain ⟨data, hdata⟩ := Entries.has_iff_get?.mp hdeclared
    have hdone := leads_bind (h.readDefinition hs hcovers hname hdata)
      (Q := fun id t => Goes scope s t ∧ id < t.graph.size) (f := fun _ => pure s.graph.size)
      fun _ => leads_pure fun t ht => ht
    refine ⟨(hdone _ rfl).1, fun e t hrun => ?_⟩
    obtain ⟨hgoes, hfails⟩ := (hdone _ rfl).2 e t hrun
    exact ⟨hgoes, rfl, data, hdata, hfails⟩

/-- Null is admitted by a node of its own around another one. -/
theorem nullable {step : ReadingM NodeId} {F : Failure → Reading → Prop}
    (hstep : Leads (s = ·) (fun id t => Goes scope s t ∧ id < t.graph.size) F step)
    (nullable : Bool) :
    Leads (s = ·) (fun id t => Goes scope s t ∧ id < t.graph.size) F
      (step >>= nullableNode nullable) := by
  refine leads_bind hstep fun id => ?_
  cases nullable with
  | false => exact leads_pure fun t ht => ht
  | true =>
    exact (Goes.leads_add _).weaken fun _ ht => ⟨ht.1, .wrapper ht.2⟩

variable {outer : Fails}

theorem referenced (h : Reads scope fails read) (hfalls : Falls scope fails outer) (hs : s.Sound)
    (hcovers : scope.Covers s) (hschema : scope.schema (.obj members)) {ref : Json}
    (href : Points members ref) (trail : List String) :
    Leads (s = ·) (fun id t => Goes scope s t ∧ id < t.graph.size)
      (fun e t => Goes scope s t ∧ outer s (.obj members) e) (Reading.referenced read trail ref) := by
  cases ref with
  | str ref =>
    unfold Reading.referenced
    refine leads_get_bind ?_
    rintro _ rfl
    by_cases hknown : Entries.has s.definitions (.str (Json.refName ref)) = true
    · rw [if_pos (by simp [hknown])]
      refine (h.definition hs hcovers hknown).mono (fun _ ht => ht) (fun _ _ ht => ht) ?_
      rintro e t ⟨hgoes, hname, data, hdata, hfails⟩
      exact ⟨hgoes, hfalls.definition hcovers hschema href hname hdata hfails⟩
    · have hunnamed : Entries.has s.named (.str (Json.refName ref)) = false :=
        Bool.eq_false_iff.mpr fun hnamed => hknown (hcovers.declared hnamed)
      rw [Bool.not_eq_true] at hknown
      rw [if_neg (by simp [hknown, hunnamed])]
      by_cases htrail : trail.contains ref = true
      · rw [if_pos htrail]
        refine leads_throw ?_
        rintro _ rfl
        exact ⟨Goes.refl hs, hfalls.undeclared hcovers hschema href hknown (Or.inl rfl)⟩
      · rw [if_neg htrail]
        refine (h.nodeOf hs hcovers (hcovers.undeclared hschema href hknown) _).mono
          (fun _ ht => ht) (fun _ _ ht => ht) ?_
        rintro e t ⟨hgoes, hfails⟩
        exact ⟨hgoes, hfalls.undeclared hcovers hschema href hknown (Or.inr hfails)⟩
  | _ =>
    refine leads_throw ?_
    rintro _ rfl
    exact ⟨Goes.refl hs, hfalls.malformed⟩

theorem union (h : Reads scope fails read) (hfalls : Falls scope fails outer) (hs : s.Sound)
    (hcovers : scope.Covers s) (hschema : scope.schema (.obj members)) {variants : List Json}
    (href : Entries.get? members "$ref" = none) (hvariants : variants? members = some variants)
    (trail : List String) (nullable : Bool) :
    Leads (s = ·) (fun id t => Goes scope s t ∧ id < t.graph.size)
      (fun e t => Goes scope s t ∧ outer s (.obj members) e)
      (Reading.union read trail variants nullable) := by
  by_cases hone : ∃ shape, variants.filter (! isNullVariant ·) = [shape]
  · obtain ⟨shape, hshape⟩ := hone
    have hvariant : Variant members shape := ⟨href, variants, hvariants, hshape⟩
    rw [union_of_one hshape]
    have hnode : Leads (s = ·) (fun id t => Goes scope s t ∧ id < t.graph.size
          ∧ s.Result t id) (fun e t => Goes scope s t ∧ outer s (.obj members) e)
        (Reading.nodeOf read trail shape) := by
      have hnodeOf := h.nodeOf hs hcovers (scope.variant hschema hvariant) trail
      have hmakes := makes_nodeOf h.careful trail shape s hs
      rintro _ rfl
      refine ⟨?_, ?_⟩
      · intro id t hrun
        obtain ⟨hgoes, hlt⟩ := (hnodeOf s rfl).1 id t hrun
        rw [hrun] at hmakes
        exact ⟨hgoes, hlt, hmakes.2 id rfl⟩
      · intro e t hrun
        obtain ⟨hgoes, hfails⟩ := (hnodeOf s rfl).2 e t hrun
        exact ⟨hgoes, hfalls.variant hcovers hschema hvariant hfails⟩
    refine leads_bind hnode fun id => ?_
    cases nullable || decide (1 < variants.length) with
    | false => exact leads_pure fun t ht => ⟨ht.1, ht.2.1⟩
    | true =>
      intro t ⟨hgoes, hlt, hresult⟩
      simp only [if_true]
      cases hnamed : (t.graph.node id).isNamed with
      | true =>
        rw [runStep_admitNull_of_named hnamed]
        refine ⟨?_, fun e u hrun => by cases hrun⟩
        intro other u hrun
        cases hrun
        refine ⟨hgoes.add (.wrapper hlt), ?_⟩
        show t.graph.size < (t.graph.push _).size
        rw [Graph.size_push]
        exact Nat.lt_succ_self _
      | false =>
        rw [runStep_admitNull_of_unnamed hnamed]
        refine ⟨?_, fun e u hrun => by cases hrun⟩
        intro other u hrun
        cases hrun
        refine ⟨hgoes.admitNull (hresult.new hgoes.after.1 hnamed).1, ?_⟩
        show id < (t.graph.modify id _).size
        rw [Graph.size_modify]
        exact hlt
  · obtain ⟨count, hunion⟩ := @union_untyped read trail variants nullable
      fun shape hshape => hone ⟨shape, hshape⟩
    rw [hunion]
    refine leads_bind (leads_modify (Q := fun _ t => Goes scope s t) ?_) fun _ => ?_
    · rintro _ rfl
      exact (Goes.refl hs).note _
    · exact (Goes.leads_add _).weaken fun _ ht => ⟨ht, .untyped _⟩

theorem plain (h : Reads scope fails read) (hfalls : Falls scope fails outer) (hs : s.Sound)
    (hcovers : scope.Covers s) (hschema : scope.schema (.obj members)) (hplain : Plain members)
    (trail : List String) :
    Leads (s = ·) (fun id t => Goes scope s t ∧ id < t.graph.size)
      (fun e t => Goes scope s t ∧ outer s (.obj members) e)
      (Reading.schemaObject read trail members) := by
  rw [schemaObject_of_plain hplain]
  rintro _ rfl
  have hadd : runStep (add {}) s = (.ok s.graph.size, Move.after s (.add {})) := rfl
  rw [runStep_bind_of_ok hadd]
  have hallowed : Allowed scope s (.add {}) := .blank
  have hcourse : Course scope s [.add {}] (Move.after s (.add {})) :=
    (Course.refl s).move hallowed rfl
  have hblank : (Move.after s (.add {})).Blank s.graph.size := by
    refine ⟨?_, .null, Graph.node_push_size _ _⟩
    show s.graph.size < (s.graph.push _).size
    rw [Graph.size_push]
    exact Nat.lt_succ_self _
  have hdone := leads_bind (h.fill ((Goes.refl hs).add .blank) hcovers
    (scope.plain hschema hplain) (Nat.le_refl _) hblank
    ⟨_, hcourse, by simp [filled, Move.filled?]⟩ trail)
    (Q := fun id t => Goes scope s t ∧ id < t.graph.size) (f := fun _ => pure s.graph.size)
    fun _ => leads_pure fun t ht => ht
  refine ⟨(hdone _ rfl).1, fun e t hrun => ?_⟩
  obtain ⟨hgoes, hfails⟩ := (hdone _ rfl).2 e t hrun
  exact ⟨hgoes, hfalls.nested hcovers hschema hplain hfails⟩

theorem schemaObject (h : Reads scope fails read) (hfalls : Falls scope fails outer) (hs : s.Sound)
    (hcovers : scope.Covers s) (hschema : scope.schema (.obj members)) (trail : List String) :
    Leads (s = ·) (fun id t => Goes scope s t ∧ id < t.graph.size)
      (fun e t => Goes scope s t ∧ outer s (.obj members) e)
      (Reading.schemaObject read trail members) := by
  cases form members with
  | points hpoints =>
    rw [schemaObject_of_points hpoints]
    exact nullable (h.referenced hfalls hs hcovers hschema hpoints trail) _
  | union href hvariants =>
    rw [schemaObject_of_union href hvariants]
    exact h.union hfalls hs hcovers hschema href hvariants trail _
  | plain hplain => exact h.plain hfalls hs hcovers hschema hplain trail

end Reads

theorem reads_schemaStep {fails outer : Fails} {read : ReadSchema}
    (h : Reads scope fails read) (hfalls : Falls scope fails outer) :
    Reads scope outer (schemaStep read) := by
  refine ⟨careful_schemaStep h.careful, ?_⟩
  intro s hs hcovers trail data hschema
  cases data with
  | null =>
    refine leads_pure ?_
    rintro _ rfl
    exact ⟨Goes.refl hs, fun _ hnone => by cases hnone⟩
  | obj members =>
    rw [schemaStep_obj]
    refine leads_bind (h.schemaObject hfalls hs hcovers hschema trail) fun id => leads_pure ?_
    rintro t ⟨hgoes, hlt⟩
    exact ⟨hgoes, fun other hother => Option.some.inj hother ▸ hlt⟩
  | _ =>
    show Leads _ _ _ (some <$> add {})
    rw [map_eq_pure_bind]
    refine leads_bind (R := fun id t => Goes scope s t ∧ id < t.graph.size)
      ((Goes.leads_add {}).weaken ?_) fun id => leads_pure ?_
    · rintro _ rfl
      exact ⟨Goes.refl hs, .blank⟩
    · rintro t ⟨hgoes, hlt⟩
      exact ⟨hgoes, fun other hother => Option.some.inj hother ▸ hlt⟩

/-- Readings to any depth make allowed moves, and fail as readings to a lesser depth do or because
there is no depth left. -/
theorem reads_schemaTo {fails : Nat → Fails} (hzero : ∀ s data, fails 0 s data .endless)
    (hfalls : ∀ depth, Falls scope (fails depth) (fails (depth + 1))) (depth : Nat) :
    Reads scope (fails depth) (schemaTo depth) := by
  induction depth with
  | zero =>
    refine ⟨careful_schemaTo 0, fun hs _ _ _ _ => leads_throw ?_⟩
    rintro _ rfl
    exact ⟨Goes.refl hs, hzero _ _⟩
  | succ depth ih => exact reads_schemaStep ih (hfalls depth)

end

end ApiClients.Reading
