import ApiClients.Proofs.Casing
import ApiClients.Proofs.Passages
import ApiClients.Proofs.Reachability

/-!
# What references point to

A reference is a pointer, and a pointer leads from the top of the document through the members of
objects (`Found`).  A reference whose last segment is the name of no definition is read as what it
points to.  One whose last segment is such a name has the node of the definition, whatever it points
to and wherever it starts, so a pointer to another place with the same last name is not followed
(`reference_followed`).
-/

namespace ApiClients

/-! ### Pointers -/

namespace Json

/-- The reference that leads along some segments from the top of a document. -/
def pointerTo (segments : List String) : String :=
  "#" ++ String.join (segments.map ("/" ++ ·))

/-- The value to which some segments lead through the members of objects. -/
inductive Found : Json → List String → Json → Prop
  | here (value : Json) : Found value [] value
  | member {members : List (String × Json)} {segment : String} {inner value : Json}
      {rest : List String} (hmember : Entries.get? members segment = some inner)
      (h : Found inner rest value) : Found (.obj members) (segment :: rest) value

theorem follow_of_found {document value : Json} {segments : List String}
    (h : Found document segments value) : follow document segments = value := by
  induction h with
  | here value => cases value <;> rfl
  | member hmember _ ih => simpa [follow, field, hmember] using ih

theorem follow_append {document value : Json} {front : List String}
    (h : Found document front value) (rest : List String) :
    follow document (front ++ rest) = follow value rest := by
  induction h with
  | here => rfl
  | member hmember _ ih => simpa [follow, field, hmember] using ih

theorem toList_pointerTo (segments : List String) :
    (pointerTo segments).toList = '#' :: segments.flatMap fun segment => '/' :: segment.toList := by
  simp [pointerTo, String.toList_join, List.flatMap, Function.comp_def]

theorem refSegments_pointerTo {segments : List String}
    (h : ∀ segment ∈ segments, '/' ∉ segment.toList) :
    refSegments (pointerTo segments) = "#" :: segments := by
  have hpieces : ∀ (word : List Char), '/' ∉ word →
      (word ++ segments.flatMap fun segment => '/' :: segment.toList).splitOn '/'
        = word :: segments.map String.toList := by
    induction segments with
    | nil =>
      intro word hword
      simpa using List.splitOn_eq_singleton hword
    | cons segment rest ih =>
      intro word hword
      rw [List.flatMap_cons, List.cons_append, List.splitOn_append_cons_self,
        List.splitOn_eq_singleton hword,
        List.singleton_append, ih (fun other hother => h other (List.mem_cons_of_mem _ hother)) _
          (h segment List.mem_cons_self), List.map_cons]
  have hhash := hpieces ['#'] (by decide)
  rw [refSegments, Text.split, toList_pointerTo]
  rw [List.singleton_append] at hhash
  simp [hhash, Function.comp_def]

theorem refName_pointerTo {front : List String} {last : String}
    (h : ∀ segment ∈ front ++ [last], '/' ∉ segment.toList) :
    refName (pointerTo (front ++ [last])) = last := by
  rw [refName, refSegments_pointerTo h, ← List.cons_append, List.getLast?_concat,
    Option.getD_some]

theorem target_pointerTo {document : Json} {segments : List String}
    (h : ∀ segment ∈ segments, '/' ∉ segment.toList) :
    target document (pointerTo segments) =
      if (follow document segments).given then follow document segments else .obj [] := by
  rw [target, refSegments_pointerTo h, List.drop_one, List.tail_cons]

end Json

namespace Reading

variable {s t : Reading} {read : ReadSchema} {trail : List String} {id : NodeId}

/-! ### Schemas that say nothing -/

theorem change_same {f : Node → Node} (hf : f (s.graph.node id) = s.graph.node id) :
    runStep (change id f) s = (.ok (), s) := by
  have hnodes : s.graph.nodes.modify id f = s.graph.nodes := by
    apply Array.ext
    · simp
    · intro i hi hi'
      rw [Array.getElem_modify]
      split
      · subst id
        simpa [Graph.node, hi'] using hf
      · rfl
  show (Except.ok (), { s with graph := ⟨s.graph.nodes.modify id f⟩ }) = _
  rw [hnodes]

/-- Nothing is put into an empty node by a schema object without members. -/
theorem fill_nothing (hid : s.graph.node id = {}) :
    runStep (fill read trail id []) s = (.ok (), s) := by
  have hsame : ∀ f : Node → Node, f {} = {} → runStep (change id f) s = (.ok (), s) := by
    intro f hf
    exact change_same (by rw [hid, hf])
  have hthen : ∀ (f : Node → Node) (next : Unit → ReadingM Unit), f {} = {} →
      runStep (change id f >>= next) s = runStep (next ()) s :=
    fun f next hf => runStep_bind_of_ok (hsame f hf)
  -- what is left are the changes by the kinds, the values, the required names and the settling
  show runStep (change id _ >>= fun _ => change id _ >>= fun _ => change id _ >>= fun _ =>
    change id settleKinds) s = _
  rw [hthen _ _ (by decide), hthen _ _ (by decide), hthen _ _ (by decide)]
  exact hsame _ (by decide)

/-- An empty node is put into the graph. -/
def blank (s : Reading) : Reading := { s with graph := s.graph.push {} }

theorem schemaObject_nothing :
    runStep (schemaObject read trail []) s = (.ok s.graph.size, s.blank) := by
  have hplain : Plain [] := ⟨rfl, rfl, rfl⟩
  have hadd : runStep (add {}) s = (.ok s.graph.size, s.blank) := rfl
  rw [schemaObject_of_plain hplain, runStep_bind_of_ok hadd,
    runStep_bind_of_ok (fill_nothing (s.graph.node_push_size {})), runStep_pure]

/-- A value that is not given is read as an object without members is. -/
theorem nodeOf_not_given {value : Json} (h : value.given = false) (depth : Nat) :
    runStep (nodeOf (schemaTo depth) trail value) s
      = runStep (nodeOf (schemaTo depth) trail (.obj [])) s := by
  cases depth with
  | zero => rfl
  | succ depth =>
    have hobject : runStep (nodeOf (schemaTo (depth + 1)) trail (.obj [])) s
        = (.ok s.graph.size, s.blank) := by
      have hread : runStep (schemaTo (depth + 1) trail (.obj [])) s
          = (.ok (some s.graph.size), s.blank) := by
        show runStep (schemaStep (schemaTo depth) trail (.obj [])) s = _
        rw [schemaStep_obj, runStep_bind_of_ok schemaObject_nothing, runStep_pure]
      unfold nodeOf
      rw [runStep_bind_of_ok hread, runStep_pure]
    rw [hobject]
    cases value with
    | obj members =>
      cases members with
      | nil => exact hobject
      | cons member rest => cases h
    | _ => rfl

/-! ### References -/

/-- The name of a definition, declared or of a promoted response. -/
def Defined (s : Reading) (name : Json) : Prop :=
  Entries.has s.definitions name = true ∨ Entries.has s.named name = true

theorem referenced_of_defined {ref last : String} (hlast : Json.refName ref = last)
    (h : s.Defined (.str last)) :
    runStep (referenced read trail (.str ref)) s = runStep (definition read (.str last)) s := by
  subst hlast
  unfold referenced
  rw [runStep_bind_of_ok (runStep_get s), if_pos (by simpa [Defined] using h)]

theorem referenced_of_undefined {ref last : String} (hlast : Json.refName ref = last)
    (h : ¬ s.Defined (.str last)) (htrail : ref ∉ trail) :
    runStep (referenced read trail (.str ref)) s
      = runStep (nodeOf read (ref :: trail) (Json.target s.source ref)) s := by
  subst hlast
  unfold referenced
  rw [runStep_bind_of_ok (runStep_get s), if_neg (by simpa [Defined] using h),
    if_neg (by simpa using htrail)]

/-- A shape that is spelled out has a node without a name. -/
theorem typeName_of_plain (hs : s.Sound) (hread : Careful read) {members : List (String × Json)}
    (hplain : Plain members)
    (h : runStep (schemaObject read trail members) s = (.ok id, t)) :
    (t.graph.node id).typeName = .null := by
  rw [schemaObject_of_plain hplain] at h
  obtain ⟨made, u, hadd, h⟩ := runStep_bind_ok.mp h
  obtain ⟨_, v, hfill, h⟩ := runStep_bind_ok.mp h
  cases h
  cases hadd
  have hkept : Upholds (fun u => u.Sound ∧ s.graph.size < u.graph.size
      ∧ (u.graph.node s.graph.size).typeName = .null) (fun _ => True)
      (fill read trail s.graph.size members) := by
    refine Filling.fill ⟨?read, ?change⟩ trail members
    case read =>
      rintro trail data u ⟨hu, hsize, hname⟩
      obtain ⟨hsound, hgrows⟩ := (hread trail data u hu).1
      refine ⟨⟨hsound, Nat.lt_of_lt_of_le hsize hgrows.size, ?_⟩, fun _ _ => trivial⟩
      rw [hgrows.kept _ hsize, hname]
    case change =>
      intro f hf
      refine upholds_modify ?_
      rintro u ⟨hu, hsize, hname⟩
      refine ⟨hu.change hf, ?_, ?_⟩
      · simpa using hsize
      · exact (typeName_modify u.graph hf _ _).trans hname
  have hstart := hkept s.blank ⟨hs.push rfl, by simp [blank], by simp [blank]⟩
  change runStep (fill read trail s.graph.size members) s.blank = _ at hfill
  rw [hfill] at hstart
  exact hstart.1.2.2

theorem typeName_of_schemaTo (hs : s.Sound) {members : List (String × Json)}
    (hplain : Plain members) {depth : Nat}
    (h : runStep (schemaTo depth trail (.obj members)) s = (.ok (some id), t)) :
    (t.graph.node id).typeName = .null := by
  cases depth with
  | zero => cases h
  | succ depth =>
    change runStep (schemaStep (schemaTo depth) trail (.obj members)) s = _ at h
    rw [schemaStep_obj] at h
    obtain ⟨made, u, hmade, h⟩ := runStep_bind_ok.mp h
    cases h
    exact typeName_of_plain hs (careful_schemaTo depth) hplain hmade

theorem typeName_of_nodeOf (hs : s.Sound) {members : List (String × Json)} (hplain : Plain members)
    {depth : Nat} (h : runStep (nodeOf (schemaTo depth) trail (.obj members)) s = (.ok id, t)) :
    (t.graph.node id).typeName = .null := by
  obtain ⟨made, u, hread, h⟩ := runStep_bind_ok.mp h
  cases made with
  | some child =>
    cases h
    exact typeName_of_schemaTo hs hplain hread
  | none =>
    cases h
    exact congrArg Node.typeName (Graph.node_push_size _ _)

/-- What a reference is read as, by the segments of its pointer.  Where the last of them is the name
of no definition, the reference is read as the value that the pointer leads to, and as a schema that
says nothing where a list is in the way.  Where it is the name of a definition, the reference has
the node of the definition, whatever the pointer leads to. -/
theorem reference_followed (hs : s.Sound) (front : List String) (last : String)
    (trail : List String) (hsegments : ∀ segment ∈ front ++ [last], '/' ∉ segment.toList)
    (htrail : Json.pointerTo (front ++ [last]) ∉ trail) (depth : Nat) :
    let ref := Json.pointerTo (front ++ [last])
    (¬ s.Defined (.str last) → ∀ value, Json.Found s.source (front ++ [last]) value →
      runStep (referenced (schemaTo depth) trail (.str ref)) s
        = runStep (nodeOf (schemaTo depth) (ref :: trail) value) s)
    ∧ (¬ s.Defined (.str last) → ∀ before segment after items,
      front ++ [last] = before ++ segment :: after → Json.Found s.source before (.arr items) →
        runStep (referenced (schemaTo depth) trail (.str ref)) s
          = runStep (nodeOf (schemaTo depth) (ref :: trail) (.obj [])) s)
    ∧ (s.Defined (.str last) → ∀ id t,
      runStep (referenced (schemaTo depth) trail (.str ref)) s = (.ok id, t) →
        Entries.get? t.named (.str last) = some id ∧ (t.graph.node id).typeName = .str last
          ∧ ∀ members other u, Plain members →
            runStep (nodeOf (schemaTo depth) (ref :: trail) (.obj members)) s = (.ok other, u) →
              (u.graph.node other).typeName = .null) := by
  intro ref
  have hlast : Json.refName ref = last := Json.refName_pointerTo hsegments
  refine ⟨?found, ?list, ?defined⟩
  case found =>
    intro hundefined value hvalue
    rw [referenced_of_undefined hlast hundefined htrail, Json.target_pointerTo hsegments,
      Json.follow_of_found hvalue]
    cases hgiven : value.given with
    | true => rw [if_pos rfl]
    | false => exact (nodeOf_not_given hgiven depth).symm
  case list =>
    intro hundefined before segment after items hsplit hitems
    have hfollow : Json.follow s.source (front ++ [last]) = .obj [] := by
      rw [hsplit, Json.follow_append hitems]
      rfl
    rw [referenced_of_undefined hlast hundefined htrail, Json.target_pointerTo hsegments, hfollow]
    rfl
  case defined =>
    intro hdefined id t hrun
    rw [referenced_of_defined hlast hdefined] at hrun
    obtain ⟨hafter, hid⟩ := definition_after (careful_schemaTo depth) (.str last) hs
    rw [hrun] at hafter hid
    have hnamed := hid id rfl
    refine ⟨hnamed, (hafter.1.known hnamed).2, ?_⟩
    intro members other u hplain hother
    exact typeName_of_nodeOf hs hplain hother

/-- An order refers to two shapes outside of the definitions, one of which is called like a
definition. -/
def shapesData : Json :=
  .obj [
    ("openapi", .str "3.0.0"),
    ("info", .obj [("title", .str "t"), ("version", .str "1")]),
    ("paths", .obj []),
    ("x-shapes", .obj [
      ("Pet", .obj [("type", .str "integer")]),
      ("Weight", .obj [("type", .str "number")])]),
    ("components", .obj [("schemas", .obj [
      ("Pet", .obj [("type", .str "object")]),
      ("Order", .obj [("type", .str "object"), ("properties", .obj [
        ("pet", .obj [("$ref", .str "#/x-shapes/Pet")]),
        ("weight", .obj [("$ref", .str "#/x-shapes/Weight")])])])])])]

def shapesGraph : Graph where
  nodes := #[
    { kinds := Kinds.ofList [.object], typeName := .str "Pet" },
    { kinds := Kinds.ofList [.object], typeName := .str "Order",
      properties := [("pet", 0), ("weight", 2)] },
    { kinds := Kinds.ofList [.number] }]

/-- The state in which the definitions of this document are read. -/
def shapesStart : Reading :=
  ({} : Reading).begin shapesData ((Json.definitions shapesData).toOption.getD [])

theorem reference_followed_weight :
    shapesStart.Sound ∧ ¬ shapesStart.Defined (.str "Weight") ∧ shapesStart.Defined (.str "Pet")
      ∧ runStep (referenced (schemaTo 9) [] (.str "#/x-shapes/Weight")) shapesStart
        = runStep (nodeOf (schemaTo 9) ["#/x-shapes/Weight"] (.obj [("type", .str "number")]))
          shapesStart
      ∧ ∀ id t,
        runStep (referenced (schemaTo 9) [] (.str "#/x-shapes/Pet")) shapesStart = (.ok id, t) →
          (t.graph.node id).typeName = .str "Pet" := by
  have hsound : shapesStart.Sound := sound_begin _ _ _
  have hweight : ¬ shapesStart.Defined (.str "Weight") := by
    rintro (h | h) <;> revert h <;> decide
  have hpet : shapesStart.Defined (.str "Pet") := Or.inl (by decide)
  obtain ⟨hfound, -, -⟩ :=
    reference_followed hsound ["x-shapes"] "Weight" [] (by decide) (by decide) 9
  obtain ⟨-, -, hdefined⟩ :=
    reference_followed hsound ["x-shapes"] "Pet" [] (by decide) (by decide) 9
  refine ⟨hsound, hweight, hpet, ?_, ?_⟩
  · refine hfound hweight _ (.member rfl (.member rfl (.here _)))
  · intro id t hrun
    exact (hdefined hpet id t hrun).2.1

/-- The pet of an order has the node of the definition, which is an object, and not one for the
integer that its reference points to. -/
theorem reference_to_namesake : ∃ document s,
    Reading.read {} shapesData = (.ok document, s)
      ∧ Json.pointerTo ["x-shapes", "Pet"] = "#/x-shapes/Pet"
      ∧ Json.Found shapesData ["x-shapes", "Pet"] (.obj [("type", .str "integer")])
      ∧ document.schemas = [(.str "Pet", 0), (.str "Order", 1)]
      ∧ (document.graph.node 1).properties = [("pet", 0), ("weight", 2)]
      ∧ (document.graph.node 0).kinds.has .integer = false
      ∧ (document.graph.node 2).kinds.has .number = true := by
  obtain ⟨document, s, hread, hgraph, -, hschemas⟩ :
      ∃ document s, Reading.read {} shapesData = (.ok document, s)
        ∧ document.graph = shapesGraph ∧ document.operations = []
        ∧ document.schemas = [(.str "Pet", 0), (.str "Order", 1)] :=
    read_of_parts (by decide +kernel)
  refine ⟨document, s, hread, by decide, .member rfl (.member rfl (.here _)), hschemas, ?_⟩
  rw [hgraph]
  decide

end Reading

end ApiClients
