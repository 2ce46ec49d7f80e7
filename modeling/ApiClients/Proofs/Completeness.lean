import ApiClients.Proofs.Absorption

/-!
# What definitions have of their parts

The node of a definition has exactly the properties that the definition gets (`names_read`).  A part
is absorbed as far as it has been read by then, so a definition may lack a property of a part, but
only where the part comes to a definition that was open when the definition itself was being read:
references lead from there to the definition, and each definition on the way was met after the one
before.  Where there is no such way the definition has everything in the end, in whatever order the
definitions are listed; where there is one, it has what it gets without the properties that the part
was still to be given.
-/

namespace ApiClients.Reading

/-! ### Reading all definitions -/

theorem standing_begin (reader : Reading) (data : Json) (defs : List (Json × Json))
    {order : List Json} (horder : order.Nodup) :
    Standing defs order [] (reader.begin data defs) := by
  have hnone : ∀ name id, Entries.get? (reader.begin data defs).named name ≠ some id :=
    fun name id h => by cases h
  refine ⟨⟨fun hname => absurd hname (hnone _ _), ?_, List.nodup_nil⟩, List.prefix_rfl, horder,
    List.nil_prefix, ?_, ?_, fun hname => absurd hname (hnone _ _)⟩
  · intro id hid
    exact absurd rfl hid
  · intro head hhead
    cases hhead
  · intro f hf
    cases hf

/-- After the definitions have been read each of them has a node, and all are settled. -/
theorem reaches_readDefinitions {defs : List (Json × Json)} (hrefs : RefsDefined defs)
    (order : List Json) :
    Reaches order (Standing defs order []) (fun _ t => Standing defs order [] t
      ∧ ∀ entry ∈ defs, ∃ id, Entries.get? t.named entry.1 = some id) (readDefinitions defs) := by
  have hstep : ∀ done entry rest, done ++ entry :: rest = defs →
      Reaches order (fun s => Standing defs order [] s
          ∧ ∀ entry ∈ done, ∃ id, Entries.get? s.named entry.1 = some id)
        (fun _ s => Standing defs order [] s
          ∧ ∀ other ∈ done ++ [entry], ∃ id, Entries.get? s.named other.1 = some id)
        (do let _ ← namedSchema entry.1) := by
    intro done entry rest hsplit s _ t hs hrun
    obtain ⟨id, u, hname, hlast⟩ := runStep_bind_ok.mp hrun
    cases hlast
    unfold namedSchema at hname
    rw [runStep_bind_of_ok (runStep_get s)] at hname
    have hwell : ReadsWell defs order (schemaTo (s.depthBound .null)) := readsWell_schemaTo hrefs _
    have hafter := (definition_after hwell.careful entry.1 hs).1
    rw [hname] at hafter
    refine ⟨hafter.1, hafter.2.named, ?_⟩
    rintro hmet ⟨hstanding, hdone⟩
    have hhas : Entries.has defs entry.1 = true :=
      Entries.has_iff.mpr (List.mem_map_of_mem (by simp [← hsplit]))
    obtain ⟨ht, hid⟩ := hwell.definition hhas (by simp) hstanding hname hmet
    refine ⟨ht, ?_⟩
    intro other hother
    rcases List.mem_append.mp hother with hold | hnew
    · obtain ⟨otherId, hotherId⟩ := hdone other hold
      exact ⟨otherId, hafter.2.get? hotherId⟩
    · rw [List.mem_singleton.mp hnew]
      exact ⟨id, hid⟩
  have hloop := reaches_forIn order _ _ defs hstep
  intro s a t hs hrun
  obtain ⟨ht, hnamed, hdone⟩ := hloop s a t hs
    (by simpa only [readDefinitions, bind_assoc, pure_bind] using hrun)
  exact ⟨ht, hnamed, fun hmet hstanding => hdone hmet ⟨hstanding, by simp⟩⟩

/-! ### Documents -/

section

variable {reader : Reading} {data : Json} {document : Document} {defs : List (Json × Json)}

/-- Where all references name definitions, the node of a definition has the properties that the
definition gets, and what carries its shape has those of the definition in which it ends. -/
theorem names_read (hread : (Reading.read reader data).1 = .ok document)
    (hdefs : Json.definitions data = .ok defs) (hrefs : RefsDefined defs) {name : Json}
    (hname : Entries.has defs name = true) :
    ∃ id, Entries.get? document.schemas name = some id
      ∧ (∀ key, key ∈ (document.graph.node id).names
        ↔ Gets defs (document.schemas.map (·.1)) name none key)
      ∧ ∀ key, key ∈ (document.graph.actualNode id).names
        ↔ ∃ last, EndsIn defs name last ∧ Gets defs (document.schemas.map (·.1)) last none key := by
  have hrun : runStep (Reading.document data) reader
      = (.ok document, (Reading.read reader data).2) := by
    rw [← hread]
    rfl
  obtain ⟨defs', t, u, operations, hdefs', hloop, hoperations, -, hschemas, hgraph⟩ :=
    document_ok hrun
  rw [hdefs] at hdefs'
  cases hdefs'
  have hempty := (standing_begin reader data defs List.nodup_nil).sound
  have ht : t.Sound := (reaches_readDefinitions hrefs [] _ _ t hempty hloop).1
  have hafter := (stays_operations t ht.after).1
  rw [hoperations] at hafter
  obtain ⟨hu, hgrows⟩ := hafter
  obtain ⟨-, -, hdone⟩ :=
    reaches_readDefinitions hrefs (u.named.map (·.1)) _ _ t hempty hloop
  obtain ⟨hstanding, hall⟩ :=
    hdone (hgrows.named.map _) (standing_begin reader data defs hu.distinct)
  obtain ⟨entry, hentry, rfl⟩ := List.mem_map.mp (Entries.has_iff.mp hname)
  obtain ⟨id, hid⟩ := hall entry hentry
  rw [hschemas, hgraph]
  refine ⟨id, hgrows.get? hid, ?_, ?_⟩
  · intro key
    rw [hgrows.kept id (ht.known hid).1]
    exact (hstanding.settled hid (by simp [namesOf])).names
  · intro key
    have hself : ∃ link, Chain defs [] entry.1 link ∧ Entries.get? t.named link = some id :=
      ⟨entry.1, .refl, hid⟩
    have hkept : ∀ id, (∃ link, Chain defs [] entry.1 link ∧ Entries.get? t.named link = some id) →
        u.graph.node id = t.graph.node id := by
      rintro id ⟨link, -, hlink⟩
      exact hgrows.kept id (ht.known hlink).1
    have hactual : u.graph.actualNode id = t.graph.actualNode id := by
      have hsame : u.graph.actual id = t.graph.actual id :=
        Graph.follow_congr hstanding.chain_next
          (fun id hlink => congrArg Node.reference (hkept id hlink)) [] hself
      unfold Graph.actualNode
      rw [hsame]
      exact hkept _ (hstanding.actual_of_chain hid)
    rw [hactual]
    exact hstanding.mem_names_actual hid

/-- A definition has every property of what a part stands for in the end. -/
def Covers (document : Document) (name part : Json) : Prop :=
  ∃ id other, Entries.get? document.schemas name = some id
    ∧ Entries.get? document.schemas part = some other
    ∧ (document.graph.actualNode other).names ⊆ (document.graph.node id).names

/-- A definition has the properties that its shape spells out, and those of all its parts. -/
structure Complete (document : Document) (name : Json) (members : List (String × Json)) :
    Prop where
  own : ∃ id, Entries.get? document.schemas name = some id
    ∧ ∀ key, Spells (nested members) key → key ∈ (document.graph.node id).names
  parts : ∀ part, Includes (nested members) part → Covers document name part

/-- Where all references name definitions, the definitions with parts are complete exactly if each
of them gets what those of its parts have in the end from which references lead back to it. -/
theorem complete_iff (hread : (Reading.read reader data).1 = .ok document)
    (hdefs : Json.definitions data = .ok defs) (hrefs : RefsDefined defs) :
    (∀ name members, Entries.get? defs name = some (.obj members) →
        Entries.has members "allOf" = true → Complete document name members)
      ↔ ∀ name members part last key, Entries.get? defs name = some (.obj members) →
        Includes (nested members) part → EndsIn defs part last →
        Circular defs (document.schemas.map (·.1)) name part →
        Gets defs (document.schemas.map (·.1)) last none key →
          Gets defs (document.schemas.map (·.1)) name none key := by
  have hparts : ∀ {name members part}, Entries.get? defs name = some (.obj members) →
      Includes (nested members) part → Refers defs name part := by
    intro name members part hname hpart
    have hmembers : ∀ ref, members ≠ [("$ref", ref)] := by
      rintro ref rfl
      cases hpart.has_allOf
    refine ⟨_, hname, ?_⟩
    rw [contents_shape hmembers]
    exact hpart.mentions
  constructor
  · intro hcomplete name members part last key hname hpart hlast _ hkey
    obtain ⟨id, other, hid, hother, hcovers⟩ :=
      (hcomplete name members hname hpart.has_allOf).parts part hpart
    obtain ⟨id', hid', hnames, -⟩ :=
      names_read hread hdefs hrefs (Entries.has_iff_get?.mpr ⟨_, hname⟩)
    obtain ⟨other', hother', -, hactual⟩ :=
      names_read hread hdefs hrefs (hrefs _ _ (hparts hname hpart))
    rw [hid] at hid'
    rw [hother] at hother'
    cases hid'
    cases hother'
    exact (hnames key).mp (hcovers ((hactual key).mpr ⟨last, hlast, hkey⟩))
  · intro hcircular name members hname hallOf
    have hmembers : ∀ ref, members ≠ [("$ref", ref)] := by
      rintro ref rfl
      cases hallOf
    obtain ⟨id, hid, hnames, -⟩ :=
      names_read hread hdefs hrefs (Entries.has_iff_get?.mpr ⟨_, hname⟩)
    have hgets : ∀ {key}, Gives defs (document.schemas.map (·.1)) name (nested members) key →
        key ∈ (document.graph.node id).names := by
      intro key hkey
      rw [hnames, gets_end hname, contents_shape hmembers]
      exact hkey
    refine ⟨⟨id, hid, fun key hkey => hgets (Or.inl hkey)⟩, ?_⟩
    intro part hpart
    obtain ⟨other, hother, -, hactual⟩ :=
      names_read hread hdefs hrefs (hrefs _ _ (hparts hname hpart))
    refine ⟨id, other, hid, hother, ?_⟩
    intro key hkey
    obtain ⟨last, hlast, hkey⟩ := (hactual key).mp hkey
    by_cases hback : Circular defs (document.schemas.map (·.1)) name part
    · exact (hnames key).mpr (hcircular name members part last key hname hpart hlast hback hkey)
    · -- no definition on the way was open, so the part has been taken whole
      refine hgets (Or.inr ⟨part, hpart, last, none, hlast, ?_, .whole ?_, hkey⟩)
      · exact fun link hlink hleads => absurd ⟨link, hlink, hleads⟩ hback
      · exact fun hleads => hback ⟨last, hlast.1, hleads⟩

end

/-- Where the derived definition is listed first, it is complete. -/
theorem complete_derivedFirst : ∃ document,
    (Reading.read {} (documentOf derivedFirst)).1 = .ok document
      ∧ Json.definitions (documentOf derivedFirst) = .ok (keyed derivedFirst)
      ∧ RefsDefined (keyed derivedFirst)
      ∧ ∀ name members, Entries.get? (keyed derivedFirst) name = some (.obj members) →
        Entries.has members "allOf" = true → Complete document name members := by
  have hevaluates : (Reading.read {} (documentOf derivedFirst)).1.toOption.map (·.schemas)
      = some [(.str "Derived", 0), (.str "Base", 1)] := by decide +kernel
  have hdefs : Json.definitions (documentOf derivedFirst) = .ok (keyed derivedFirst) := rfl
  have hrefs : RefsDefined (keyed derivedFirst) := by
    intro name target h
    rcases circle_derivedFirst.refers h with ⟨-, rfl⟩ | ⟨-, rfl⟩ <;> decide
  rcases hread : (Reading.read {} (documentOf derivedFirst)).1 with failure | document
  · rw [hread] at hevaluates
    cases hevaluates
  · rw [hread] at hevaluates
    have hschemas : document.schemas = [(.str "Derived", 0), (.str "Base", 1)] :=
      Option.some.inj hevaluates
    refine ⟨document, rfl, hdefs, hrefs, (complete_iff hread hdefs hrefs).mpr ?_⟩
    rintro name members part last key hname hpart - ⟨link, hlink, hleads⟩ -
    -- the only part is the base, from which the derived definition is not met later
    have hmembers : ∀ ref, members ≠ [("$ref", ref)] := by
      rintro ref rfl
      cases hpart.has_allOf
    rw [← contents_shape hmembers] at hpart
    obtain ⟨rfl, rfl⟩ := circle_derivedFirst.partOf ⟨_, hname, hpart⟩
    obtain rfl := hlink.eq_of_not_alias fun _ => circle_derivedFirst.not_alias
    rcases Relation.ReflTransGen.cases_head hleads with hsame | ⟨other, ⟨hother, horder⟩, -⟩
    · simp at hsame
    · rcases circle_derivedFirst.refers hother with ⟨-, rfl⟩ | ⟨hsame, -⟩
      · rw [hschemas] at horder
        exact absurd horder (by decide)
      · simp at hsame

/-- Where the base is listed first, the derived definition lacks the property of the base. -/
theorem incomplete_baseFirst : ∃ document,
    (Reading.read {} (documentOf baseFirst)).1 = .ok document
      ∧ Json.definitions (documentOf baseFirst) = .ok (keyed baseFirst)
      ∧ RefsDefined (keyed baseFirst)
      ∧ (∀ name, ¬ Relation.TransGen (PartOf (keyed baseFirst)) name name)
      ∧ Entries.get? (keyed baseFirst) (.str "Derived") = some (.obj derivedShape)
      ∧ Entries.has derivedShape "allOf" = true
      ∧ ¬ Complete document (.str "Derived") derivedShape := by
  have hevaluates : ((Reading.read {} (documentOf baseFirst)).1.toOption.map fun document =>
      (document.schemas, (document.graph.actualNode 0).names, (document.graph.node 1).names))
        = some ([(.str "Base", 0), (.str "Derived", 1)], ["child"], []) := by decide +kernel
  have hrefs : RefsDefined (keyed baseFirst) := by
    intro name target h
    rcases circle_baseFirst.refers h with ⟨-, rfl⟩ | ⟨-, rfl⟩ <;> decide
  rcases hread : (Reading.read {} (documentOf baseFirst)).1 with failure | document
  · rw [hread] at hevaluates
    cases hevaluates
  · rw [hread] at hevaluates
    have hfacts := Option.some.inj hevaluates
    simp only [Prod.mk.injEq] at hfacts
    obtain ⟨hschemas, hbase, hderived⟩ := hfacts
    refine ⟨document, rfl, rfl, hrefs, fun _ => circle_baseFirst.acyclic, rfl, rfl, ?_⟩
    intro hcomplete
    have hpart : Includes (nested derivedShape) (.str "Base") := by
      have hstands : Stands (pointer "Base") (.str (Json.refName "#/components/schemas/Base")) :=
        .points (Or.inl rfl)
      have hname : Json.refName "#/components/schemas/Base" = "Base" := by decide +kernel
      rw [hname] at hstands
      exact .part List.mem_cons_self hstands
    obtain ⟨id, other, hid, hother, hnames⟩ := hcomplete.parts _ hpart
    rw [hschemas] at hid hother
    cases hid
    cases hother
    rw [hbase, hderived] at hnames
    exact absurd (hnames List.mem_cons_self) List.not_mem_nil

end ApiClients.Reading
