import ApiClients.Proofs.Filling

/-!
# Reading settles definitions

Every step of reading leaves the open definitions open and the others settled, and what a schema is
read to shows the properties that the schema gives.  A definition is open from the moment it has its
node until the node is filled (`ReadsWell.definition`).  The knot is tied with an induction on the
depth of nesting (`readsWell_schemaTo`).
-/

namespace ApiClients.Reading

/-! ### Definitions -/

section Definitions

variable {defs : List (Json × Json)} {order : List Json} {opened rest : List Frame}
  {s t : Reading} {id : NodeId} {name data : Json} {f : Frame} {read : ReadSchema}
  {trail : List String}

theorem ReadsWell.nodeOf (h : ReadsWell defs order read) (hdata : Through defs f data)
    (hs : Standing defs order (f :: rest) s)
    (hrun : runStep (Reading.nodeOf read trail data) s = (.ok id, t))
    (hmet : t.named.map (·.1) <+: order) :
    Standing defs order (f :: rest) t ∧ Met t data ∧ Presents defs order f.name t data id := by
  obtain ⟨made, u, hread, hrun⟩ := runStep_bind_ok.mp hrun
  have hnull := h.null hread
  cases made with
  | some child =>
    cases hrun
    obtain ⟨ht, hchild, hmade⟩ := h.stands hdata hs hread hmet
    exact ⟨ht, hchild, hmade _ rfl⟩
  | none =>
    cases hrun
    obtain ⟨hu, -, -⟩ := h.stands hdata hs hread hmet
    rw [hnull.mp rfl]
    have hstands : ∀ name, ¬ Stands .null name := fun name h => by cases h
    have hspelled : ∀ members, ¬ Spelled .null members := fun members h => by cases h
    exact ⟨hu.push rfl, met_of_nothing hstands hspelled,
      .of_nothing hu.sound hstands hspelled (by simp) rfl rfl⟩

theorem ReadsWell.nodeOf_sound (h : ReadsWell defs order read) (hs : s.Sound)
    (hrun : runStep (Reading.nodeOf read trail data) s = (.ok id, t)) : t.Sound ∧ s.Grows t := by
  have hafter := (makes_nodeOf h.careful trail data s hs).1
  rw [hrun] at hafter
  exact hafter

/-- A definition that has been gone through to the end is settled. -/
theorem Standing.finish (hs : Standing defs order opened s)
    (ht : Standing defs order (⟨name, contents data⟩ :: opened) t)
    (hid : Entries.get? t.named name = some id) (hdef : Entries.get? defs name = some data)
    (hdata : ∀ ref, data ≠ .obj [("$ref", ref)]) : Standing defs order opened t := by
  have hunderway := ht.underway_node List.mem_cons_self hid
  have hsettled : Settled defs order (namesOf (⟨name, contents data⟩ :: opened)) t name id := by
    constructor
    · intro ref href
      rw [hdef] at href
      cases href
      exact absurd rfl (hdata ref)
    · exact fun _ => hunderway.reference
    · exact hunderway.names.trans (gets_end hdef).symm
    · rintro target ⟨data', hdef', entry, hentry, htarget⟩
      rw [hdef] at hdef'
      cases hdef'
      exact hunderway.refers hentry htarget
  have hclose := hs.close ht hid (fun node => node) (fun _ => rfl)
  rw [Graph.modify_same] at hclose
  exact hclose hsettled

/-- A definition that is nothing but a reference is settled when its node stands for the other
one. -/
theorem settled_of_reference {text : String} {target : NodeId}
    (hs : Standing defs order (⟨name, []⟩ :: opened) s)
    (hid : Entries.get? s.named name = some id)
    (hdef : Entries.get? defs name = some (.obj [("$ref", .str text)]))
    (htarget : Entries.get? s.named (.str (Json.refName text)) = some target)
    (hrefers : Met s (.obj [("$ref", .str text)])) {change : Node → Node}
    (hnames : ∀ node, (change node).names = node.names)
    (hreference : ∀ node, node.reference = none →
      (change node).reference = if target = id then none else some target) :
    Settled defs order (namesOf (⟨name, []⟩ :: opened))
      { s with graph := s.graph.modify id change } name id := by
  have hunderway := hs.underway_node List.mem_cons_self hid
  have hself : (s.graph.modify id change).node id = change (s.graph.node id) :=
    Graph.node_modify_self _ _ (hs.sound.known hid).1
  constructor
  · intro ref href
    rw [hdef] at href
    cases href
    refine ⟨text, target, rfl, htarget, ?_⟩
    show ((s.graph.modify id change).node id).reference = _
    rw [hself, hreference _ hunderway.reference]
  · exact fun hplain => absurd hdef (hplain _)
  · intro key
    show key ∈ ((s.graph.modify id change).node id).names ↔ _
    rw [hself, hnames, hunderway.names, gets_end hdef]
    exact iff_of_false not_gives_nil not_gives_aside
  · rintro other ⟨data, hdata, entry, hentry, hmentions⟩
    rw [hdef] at hdata
    cases hdata
    rw [List.mem_singleton.mp hentry] at hmentions
    exact ⟨hrefers other hmentions, fun hbefore => hs.not_mem_of_before hbefore⟩

theorem standing_of_reference (h : ReadsWell defs order read) {ref : Json}
    (hs : Standing defs order opened s) (ht : Standing defs order (⟨name, []⟩ :: opened) t)
    (hid : Entries.get? t.named name = some id)
    (hdef : Entries.get? defs name = some (.obj [("$ref", ref)])) {u : Reading}
    (hrun : runStep (do
      let target ← nodeOf read [] (.obj [("$ref", ref)])
      if target ≠ id then change id fun n => { n with reference := some target }) t = (.ok (), u))
    (hmet : u.named.map (·.1) <+: order) : Standing defs order opened u := by
  obtain ⟨target, v, hnode, hlast⟩ := runStep_bind_ok.mp hrun
  obtain ⟨-, hgrows⟩ := h.nodeOf_sound ht.sound hnode
  have hvid := hgrows.get? hid
  have hthrough : Through defs (⟨name, []⟩ : Frame) (.obj [("$ref", ref)]) :=
    ⟨_, ⟨_, .aside, hdef, List.prefix_rfl⟩, fun _ h => h⟩
  by_cases hsame : target = id
  · rw [if_neg (not_not_intro hsame)] at hlast
    cases hlast
    obtain ⟨hv, hrefers, hpresents⟩ := h.nodeOf hthrough ht hnode hmet
    obtain ⟨text, rfl, htarget⟩ := hpresents.lone rfl
    have hsettled := settled_of_reference hv hvid hdef htarget hrefers (fun _ => rfl)
      fun node hnode => by rw [hnode, if_pos hsame]
    have hclose := hs.close hv hvid (fun node => node) (fun _ => rfl) hsettled
    rw [Graph.modify_same] at hclose
    exact hclose
  · rw [if_pos hsame] at hlast
    cases hlast
    obtain ⟨hv, hrefers, hpresents⟩ := h.nodeOf hthrough ht hnode hmet
    obtain ⟨text, rfl, htarget⟩ := hpresents.lone rfl
    refine hs.close hv hvid _ (fun _ => rfl) ?_
    refine settled_of_reference hv hvid hdef htarget hrefers (fun _ => rfl) ?_
    intro node _
    rw [if_neg hsame]

theorem standing_of_fill (h : ReadsWell defs order read) {members : List (String × Json)}
    (hs : Standing defs order opened s) (ht : Standing defs order (⟨name, []⟩ :: opened) t)
    (hid : Entries.get? t.named name = some id)
    (hdef : Entries.get? defs name = some (.obj members))
    (hmembers : ∀ ref, members ≠ [("$ref", ref)]) {u : Reading}
    (hrun : runStep (fill read [] id members) t = (.ok (), u))
    (hmet : u.named.map (·.1) <+: order) : Standing defs order opened u := by
  have hcontents := contents_shape hmembers
  have hunderway := ht.underway_node List.mem_cons_self hid
  have hfilled : Filled defs order true ⟨name, []⟩ opened id [] t := by
    refine ⟨ht, (ht.sound.known hid).1, hid, hunderway.reference, by simp, ?_⟩
    exact ⟨fun key hgives => absurd hgives not_gives_nil, fun key hkey => Or.inr ⟨id, hid, hkey⟩⟩
  have hthrough : ∀ before entry after, before ++ entry :: after = nested members →
      Through defs ((⟨name, []⟩ : Frame).at true before) entry.2 := by
    intro before entry after hsplit
    refine ⟨entry.2, ⟨_, entry.1, hdef, ?_⟩, fun _ h => h⟩
    rw [hcontents, ← hsplit]
    exact ⟨after, by simp [Frame.at]⟩
  obtain ⟨-, hnamed, hdone⟩ := reaches_fill h hthrough t () u ht.sound hrun
  have hstanding := (hdone hmet hfilled).standing
  change Standing defs order (⟨name, nested members⟩ :: opened) u at hstanding
  rw [← hcontents] at hstanding
  apply hs.finish hstanding (get?_mono hnamed hid) hdef
  intro ref href
  cases href
  exact hmembers ref rfl

/-- What a definition says has been put into its node. -/
theorem standing_of_readDefinition (h : ReadsWell defs order read)
    (hs : Standing defs order opened s) (ht : Standing defs order (⟨name, []⟩ :: opened) t)
    (hid : Entries.get? t.named name = some id) (hdef : Entries.get? defs name = some data)
    {u : Reading} (hrun : runStep (readDefinition read name id) t = (.ok (), u))
    (hmet : u.named.map (·.1) <+: order) : Standing defs order opened u := by
  unfold readDefinition at hrun
  rw [runStep_bind_of_ok (runStep_get t), get?_mono ht.definitions hdef] at hrun
  split at hrun
  case h_1 members hdata =>
    cases hdata
    split at hrun
    case h_1 ref => exact standing_of_reference h hs ht hid hdef hrun hmet
    case h_2 hmembers =>
      exact standing_of_fill h hs ht hid hdef (fun ref href => hmembers ref href) hrun hmet
  case h_2 hdata =>
    cases hrun
    have hcontents : contents data = [] := by
      cases data with
      | obj members => exact (hdata _ rfl).elim
      | _ => rfl
    have hnoted := ht.note (t.journal ++ [.untypedDefinition name])
    rw [← hcontents] at hnoted
    apply hs.finish hnoted hid hdef
    rintro ref rfl
    exact hdata _ rfl

theorem named_readDefinition (h : ReadsWell defs order read) (hs : s.Sound)
    (hrun : runStep (readDefinition read name id) s = (.ok (), t)) : s.named <+: t.named := by
  have hkeeps : Upholds (fun u => u.Sound ∧ s.named <+: u.named) (fun _ => True)
      (readDefinition read name id) := by
    refine upholds_readDefinition ⟨?read, ?change⟩ ?node ?note name
    case read =>
      intro trail data u hu
      have hafter := (h.careful trail data u hu.1).1
      exact ⟨⟨hafter.1, hu.2.trans hafter.2.named⟩, fun _ _ => trivial⟩
    case change => exact fun f hf => upholds_modify fun u hu => ⟨hu.1.change hf, hu.2⟩
    case node =>
      intro data u hu
      have hafter := (makes_nodeOf h.careful [] data u hu.1).1
      exact ⟨⟨hafter.1, hu.2.trans hafter.2.named⟩, fun _ _ => trivial⟩
    case note => exact fun event => upholds_modify fun u hu => ⟨hu.1.note _, hu.2⟩
  have hdone := (hkeeps s ⟨hs, List.prefix_rfl⟩).1.2
  rw [hrun] at hdone
  exact hdone

theorem ReadsWell.definition (h : ReadsWell defs order read) (hname : Entries.has defs name = true)
    (hhead : ∀ head ∈ opened.head?, ∃ child, head.Next defs child ∧ Mentions child name)
    (hs : Standing defs order opened s)
    (hrun : runStep (Reading.definition read name) s = (.ok id, t))
    (hmet : t.named.map (·.1) <+: order) :
    Standing defs order opened t ∧ Entries.get? t.named name = some id := by
  have hafter := definition_after h.careful name hs.sound
  rw [hrun] at hafter
  refine ⟨?_, hafter.2 id rfl⟩
  cases hnamed : Entries.get? s.named name with
  | some old =>
    rw [definition_known hnamed] at hrun
    cases hrun
    exact hs
  | none =>
    rw [definition_new hnamed] at hrun
    obtain ⟨_, u, hread, hlast⟩ := runStep_bind_ok.mp hrun
    cases hlast
    obtain ⟨data, hdef⟩ := Entries.has_iff_get?.mp hname
    have hentered := named_readDefinition h (hs.sound.enter hnamed) hread
    have hself : Entries.get? (s.enter name).named name = some s.graph.size := by
      rw [get?_named_enter, hnamed, if_pos rfl, Option.none_or]
    have henter := hs.enter hnamed ((hentered.map _).trans hmet) hhead
    exact standing_of_readDefinition h hs henter hself hdef hread hmet

/-! ### Schemas -/

theorem ReadsWell.referenced (h : ReadsWell defs order read) (hrefs : RefsDefined defs)
    {ref : String}
    (hhead : ∃ child, f.Next defs child ∧ Mentions child (.str (Json.refName ref)))
    (hs : Standing defs order (f :: rest) s)
    (hrun : runStep (Reading.referenced read trail (.str ref)) s = (.ok id, t))
    (hmet : t.named.map (·.1) <+: order) : Standing defs order (f :: rest) t
      ∧ Entries.get? t.named (.str (Json.refName ref)) = some id := by
  obtain ⟨child, hnext, hmentions⟩ := hhead
  have hname := hrefs _ _ (hnext.refers hmentions)
  have hdefined : Entries.has s.definitions (.str (Json.refName ref)) = true := by
    obtain ⟨data, hdata⟩ := Entries.has_iff_get?.mp hname
    exact Entries.has_iff_get?.mpr ⟨data, get?_mono hs.definitions hdata⟩
  unfold Reading.referenced at hrun
  rw [runStep_bind_of_ok (runStep_get s), hdefined, Bool.true_or, if_pos rfl] at hrun
  apply h.definition hname _ hs hrun hmet
  rintro _ ⟨⟩
  exact ⟨child, hnext, hmentions⟩

theorem ReadsWell.points (h : ReadsWell defs order read) (hrefs : RefsDefined defs)
    {members : List (String × Json)} {ref : Json} (href : Points members ref)
    (hdata : Through defs f (.obj members)) (hs : Standing defs order (f :: rest) s)
    (hrun : runStep (Reading.referenced read trail ref >>= nullableNode (Json.admitsNull members)) s
      = (.ok id, t))
    (hmet : t.named.map (·.1) <+: order) : Standing defs order (f :: rest) t
      ∧ Met t (.obj members) ∧ Presents defs order f.name t (.obj members) id := by
  obtain ⟨target, u, hreferenced, hnullable⟩ := runStep_bind_ok.mp hrun
  cases ref with
  | str ref =>
    have hself : Stands (.obj members) (.str (Json.refName ref)) := .points href
    have hstands : ∀ {name}, Stands (.obj members) name → name = .str (Json.refName ref) := by
      intro name hname
      exact hname.unique hself
    obtain ⟨child, hnext, hmentions⟩ := hdata
    have hhead : ∃ child, f.Next defs child ∧ Mentions child (.str (Json.refName ref)) :=
      ⟨child, hnext, hmentions _ (.stands hself)⟩
    have hmentioned : ∀ {s : Reading},
        Entries.get? s.named (.str (Json.refName ref)) = some target → Met s (.obj members) := by
      intro s htarget name hname
      obtain ⟨text, htext, rfl⟩ := hname.of_points href
      cases htext
      exact ⟨target, htarget⟩
    cases hadmits : Json.admitsNull members with
    | false =>
      rw [hadmits] at hnullable
      cases hnullable
      obtain ⟨hu, htarget⟩ := h.referenced hrefs hhead hs hreferenced hmet
      refine ⟨hu, hmentioned htarget, ?_, fun hnot => absurd hself (hnot _), ?_⟩
      · intro name hname
        rw [hstands hname]
        exact ⟨id, htarget, Or.inl rfl⟩
      · intro other hother
        cases hother
        exact ⟨ref, Points.unique (Or.inl rfl) href, htarget⟩
    | true =>
      rw [hadmits] at hnullable
      cases hnullable
      obtain ⟨hu, htarget⟩ := h.referenced hrefs hhead hs hreferenced hmet
      refine ⟨hu.push rfl, hmentioned htarget, ?_, fun hnot => absurd hself (hnot _), ?_⟩
      · intro name hname
        rw [hstands hname]
        refine ⟨target, htarget, Or.inr ⟨?_, hu.sound.unowned⟩⟩
        show ((u.graph.push _).node u.graph.size).reference = _
        rw [Graph.node_push_size]
      · intro other hother
        cases hother
        cases hadmits
  | _ => cases hreferenced

theorem ReadsWell.union (h : ReadsWell defs order read) {members : List (String × Json)}
    {variants : List Json} {nullable : Bool} (href : Entries.get? members "$ref" = none)
    (hvariants : variants? members = some variants) (hdata : Through defs f (.obj members))
    (hs : Standing defs order (f :: rest) s)
    (hrun : runStep (Reading.union read trail variants nullable) s = (.ok id, t))
    (hmet : t.named.map (·.1) <+: order) : Standing defs order (f :: rest) t
      ∧ Met t (.obj members) ∧ Presents defs order f.name t (.obj members) id := by
  have hlone : ∀ ref, Json.obj members ≠ .obj [("$ref", ref)] := by
    rintro ref hother
    cases hother
    cases href
  by_cases hone : ∃ shape, variants.filter (! isNullVariant ·) = [shape]
  · obtain ⟨shape, hshape⟩ := hone
    have hvariant : Variant members shape := ⟨href, variants, hvariants, hshape⟩
    have hthrough : Through defs f shape := by
      obtain ⟨child, hnext, hmentions⟩ := hdata
      exact ⟨child, hnext, fun target htarget => hmentions target (htarget.variant hvariant)⟩
    rw [union_of_one hshape] at hrun
    obtain ⟨made, u, hnode, hlast⟩ := runStep_bind_ok.mp hrun
    have hmade := (makes_nodeOf h.careful trail shape s hs.sound).2
    rw [hnode] at hmade
    have hread : u.named.map (·.1) <+: order → Standing defs order (f :: rest) u
        ∧ Met u (.obj members) ∧ Presents defs order f.name u (.obj members) made := by
      intro hmet
      obtain ⟨hu, hmentioned, hpresents⟩ := h.nodeOf hthrough hs hnode hmet
      exact ⟨hu, fun target htarget => hmentioned target (htarget.of_variant hvariant),
        hpresents.variant hvariant⟩
    cases hadmits : nullable || decide (1 < variants.length) with
    | false =>
      simp only [hadmits, Bool.false_eq_true, if_false] at hlast
      cases hlast
      exact hread hmet
    | true =>
      simp only [hadmits, if_true] at hlast
      cases hnamed : (u.graph.node made).isNamed with
      | true =>
        rw [runStep_admitNull_of_named hnamed] at hlast
        cases hlast
        obtain ⟨hu, hmentioned, hpresents⟩ := hread hmet
        exact ⟨hu.push rfl, hmentioned, hpresents.wrap hu.sound hnamed hlone⟩
      | false =>
        rw [runStep_admitNull_of_unnamed hnamed] at hlast
        cases hlast
        obtain ⟨hu, hmentioned, hpresents⟩ := hread hmet
        have hresult := hmade _ rfl
        have hunowned := (hresult.new hu.sound hnamed).2
        exact ⟨hu.change hunowned fun _ => rfl, hmentioned, hpresents.mark hresult.1 hunowned⟩
  · obtain ⟨count, node, hnode, hreference, hproperties, hunion⟩ :=
      union_of_several fun shape h => hone ⟨shape, h⟩
    rw [hunion] at hrun
    cases hrun
    have hnone : ∀ shape, ¬ Variant members shape := by
      rintro shape ⟨-, variants', hvariants', hshape⟩
      rw [hvariants, Option.some.injEq] at hvariants'
      exact hone ⟨shape, hvariants' ▸ hshape⟩
    have hstands : ∀ name, ¬ Stands (.obj members) name := by
      intro name hname
      cases hname with
      | points href' => exact href'.elim (by simp [href]) fun hsole => by simp [hvariants] at hsole
      | variant hvariant _ => exact hnone _ hvariant
    have hspelled : ∀ inner, ¬ Spelled (.obj members) inner := by
      intro inner hinner
      cases hinner with
      | plain hplain => simp [hplain.2.1] at hvariants
      | variant hvariant _ => exact hnone _ hvariant
    have hnoted := hs.note (s.journal ++ [.untypedUnion count])
    exact ⟨hnoted.push hnode, met_of_nothing hstands hspelled,
      .of_nothing hnoted.sound hstands hspelled hlone hreference hproperties⟩

theorem ReadsWell.plain (h : ReadsWell defs order read) {members : List (String × Json)}
    (hplain : Plain members) (hdata : Through defs f (.obj members))
    (hs : Standing defs order (f :: rest) s)
    (hrun : runStep (schemaObject read trail members) s = (.ok id, t))
    (hmet : t.named.map (·.1) <+: order) : Standing defs order (f :: rest) t
      ∧ Met t (.obj members) ∧ Presents defs order f.name t (.obj members) id := by
  rw [schemaObject_of_plain hplain] at hrun
  obtain ⟨made, u, hadd, hrun⟩ := runStep_bind_ok.mp hrun
  cases hadd
  obtain ⟨_, v, hfill, hlast⟩ := runStep_bind_ok.mp hrun
  cases hlast
  have hpush : Standing defs order (f :: rest) { s with graph := s.graph.push {} } := hs.push rfl
  have hfilled : Filled defs order false f rest s.graph.size []
      { s with graph := s.graph.push {} } := by
    refine ⟨hpush, ?_, hs.sound.unowned, ?_, by simp, ?_⟩
    · show s.graph.size < (s.graph.push {}).size
      rw [Graph.size_push]
      exact Nat.lt_succ_self _
    · show ((s.graph.push {}).node s.graph.size).reference = none
      rw [Graph.node_push_size]
    · show Shows _ _ ((s.graph.push {}).node s.graph.size).names
      rw [Graph.node_push_size]
      exact ⟨fun key hgives => absurd hgives not_gives_nil, fun key hkey => by cases hkey⟩
  have hthrough : ∀ before entry after, before ++ entry :: after = nested members →
      Through defs (f.at false before) entry.2 := by
    intro before entry after hsplit
    obtain ⟨child, hnext, hmentions⟩ := hdata
    refine ⟨child, hnext, fun target htarget => hmentions target ?_⟩
    exact .inner (.plain hplain) (by simp [← hsplit]) htarget
  obtain ⟨-, -, hdone⟩ := reaches_fill h hthrough _ _ _ hpush.sound hfill
  have hfilled := hdone hmet hfilled
  refine ⟨hfilled.standing, ?_, fun hname => absurd hname hplain.not_stands, ?_, ?_⟩
  · intro target htarget
    cases htarget with
    | stands hname => exact absurd hname hplain.not_stands
    | inner hinner hentry htarget =>
      rw [hplain.eq_of_spelled hinner] at hentry
      exact hfilled.met _ hentry target htarget
  · intro _
    obtain ⟨hlower, hupper⟩ := hfilled.shows
    have hgives : ∀ key, Gives defs order f.name [(.part, .obj members)] key
        ↔ Gives defs order f.name (nested members) key :=
      fun key => gives_part_of_spelled (.plain hplain)
    refine ⟨hfilled.reference, hfilled.owner, ?_, ?_⟩
    · exact fun key h => hlower key ((hgives key).mp h)
    · exact fun key hkey => (hupper key hkey).imp_left (hgives key).mpr
  · intro ref hother
    cases hother
    exact absurd hplain (Points.not_plain (Or.inl rfl))

theorem ReadsWell.schemaObject (h : ReadsWell defs order read) (hrefs : RefsDefined defs)
    {members : List (String × Json)} (hdata : Through defs f (.obj members))
    (hs : Standing defs order (f :: rest) s)
    (hrun : runStep (Reading.schemaObject read trail members) s = (.ok id, t))
    (hmet : t.named.map (·.1) <+: order) : Standing defs order (f :: rest) t
      ∧ Met t (.obj members) ∧ Presents defs order f.name t (.obj members) id := by
  cases form members with
  | points hpoints =>
    rw [schemaObject_of_points hpoints] at hrun
    exact h.points hrefs hpoints hdata hs hrun hmet
  | union href hvariants =>
    rw [schemaObject_of_union href hvariants] at hrun
    exact h.union href hvariants hdata hs hrun hmet
  | plain hplain => exact h.plain hplain hdata hs hrun hmet

theorem readsWell_schemaStep (h : ReadsWell defs order read) (hrefs : RefsDefined defs) :
    ReadsWell defs order (schemaStep read) where
  careful := careful_schemaStep h.careful
  null := by
    intro trail data s made t hrun
    cases data with
    | null =>
      cases hrun
      simp
    | obj members =>
      rw [schemaStep_obj] at hrun
      obtain ⟨_, _, _, hlast⟩ := runStep_bind_ok.mp hrun
      cases hlast
      simp
    | _ =>
      cases hrun
      simp
  stands := by
    intro trail data f rest s made t hdata hs hrun hmet
    cases data with
    | null =>
      cases hrun
      exact ⟨hs, met_of_nothing (fun _ h => by cases h) (fun _ h => by cases h),
        fun _ h => by cases h⟩
    | obj members =>
      rw [schemaStep_obj] at hrun
      obtain ⟨id, u, hobject, hlast⟩ := runStep_bind_ok.mp hrun
      cases hlast
      obtain ⟨ht, hmentioned, hpresents⟩ := h.schemaObject hrefs hdata hs hobject hmet
      refine ⟨ht, hmentioned, ?_⟩
      rintro _ ⟨⟩
      exact hpresents
    | _ =>
      cases hrun
      refine ⟨hs.push rfl, met_of_nothing (fun _ h => by cases h) (fun _ h => by cases h), ?_⟩
      rintro _ ⟨⟩
      exact .of_nothing hs.sound (fun _ h => by cases h) (fun _ h => by cases h) (by simp) rfl rfl

theorem readsWell_schemaTo (hrefs : RefsDefined defs) (depth : Nat) :
    ReadsWell defs order (schemaTo depth) := by
  induction depth with
  | zero =>
    refine ⟨careful_schemaTo 0, ?_, ?_⟩
    · intro trail data s made t hrun
      cases hrun
    · intro trail data f rest s made t _ _ hrun
      cases hrun
  | succ depth ih => exact readsWell_schemaStep ih hrefs

end Definitions

end ApiClients.Reading
