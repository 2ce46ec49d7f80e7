import ApiClients.Proofs.OpenDefinitions

/-!
# Filling a node

A node that is being filled collects what the schemas in its shape give it as they are gone through
(`reaches_fill`), provided that the reading of each of them leaves the open definitions open and the
others settled and makes a node that shows what the schema gives (`ReadsWell`).  It may be the node
of the definition that is being read or that of a schema in it.
-/

namespace ApiClients.Reading

/-! ### What success comes to -/

/-- Where a step succeeds the definitions are met in the order given, and so the state after it has
a property if the state before has one. -/
def Reaches {α : Type} (order : List Json) (P : Reading → Prop) (Q : α → Reading → Prop)
    (step : ReadingM α) : Prop :=
  ∀ s a t, s.Sound → runStep step s = (.ok a, t) →
    t.Sound ∧ s.named <+: t.named ∧ (t.named.map (·.1) <+: order → P s → Q a t)

section

variable {α β : Type} {order : List Json} {P : Reading → Prop} {R : α → Reading → Prop}
  {Q : β → Reading → Prop}

theorem reaches_pure {b : β} (h : ∀ s, P s → Q b s) : Reaches order P Q (pure b) := by
  intro s b' t hs hrun
  cases hrun
  exact ⟨hs, List.prefix_rfl, fun _ => h s⟩

theorem reaches_change {Q : Unit → Reading → Prop} {id : NodeId} {f : Node → Node}
    (hf : ∀ node, (f node).typeName = node.typeName)
    (h : ∀ s, P s → Q () { s with graph := s.graph.modify id f }) :
    Reaches order P Q (change id f) := by
  intro s a t hs hrun
  cases hrun
  exact ⟨hs.change hf, List.prefix_rfl, fun _ => h s⟩

theorem reaches_bind {x : ReadingM α} {f : α → ReadingM β} (hx : Reaches order P R x)
    (hf : ∀ a, Reaches order (R a) Q (f a)) : Reaches order P Q (x >>= f) := by
  intro s b t hs hrun
  obtain ⟨a, u, hfirst, hnext⟩ := runStep_bind_ok.mp hrun
  obtain ⟨hu, hsu, hR⟩ := hx s a u hs hfirst
  obtain ⟨ht, hut, hQ⟩ := hf a u b t hu hnext
  refine ⟨ht, hsu.trans hut, ?_⟩
  intro hmet hP
  exact hQ hmet (hR ((hut.map _).trans hmet) hP)

/-- A step that takes a result up. -/
theorem reaches_lift_bind {outcome : Except Failure α} {f : α → ReadingM β}
    (h : ∀ a, outcome = .ok a → Reaches order P Q (f a)) :
    Reaches order P Q (lift outcome >>= f) := by
  intro s b t hs hrun
  obtain ⟨a, ha, hrun⟩ := runStep_lift_bind hrun
  exact h a ha s b t hs hrun

/-- A loop through a list, with an invariant that speaks of what has been gone through. -/
theorem reaches_forIn (order : List Json) (I : List α → Reading → Prop)
    (step : α → ReadingM PUnit) (as : List α)
    (h : ∀ done a rest, done ++ a :: rest = as →
      Reaches order (I done) (fun _ => I (done ++ [a])) (step a)) :
    Reaches order (I []) (fun _ => I as) (do
      for a in as do
        step a) := by
  suffices hfrom : ∀ done rest, done ++ rest = as → Reaches order (I done) (fun _ => I as)
      (forIn rest PUnit.unit fun a _ => do
        step a
        pure (.yield PUnit.unit)) from
    reaches_bind (hfrom [] as rfl) fun _ => reaches_pure fun _ hs => hs
  intro done rest
  induction rest generalizing done with
  | nil =>
    intro has
    rw [List.append_nil] at has
    subst has
    exact reaches_pure fun _ hs => hs
  | cons a rest ih =>
    intro has
    have hrest := ih (done ++ [a]) (by simp [← has])
    rw [List.forIn_cons, bind_assoc]
    refine reaches_bind (h done a rest has) fun _ => ?_
    rw [pure_bind]
    exact hrest

end

/-! ### What a schema is read to -/

section

variable (defs : List (Json × Json)) (order : List Json)

/-- A schema mentions nothing but what the next schema of an open definition mentions. -/
def Through (f : Frame) (data : Json) : Prop :=
  ∃ child, f.Next defs child ∧ ∀ target, Mentions data target → Mentions child target

/-- All that a schema mentions has been met. -/
def Met (s : Reading) (data : Json) : Prop :=
  ∀ target, Mentions data target → ∃ id, Entries.get? s.named target = some id

/-- A node is what reading makes of a schema in a definition. -/
structure Presents (head : Json) (s : Reading) (data : Json) (id : NodeId) : Prop where
  stands : ∀ {name}, Stands data name → ∃ target, Entries.get? s.named name = some target
    ∧ (id = target ∨ (s.graph.node id).reference = some target ∧ s.Unowned id)
  spelled : (∀ name, ¬ Stands data name) → (s.graph.node id).reference = none ∧ s.Unowned id
    ∧ Shows (Gives defs order head [(.part, data)]) (Known s head) (s.graph.node id).names
  lone : ∀ {ref}, data = .obj [("$ref", ref)] → ∃ text, ref = .str text
    ∧ Entries.get? s.named (.str (Json.refName text)) = some id

/-- A reading of schemas leaves things standing and makes nodes that present them. -/
structure ReadsWell (read : ReadSchema) : Prop where
  careful : Careful read
  null : ∀ {trail data s made t}, runStep (read trail data) s = (.ok made, t) →
    (made = none ↔ data = .null)
  stands : ∀ {trail data f rest s made t}, Through defs f data →
    Standing defs order (f :: rest) s → runStep (read trail data) s = (.ok made, t) →
    t.named.map (·.1) <+: order → Standing defs order (f :: rest) t ∧ Met t data
      ∧ ∀ id, made = some id → Presents defs order f.name t data id

end

section Presenting

variable {defs : List (Json × Json)} {order : List Json} {rest : List Frame} {s t : Reading}
  {data name : Json} {id : NodeId} {f : Frame}

theorem Met.mono (h : Met s data) (hnamed : s.named <+: t.named) : Met t data := by
  intro target htarget
  obtain ⟨id, hid⟩ := h target htarget
  exact ⟨id, get?_mono hnamed hid⟩

theorem Known.change {head : Json} {key : String} (h : Known s head key) (hunowned : s.Unowned id)
    (f : Node → Node) : Known { s with graph := s.graph.modify id f } head key := by
  obtain ⟨other, hother, hkey⟩ := h
  refine ⟨other, hother, ?_⟩
  show key ∈ ((s.graph.modify id f).node other).names
  rw [Graph.node_modify_of_ne]
  · exact hkey
  · rintro rfl
    exact hunowned head hother

/-- What carries the shape of a schema that has been read shows what the schema gives. -/
theorem Presents.shows (h : Presents defs order f.name s data id)
    (hs : Standing defs order (f :: rest) s) :
    Shows (Gives defs order f.name [(.part, data)]) (Known s f.name)
      (s.graph.actualNode id).names := by
  by_cases hstands : ∃ name, Stands data name
  · obtain ⟨name, hname⟩ := hstands
    obtain ⟨target, htarget, hid⟩ := h.stands hname
    have hactual : s.graph.actual id = s.graph.actual target := by
      rcases hid with rfl | ⟨hreference, hunowned⟩
      · rfl
      · -- the chain from the target does not come back to the node in front of it
        obtain ⟨link, -, hlink⟩ :=
          Graph.follow_mem hs.chain_next [id] ⟨name, Relation.ReflTransGen.refl, htarget⟩
        have hfresh : s.graph.follow ([] ++ [id]) target ∉ [id] := by
          rw [List.nil_append, List.mem_singleton]
          intro hsame
          rw [hsame] at hlink
          exact hunowned link hlink
        have hsame := Graph.follow_of_append [] [id] target hfresh
        unfold Graph.actual
        rw [Graph.follow_next hreference List.not_mem_nil]
        exact hsame.symm
    obtain ⟨hlower, hupper⟩ := hs.shows htarget
    unfold Graph.actualNode at *
    rw [hactual]
    constructor
    · intro key hgives
      exact hlower key ((gives_part_of_stands hname).mp hgives)
    · intro key hkey
      exact (hupper key hkey).imp_left (gives_part_of_stands hname).mpr
  · obtain ⟨hreference, -, hshows⟩ := h.spelled fun name hname => hstands ⟨name, hname⟩
    unfold Graph.actualNode Graph.actual
    rw [Graph.follow_none [] hreference]
    exact hshows

/-- A new node with nothing in it presents a schema that gives nothing. -/
theorem Presents.of_nothing {head : Json} (hs : s.Sound) (hstands : ∀ name, ¬ Stands data name)
    (hspelled : ∀ members, ¬ Spelled data members) (hlone : ∀ ref, data ≠ .obj [("$ref", ref)])
    {node : Node} (hreference : node.reference = none) (hnames : node.names = []) :
    Presents defs order head { s with graph := s.graph.push node } data s.graph.size := by
  constructor
  · exact fun hname => absurd hname (hstands _)
  · intro _
    show ((s.graph.push node).node s.graph.size).reference = none ∧ s.Unowned s.graph.size
      ∧ Shows _ _ ((s.graph.push node).node s.graph.size).names
    rw [Graph.node_push_size]
    refine ⟨hreference, hs.unowned, ?_, ?_⟩
    · exact fun key hgives => absurd hgives (not_gives_part hstands hspelled)
    · simp [hnames]
  · exact fun href => absurd href (hlone _)

theorem met_of_nothing (hstands : ∀ name, ¬ Stands data name)
    (hspelled : ∀ members, ¬ Spelled data members) : Met s data := by
  intro target htarget
  cases htarget with
  | stands hname => exact absurd hname (hstands _)
  | inner hdata _ _ => exact absurd hdata (hspelled _)

/-- A union that comes to one shape is read as that shape. -/
theorem Presents.variant {head shape : Json} {members : List (String × Json)}
    (h : Presents defs order head s shape id) (hvariant : Variant members shape) :
    Presents defs order head s (.obj members) id where
  stands hname := h.stands (hname.of_variant hvariant)
  spelled hnot := by
    obtain ⟨hreference, hunowned, hlower, hupper⟩ :=
      h.spelled fun name hname => hnot name (.variant hvariant hname)
    refine ⟨hreference, hunowned, ?_, ?_⟩
    · exact fun key hgives => hlower key ((gives_part_of_variant hvariant).mp hgives)
    · exact fun key hkey => (hupper key hkey).imp_left (gives_part_of_variant hvariant).mpr
  lone hother := by
    cases hother
    exact absurd hvariant (Points.not_variant (Or.inl rfl))

/-- A node that stands for that of a definition, with null admitted. -/
theorem Presents.wrap {head : Json} (h : Presents defs order head s data id) (hs : s.Sound)
    (hnamed : (s.graph.node id).isNamed = true) (hlone : ∀ ref, data ≠ .obj [("$ref", ref)])
    {nullable : Bool} :
    Presents defs order head
      { s with graph := s.graph.push { reference := some id, nullable := nullable } } data
      s.graph.size := by
  have howned : Entries.get? s.named (s.graph.node id).typeName = some id :=
    hs.owned (by simpa [Node.isNamed] using hnamed)
  constructor
  · intro name hname
    obtain ⟨target, htarget, rfl | ⟨-, hunowned⟩⟩ := h.stands hname
    · refine ⟨id, htarget, Or.inr ⟨?_, hs.unowned⟩⟩
      show ((s.graph.push _).node s.graph.size).reference = _
      rw [Graph.node_push_size]
    · exact absurd howned (hunowned _)
  · intro hnot
    obtain ⟨-, hunowned, -⟩ := h.spelled hnot
    exact absurd howned (hunowned _)
  · exact fun href => absurd href (hlone _)

/-- Admitting null changes nothing of what a node presents. -/
theorem Presents.mark {head : Json} (h : Presents defs order head s data id)
    (hid : id < s.graph.size) (hunowned : s.Unowned id) :
    Presents defs order head
      { s with graph := s.graph.modify id fun n => { n with nullable := true } } data id := by
  have hnode : (s.graph.modify id fun n => { n with nullable := true }).node id =
      { s.graph.node id with nullable := true } := Graph.node_modify_self _ _ hid
  constructor
  · intro name hname
    obtain ⟨target, htarget, hsame⟩ := h.stands hname
    refine ⟨target, htarget, hsame.imp_right fun hwrapper => ⟨?_, hwrapper.2⟩⟩
    show ((s.graph.modify id _).node id).reference = _
    rw [hnode, hwrapper.1]
  · intro hnot
    obtain ⟨hreference, -, hlower, hupper⟩ := h.spelled hnot
    show ((s.graph.modify id _).node id).reference = none ∧ s.Unowned id
      ∧ Shows _ _ ((s.graph.modify id _).node id).names
    rw [hnode]
    refine ⟨hreference, hunowned, hlower, ?_⟩
    intro key hkey
    exact (hupper key hkey).imp_right fun hknown => hknown.change hunowned _
  · exact h.lone

end Presenting

/-! ### Filling a node -/

/-- The definition that is being read as far as it has been gone through: it goes further while its
own node is filled, and stays while the node of a schema in it is. -/
def Frame.at (f : Frame) : Bool → List (Role × Json) → Frame
  | true, done => ⟨f.name, done⟩
  | false, _ => f

/-- A node is that of a definition, or it is that of a schema and belongs to no definition. -/
def Owner (s : Reading) (name : Json) (id : NodeId) : Bool → Prop
  | true => Entries.get? s.named name = some id
  | false => s.Unowned id

/-- A node that is being filled has what the schemas gone through so far give it. -/
structure Filled (defs : List (Json × Json)) (order : List Json) (owned : Bool) (f : Frame)
    (rest : List Frame) (id : NodeId) (done : List (Role × Json)) (s : Reading) : Prop where
  standing : Standing defs order (f.at owned done :: rest) s
  size : id < s.graph.size
  owner : s.Owner f.name id owned
  reference : (s.graph.node id).reference = none
  met : ∀ entry ∈ done, Met s entry.2
  shows : Shows (Gives defs order f.name done) (Known s f.name) (s.graph.node id).names

section Filling

variable {defs : List (Json × Json)} {order : List Json} {owned : Bool} {f : Frame}
  {rest : List Frame} {s t : Reading} {id : NodeId} {read : ReadSchema} {trail : List String}
  {done next : List (Role × Json)} {role : Role} {child data : Json}
  {members : List (String × Json)}

theorem Frame.name_at (f : Frame) : (f.at owned done).name = f.name := by
  cases owned <;> rfl

theorem Known.mono {name : Json} {key : String} (h : Known s name key) (hs : s.Sound)
    (hgrows : s.Grows t) : Known t name key := by
  obtain ⟨other, hother, hkey⟩ := h
  refine ⟨other, hgrows.get? hother, ?_⟩
  rw [hgrows.kept other (hs.known hother).1]
  exact hkey

theorem Filled.grow (h : Filled defs order owned f rest id done s)
    (ht : Standing defs order (f.at owned done :: rest) t) (hgrows : s.Grows t) :
    Filled defs order owned f rest id done t where
  standing := ht
  size := Nat.lt_of_lt_of_le h.size hgrows.size
  owner := by
    have howner := h.owner
    cases owned with
    | true => exact hgrows.get? howner
    | false =>
      intro name hname
      rcases hgrows.fresh hname with hold | hnew
      · exact howner name hold
      · exact absurd h.size (Nat.not_lt_of_le hnew)
  reference := by rw [hgrows.kept id h.size, h.reference]
  met entry hentry := (h.met entry hentry).mono hgrows.named
  shows := by
    rw [hgrows.kept id h.size]
    refine ⟨h.shows.1, ?_⟩
    intro key hkey
    exact (h.shows.2 key hkey).imp_right fun hknown => hknown.mono h.standing.sound hgrows

/-- The definition that is being read goes further when its own node is filled. -/
theorem Filled.standing_advance (h : Filled defs order owned f rest id done s)
    {change : Node → Node} (htypeName : ∀ node, (change node).typeName = node.typeName)
    (hreference : ∀ node, (change node).reference = node.reference) {more : List String}
    (hnames : ∀ node key, key ∈ (change node).names ↔ key ∈ node.names ∨ key ∈ more)
    (hmore : Shows (Gives defs order f.name next) (Known s f.name) more)
    (hmet : ∀ entry ∈ next, Met s entry.2) :
    Standing defs order (f.at owned (done ++ next) :: rest)
      { s with graph := s.graph.modify id change } := by
  have hs := h.standing
  have howner := h.owner
  cases owned with
  | true =>
    change Standing defs order (⟨f.name, done⟩ :: rest) s at hs
    change Entries.get? s.named f.name = some id at howner
    have hunderway := hs.underway_node List.mem_cons_self howner
    refine hs.advance howner htypeName hreference ?_ ?_
    · intro key
      rw [hnames, gives_append, hunderway.names]
      constructor
      · rintro (hold | hnew)
        · exact Or.inl hold
        · rcases hmore.2 key hnew with hgives | ⟨other, hother, hkey⟩
          · exact Or.inr hgives
          · rw [howner] at hother
            cases hother
            exact Or.inl (hunderway.names.mp hkey)
      · exact Or.imp_right (hmore.1 key)
    · intro entry target hentry htarget
      rcases List.mem_append.mp hentry with hold | hnew
      · exact hunderway.refers hold htarget
      · exact ⟨hmet entry hnew target htarget, fun hbefore => hs.not_mem_of_before hbefore⟩
  | false => exact hs.change howner htypeName

/-- A schema has been gone through, and its names have been added to the node. -/
theorem Filled.advance (h : Filled defs order owned f rest id done s) (change : Node → Node)
    (htypeName : ∀ node, (change node).typeName = node.typeName)
    (hreference : ∀ node, (change node).reference = node.reference) (more : List String)
    (hnames : ∀ node key, key ∈ (change node).names ↔ key ∈ node.names ∨ key ∈ more)
    (hmore : Shows (Gives defs order f.name next) (Known s f.name) more)
    (hmet : ∀ entry ∈ next, Met s entry.2) :
    Filled defs order owned f rest id (done ++ next)
      { s with graph := s.graph.modify id change } := by
  have hself : (s.graph.modify id change).node id = change (s.graph.node id) :=
    Graph.node_modify_self _ _ h.size
  have howner := h.owner
  refine ⟨h.standing_advance htypeName hreference hnames hmore hmet, ?size, ?owner, ?reference,
    ?met, ?shows⟩
  case size =>
    rw [Graph.size_modify]
    exact h.size
  case owner => cases owned <;> exact howner
  case reference =>
    show ((s.graph.modify id change).node id).reference = none
    rw [hself, hreference, h.reference]
  case met =>
    intro entry hentry
    exact (List.mem_append.mp hentry).elim (h.met entry) (hmet entry)
  case shows =>
    show Shows _ _ ((s.graph.modify id change).node id).names
    rw [hself]
    constructor
    · intro key hgives
      rw [hnames]
      exact (gives_append.mp hgives).imp (h.shows.1 key) (hmore.1 key)
    · intro key hkey
      cases owned with
      | true =>
        refine Or.inr ⟨id, howner, ?_⟩
        show key ∈ ((s.graph.modify id change).node id).names
        rw [hself]
        exact hkey
      | false =>
        rw [hnames] at hkey
        rw [gives_append]
        rcases hkey with hold | hnew
        · exact (h.shows.2 key hold).imp Or.inl fun hknown => hknown.change howner change
        · exact (hmore.2 key hnew).imp Or.inr fun hknown => hknown.change howner change

/-- A schema that gives nothing has been gone through. -/
theorem Filled.skip (h : Filled defs order owned f rest id done s)
    (hnone : ∀ key, ¬ Gives defs order f.name next key) (hmet : ∀ entry ∈ next, Met s entry.2) :
    Filled defs order owned f rest id (done ++ next) s := by
  have hskip := h.advance (fun node => node) (fun _ => rfl) (fun _ => rfl) [] (by simp)
    ⟨fun key hgives => absurd hgives (hnone key), by simp⟩ hmet
  rw [Graph.modify_same] at hskip
  exact hskip

theorem Filled.change (h : Filled defs order owned f rest id done s) {change : Node → Node}
    (htypeName : ∀ node, (change node).typeName = node.typeName)
    (hreference : ∀ node, (change node).reference = node.reference)
    (hnames : ∀ node, (change node).names = node.names) :
    Filled defs order owned f rest id done { s with graph := s.graph.modify id change } := by
  have hnothing : Shows (Gives defs order f.name []) (Known s f.name) [] :=
    ⟨fun key hgives => absurd hgives not_gives_nil, by simp⟩
  have hadvance := h.advance change htypeName hreference [] (by simp [hnames]) hnothing (by simp)
  rw [List.append_nil] at hadvance
  exact hadvance

theorem ReadsWell.sound (h : ReadsWell defs order read) (hs : s.Sound) {made : Option NodeId}
    (hrun : runStep (read trail data) s = (.ok made, t)) : t.Sound ∧ s.Grows t := by
  have hafter := (h.careful trail data s hs).1
  rw [hrun] at hafter
  exact hafter

/-- What is known when the next schema has been read. -/
structure Fetched (defs : List (Json × Json)) (order : List Json) (owned : Bool) (f : Frame)
    (rest : List Frame) (id : NodeId) (done : List (Role × Json)) (child : Json)
    (made : Option NodeId) (s : Reading) : Prop where
  filled : Filled defs order owned f rest id done s
  met : Met s child
  null : made = none ↔ child = .null
  shows : ∀ other, made = some other → Shows (Gives defs order f.name [(.part, child)])
    (Known s f.name) (s.graph.actualNode other).names

theorem reaches_read (h : ReadsWell defs order read)
    (hthrough : Through defs (f.at owned done) child) :
    Reaches order (Filled defs order owned f rest id done)
      (Fetched defs order owned f rest id done child) (read trail child) := by
  intro s made t hs hrun
  obtain ⟨ht, hgrows⟩ := h.sound hs hrun
  refine ⟨ht, hgrows.named, ?_⟩
  intro hmet hfilled
  obtain ⟨hstanding, hchild, hmade⟩ := h.stands hthrough hfilled.standing hrun hmet
  refine ⟨hfilled.grow hstanding hgrows, hchild, h.null hrun, ?_⟩
  intro other hother
  have hshows := (hmade other hother).shows hstanding
  rw [f.name_at] at hshows
  exact hshows

theorem Fetched.skip {made : Option NodeId}
    (h : Fetched defs order owned f rest id done child made s)
    (hnone : ∀ key, ¬ Gives defs order f.name [(role, child)] key) :
    Filled defs order owned f rest id (done ++ [(role, child)]) s := by
  apply h.filled.skip hnone
  intro entry hentry
  rw [List.mem_singleton.mp hentry]
  exact h.met

theorem Fetched.advance {made : Option NodeId}
    (h : Fetched defs order owned f rest id done child made s) (change : Node → Node)
    (htypeName : ∀ node, (change node).typeName = node.typeName)
    (hreference : ∀ node, (change node).reference = node.reference) (more : List String)
    (hnames : ∀ node key, key ∈ (change node).names ↔ key ∈ node.names ∨ key ∈ more)
    (hmore : Shows (Gives defs order f.name [(role, child)]) (Known s f.name) more) :
    Filled defs order owned f rest id (done ++ [(role, child)])
      { s with graph := s.graph.modify id change } := by
  apply h.filled.advance change htypeName hreference more hnames hmore
  intro entry hentry
  rw [List.mem_singleton.mp hentry]
  exact h.met

/-- A schema whose properties are not taken over. -/
theorem reaches_aside {made : Option NodeId} {change : Node → Node}
    (htypeName : ∀ node, (change node).typeName = node.typeName)
    (hreference : ∀ node, (change node).reference = node.reference)
    (hnames : ∀ node, (change node).names = node.names) :
    Reaches order (Fetched defs order owned f rest id done child made)
      (fun _ => Filled defs order owned f rest id (done ++ [(.aside, child)]))
      (Reading.change id change) := by
  apply reaches_change htypeName
  intro s hs
  apply hs.advance change htypeName hreference [] (by simp [hnames])
  exact ⟨fun key hgives => absurd hgives not_gives_aside, by simp⟩

theorem reaches_readProperty (h : ReadsWell defs order read) {property : String × Json}
    (hthrough : Through defs (f.at owned done) property.2) :
    Reaches order (Filled defs order owned f rest id done)
      (fun _ => Filled defs order owned f rest id (done ++ [(.property property.1, property.2)]))
      (readProperty read trail id property) := by
  refine reaches_bind (reaches_read h hthrough) fun made => ?_
  cases made with
  | none =>
    apply reaches_pure
    intro s hs
    exact hs.skip fun key hgives => (gives_property.mp hgives).2 (hs.null.mp rfl)
  | some other =>
    refine reaches_change (fun _ => rfl) fun s hs => ?_
    have hgiven : property.2 ≠ .null := fun hnull => by simpa using hs.null.mpr hnull
    refine hs.advance _ (fun _ => rfl) (fun _ => rfl) [property.1] ?_ ?_
    · intro node key
      rw [List.mem_singleton, or_comm]
      exact Entries.mem_keys_put
    · constructor
      · intro key hgives
        exact List.mem_singleton.mpr (gives_property.mp hgives).1
      · intro key hkey
        exact Or.inl (gives_property.mpr ⟨List.mem_singleton.mp hkey, hgiven⟩)

theorem reaches_readPart (h : ReadsWell defs order read) {part : Json}
    (hthrough : Through defs (f.at owned done) part) :
    Reaches order (Filled defs order owned f rest id done)
      (fun _ => Filled defs order owned f rest id (done ++ [(.part, part)]))
      (readPart read trail id part) := by
  refine reaches_bind (reaches_read h hthrough) fun made => ?_
  cases made with
  | none =>
    apply reaches_pure
    intro s hs
    apply hs.skip
    -- null spells nothing out and stands for nothing
    rw [hs.null.mp rfl]
    exact fun key => not_gives_part (fun _ h => by cases h) (fun _ h => by cases h)
  | some other =>
    intro s a t hs hrun
    rw [runStep_bind_of_ok (runStep_get s)] at hrun
    cases hrun
    refine ⟨hs.change fun _ => rfl, List.prefix_rfl, ?_⟩
    intro _ hfetched
    exact hfetched.advance _ (fun _ => rfl) (fun _ => rfl) _ (fun _ _ => mem_names_absorb)
      (hfetched.shows other rfl)

/-! ### The stages of filling a node -/

theorem reaches_fillKeywords : Reaches order (Filled defs order owned f rest id done)
    (fun _ => Filled defs order owned f rest id done) (fillKeywords id members) := by
  have hstay : ∀ change : Node → Node, (∀ node, (change node).typeName = node.typeName) →
      (∀ node, (change node).reference = node.reference) →
      (∀ node, (change node).names = node.names) →
      Reaches order (Filled defs order owned f rest id done)
        (fun _ => Filled defs order owned f rest id done) (Reading.change id change) :=
    fun change htypeName hreference hnames =>
      reaches_change htypeName fun s hs => hs.change htypeName hreference hnames
  refine reaches_bind (hstay _ (fun _ => rfl) (fun _ => rfl) fun _ => rfl) fun _ => ?_
  exact reaches_lift_bind fun _ _ => hstay _ (fun _ => rfl) (fun _ => rfl) fun _ => rfl

theorem reaches_fillRequired : Reaches order (Filled defs order owned f rest id done)
    (fun _ => Filled defs order owned f rest id done) (fillRequired id members) :=
  reaches_lift_bind fun _ _ => reaches_change (fun _ => rfl) fun _ hs =>
    hs.change (fun _ => rfl) (fun _ => rfl) fun _ => rfl

theorem reaches_fillItems (h : ReadsWell defs order read)
    (hthrough : ∀ before entry after, before ++ entry :: after = nestedItems members →
      Through defs (f.at owned (done ++ before)) entry.2) :
    Reaches order (Filled defs order owned f rest id done)
      (fun _ => Filled defs order owned f rest id (done ++ nestedItems members))
      (fillItems read trail id members) := by
  unfold fillItems
  unfold nestedItems at *
  by_cases hitems : Entries.has members "items" = true
  · simp only [hitems, if_true] at hthrough ⊢
    have hfirst := hthrough [] (.aside, Json.field members "items") [] rfl
    rw [List.append_nil] at hfirst
    refine reaches_bind (reaches_read h hfirst) fun made => ?_
    exact reaches_aside (fun _ => rfl) (fun _ => rfl) fun _ => rfl
  · simp only [hitems, Bool.false_eq_true, if_false, List.append_nil]
    exact reaches_pure fun _ hs => hs

theorem reaches_fillAdditional (h : ReadsWell defs order read)
    (hthrough : ∀ before entry after, before ++ entry :: after = nestedAdditional members →
      Through defs (f.at owned (done ++ before)) entry.2) :
    Reaches order (Filled defs order owned f rest id done)
      (fun _ => Filled defs order owned f rest id (done ++ nestedAdditional members))
      (fillAdditional read trail id members) := by
  unfold fillAdditional
  unfold nestedAdditional at *
  have hskip : Reaches order (Filled defs order owned f rest id done)
      (fun _ => Filled defs order owned f rest id (done ++ [])) (pure () : ReadingM Unit) := by
    rw [List.append_nil]
    exact reaches_pure fun _ hs => hs
  cases hshape : Json.field members "additionalProperties" with
  | obj shape =>
    rw [hshape] at hthrough
    have hfirst := hthrough [] (.aside, .obj shape) [] rfl
    rw [List.append_nil] at hfirst
    refine reaches_bind (reaches_read h hfirst) fun made => ?_
    cases made with
    | none => exact reaches_pure fun s hs => hs.skip fun key => not_gives_aside
    | some child => exact reaches_aside (fun _ => rfl) (fun _ => rfl) fun _ => rfl
  | bool yes =>
    cases yes with
    | true =>
      refine reaches_change (fun _ => rfl) fun s hs => ?_
      rw [List.append_nil]
      exact hs.change (fun _ => rfl) (fun _ => rfl) fun _ => rfl
    | false => exact hskip
  | _ => exact hskip

theorem reaches_fillProperties (h : ReadsWell defs order read)
    (hthrough : ∀ before entry after, before ++ entry :: after = nestedProperties members →
      Through defs (f.at owned (done ++ before)) entry.2) :
    Reaches order (Filled defs order owned f rest id done)
      (fun _ => Filled defs order owned f rest id (done ++ nestedProperties members))
      (fillProperties read trail id members) := by
  refine reaches_lift_bind fun properties hproperties => ?_
  rw [nestedProperties_eq hproperties] at hthrough ⊢
  have hloop := reaches_forIn order (fun before => Filled defs order owned f rest id
    (done ++ before.map fun property => (.property property.1, property.2)))
    (readProperty read trail id) properties
  simp only [List.map_nil, List.append_nil] at hloop
  apply hloop
  intro before property after hsplit
  rw [List.map_append, ← List.append_assoc]
  apply reaches_readProperty h
  refine hthrough _ (.property property.1, property.2)
    (after.map fun property => (.property property.1, property.2)) ?_
  rw [← hsplit, List.map_append, List.map_cons]

theorem reaches_fillParts (h : ReadsWell defs order read)
    (hthrough : ∀ before entry after, before ++ entry :: after = nestedParts members →
      Through defs (f.at owned (done ++ before)) entry.2) :
    Reaches order (Filled defs order owned f rest id done)
      (fun _ => Filled defs order owned f rest id (done ++ nestedParts members))
      (fillParts read trail id members) := by
  refine reaches_lift_bind fun parts hparts => ?_
  rw [nestedParts_eq hparts] at hthrough ⊢
  have hloop := reaches_forIn order (fun before => Filled defs order owned f rest id
    (done ++ before.map fun part => (.part, part))) (readPart read trail id) parts
  simp only [List.map_nil, List.append_nil] at hloop
  apply hloop
  intro before part after hsplit
  rw [List.map_append, ← List.append_assoc]
  apply reaches_readPart h
  refine hthrough _ (.part, part) (after.map fun part => (.part, part)) ?_
  rw [← hsplit, List.map_append, List.map_cons]

/-- A node that has been filled has what all the schemas in its shape give it. -/
theorem reaches_fill (h : ReadsWell defs order read)
    (hthrough : ∀ before entry after, before ++ entry :: after = nested members →
      Through defs (f.at owned before) entry.2) :
    Reaches order (Filled defs order owned f rest id [])
      (fun _ => Filled defs order owned f rest id (nested members))
      (fill read trail id members) := by
  rw [fill_eq]
  refine reaches_bind reaches_fillKeywords fun _ =>
    reaches_bind (reaches_fillItems h ?items) fun _ =>
    reaches_bind (reaches_fillAdditional h ?additional) fun _ =>
    reaches_bind reaches_fillRequired fun _ =>
    reaches_bind (reaches_fillProperties h ?properties) fun _ =>
    reaches_bind (reaches_fillParts h ?parts) fun _ => ?settle
  case items =>
    intro before entry after hsplit
    refine hthrough _ entry (after ++ nestedAdditional members ++ nestedProperties members
      ++ nestedParts members) ?_
    simp [nested, ← hsplit]
  case additional =>
    intro before entry after hsplit
    refine hthrough _ entry (after ++ nestedProperties members ++ nestedParts members) ?_
    simp [nested, ← hsplit]
  case properties =>
    intro before entry after hsplit
    refine hthrough _ entry (after ++ nestedParts members) ?_
    simp [nested, ← hsplit]
  case parts =>
    intro before entry after hsplit
    refine hthrough _ entry after ?_
    simp [nested, ← hsplit]
  case settle =>
    have hsame : ∀ node, (settleKinds node).properties = node.properties
        ∧ (settleKinds node).typeName = node.typeName
        ∧ (settleKinds node).reference = node.reference := by
      intro node
      obtain ⟨kinds, hsettled⟩ := settleKinds_eq node
      rw [hsettled]
      exact ⟨rfl, rfl, rfl⟩
    refine reaches_change (fun node => (hsame node).2.1) fun s hs => ?_
    apply hs.change (fun node => (hsame node).2.1) fun node => (hsame node).2.2
    intro node
    unfold Node.names
    rw [(hsame node).1]

end Filling

end ApiClients.Reading
