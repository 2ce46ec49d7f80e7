import ApiClients.Proofs.Discovery
import ApiClients.Proofs.Reachability
import ApiClients.Proofs.ReadingOperations

/-!
# Open and settled definitions

While a document is read some definitions are open: their nodes are there, but what they say is
still being put in.  A definition that is not open is settled.  The node of a settled definition has
the properties that the definition gets in the end, and that of an open one those which the schemas
gone through so far give it.  All this is said for an order in which the definitions are met in the
end (`Standing`); by it the open definitions are exactly those that lead to the one which is being
read at the moment.
-/

namespace ApiClients.Reading

theorem mem_names_absorb {node part : Node} {key : String} :
    key ∈ (absorb node part).names ↔ key ∈ node.names ∨ key ∈ part.names := by
  suffices hfold : ∀ (more properties : List (String × NodeId)),
      key ∈ (more.foldl (fun ps p => Entries.putNew ps p.1 p.2) properties).map (·.1)
        ↔ key ∈ properties.map (·.1) ∨ key ∈ more.map (·.1) from hfold _ _
  intro more
  induction more with
  | nil => simp
  | cons property more ih =>
    intro properties
    rw [List.foldl_cons, ih, Entries.mem_keys_putNew, List.map_cons, List.mem_cons, or_assoc,
      or_left_comm]

/-! ### Definitions that are being read -/

/-- A definition that is being read, and what of it has been gone through. -/
structure Frame where
  name : Json
  done : List (Role × Json)

def namesOf (opened : List Frame) : List Json := opened.map (·.name)

section

variable (defs : List (Json × Json)) (order : List Json)

/-- The schema that comes next in a definition. -/
def Frame.Next (f : Frame) (child : Json) : Prop :=
  ∃ data role, Entries.get? defs f.name = some data ∧ f.done ++ [(role, child)] <+: contents data

/-- A definition that another one refers to has been met, and if it was met after the other one then
it is not open any more. -/
def Reached (opened : List Json) (s : Reading) (name target : Json) : Prop :=
  (∃ id, Entries.get? s.named target = some id) ∧ (Before order name target → target ∉ opened)

/-- The node of a definition is as it will stay. -/
structure Settled (opened : List Json) (s : Reading) (name : Json) (id : NodeId) : Prop where
  aliased : ∀ {ref}, Entries.get? defs name = some (.obj [("$ref", ref)]) → ∃ text target,
    ref = .str text ∧ Entries.get? s.named (.str (Json.refName text)) = some target
      ∧ (s.graph.node id).reference = if target = id then none else some target
  plain : (∀ ref, Entries.get? defs name ≠ some (.obj [("$ref", ref)])) →
    (s.graph.node id).reference = none
  names : ∀ {key}, key ∈ (s.graph.node id).names ↔ Gets defs order name none key
  refers : ∀ {target}, Refers defs name target → Reached order opened s name target

/-- The node of a definition is as far as the definition has been gone through. -/
structure Underway (opened : List Json) (s : Reading) (f : Frame) (id : NodeId) : Prop where
  reference : (s.graph.node id).reference = none
  names : ∀ {key}, key ∈ (s.graph.node id).names ↔ Gives defs order f.name f.done key
  refers : ∀ {entry target}, entry ∈ f.done → Mentions entry.2 target →
    Reached order opened s f.name target

/-- What holds while some definitions are open, of which the first is being read at the moment. -/
structure Standing (opened : List Frame) (s : Reading) : Prop where
  sound : s.Sound
  definitions : defs <+: s.definitions
  distinct : order.Nodup
  met : s.named.map (·.1) <+: order
  leads : ∀ head ∈ opened.head?, ∀ f ∈ opened.tail,
    ∃ child, f.Next defs child ∧ LeadsOn defs order f.name child head.name
  underway : ∀ f ∈ opened,
    ∃ id, Entries.get? s.named f.name = some id ∧ Underway defs order (namesOf opened) s f id
  settled : ∀ {name id}, Entries.get? s.named name = some id → name ∉ namesOf opened →
    Settled defs order (namesOf opened) s name id

end

/-! ### What stays -/

section Keeping

variable {defs : List (Json × Json)} {order opened later : List Json} {s t : Reading}
  {name target : Json} {id : NodeId} {f : Frame}

theorem Reached.keep (h : Reached order opened s name target) (hnamed : s.named <+: t.named)
    (hlater : ∀ other id, Entries.get? s.named other = some id → other ∉ opened → other ∉ later) :
    Reached order later t name target := by
  obtain ⟨⟨id, hid⟩, hbehind⟩ := h
  constructor
  · exact ⟨id, get?_mono hnamed hid⟩
  · exact fun hbefore => hlater target id hid (hbehind hbefore)

theorem Settled.keep (h : Settled defs order opened s name id) (hnamed : s.named <+: t.named)
    (hnode : t.graph.node id = s.graph.node id)
    (hlater : ∀ other id, Entries.get? s.named other = some id → other ∉ opened → other ∉ later) :
    Settled defs order later t name id where
  aliased hdef := by
    obtain ⟨text, target, href, htarget, hreference⟩ := h.aliased hdef
    exact ⟨text, target, href, get?_mono hnamed htarget, hnode ▸ hreference⟩
  plain hdef := hnode ▸ h.plain hdef
  names := by
    rw [hnode]
    exact h.names
  refers htarget := (h.refers htarget).keep hnamed hlater

theorem Underway.keep (h : Underway defs order opened s f id) (hnamed : s.named <+: t.named)
    (hnode : t.graph.node id = s.graph.node id)
    (hlater : ∀ other id, Entries.get? s.named other = some id → other ∉ opened → other ∉ later) :
    Underway defs order later t f id where
  reference := hnode ▸ h.reference
  names := by
    rw [hnode]
    exact h.names
  refers hentry htarget := (h.refers hentry htarget).keep hnamed hlater

end Keeping

theorem Sound.unique {s : Reading} (h : s.Sound) {name other : Json} {id : NodeId}
    (hname : Entries.get? s.named name = some id) (hother : Entries.get? s.named other = some id) :
    name = other :=
  (h.known hname).2.symm.trans (h.known hother).2

section Standing

variable {defs : List (Json × Json)} {order : List Json} {opened rest : List Frame}
  {s t : Reading} {name target : Json} {id : NodeId} {f g : Frame}

theorem Standing.underway_node (hs : Standing defs order opened s) (hf : f ∈ opened)
    (hid : Entries.get? s.named f.name = some id) :
    Underway defs order (namesOf opened) s f id := by
  obtain ⟨other, hother, hunderway⟩ := hs.underway f hf
  rw [hid] at hother
  cases hother
  exact hunderway

/-- A change that leaves the nodes of definitions alone. -/
theorem Standing.keep (hs : Standing defs order opened s) (hsound : t.Sound)
    (hdefinitions : s.definitions <+: t.definitions) (hnamed : t.named = s.named)
    (hkept : ∀ {name id}, Entries.get? s.named name = some id →
      t.graph.node id = s.graph.node id) : Standing defs order opened t where
  sound := hsound
  definitions := hs.definitions.trans hdefinitions
  distinct := hs.distinct
  met := hnamed ▸ hs.met
  leads := hs.leads
  underway g hg := by
    obtain ⟨id, hid, hunderway⟩ := hs.underway g hg
    refine ⟨id, hnamed ▸ hid, ?_⟩
    exact hunderway.keep (hnamed ▸ List.prefix_rfl) (hkept hid) fun _ _ _ h => h
  settled := by
    intro name id hname hopened
    rw [hnamed] at hname
    exact (hs.settled hname hopened).keep (hnamed ▸ List.prefix_rfl) (hkept hname) fun _ _ _ h => h

theorem Standing.push (hs : Standing defs order opened s) {node : Node}
    (hnode : node.typeName = .null) :
    Standing defs order opened { s with graph := s.graph.push node } := by
  apply hs.keep (hs.sound.push hnode) List.prefix_rfl rfl
  intro name id hname
  exact Graph.node_push_of_lt _ _ (hs.sound.known hname).1

theorem Standing.note (hs : Standing defs order opened s) (journal : Journal) :
    Standing defs order opened { s with journal := journal } :=
  hs.keep (hs.sound.note journal) List.prefix_rfl rfl fun _ => rfl

/-- Changes of nodes that belong to no definition. -/
theorem Standing.change (hs : Standing defs order opened s) (hunowned : s.Unowned id)
    {f : Node → Node} (hf : ∀ node, (f node).typeName = node.typeName) :
    Standing defs order opened { s with graph := s.graph.modify id f } := by
  apply hs.keep (hs.sound.change hf) List.prefix_rfl rfl
  intro name other hother
  apply Graph.node_modify_of_ne
  rintro rfl
  exact hunowned name hother

/-! ### Open definitions lead to the one that is being read -/

theorem Frame.Next.refers {child : Json} (h : f.Next defs child) (htarget : Mentions child target) :
    Refers defs f.name target := by
  obtain ⟨data, role, hdef, hprefix⟩ := h
  exact ⟨data, hdef, (role, child), hprefix.subset (by simp), htarget⟩

theorem Standing.leadsTo (hs : Standing defs order (f :: rest) s) (hg : g ∈ rest) :
    LeadsTo defs order g.name f.name ∧ Before order g.name f.name := by
  obtain ⟨child, hnext, next, hmentions, hbefore, hleads⟩ := hs.leads f rfl g hg
  constructor
  · exact .head ⟨hnext.refers hmentions, hbefore⟩ hleads
  · rcases hleads.before hs.distinct with rfl | hbetween
    · exact hbefore
    · exact hbefore.trans hs.distinct hbetween

theorem Standing.leadsTo_of_mem (hs : Standing defs order (f :: rest) s)
    (hname : name ∈ namesOf (f :: rest)) : LeadsTo defs order name f.name := by
  obtain ⟨g, hg, rfl⟩ := List.mem_map.mp hname
  rcases List.mem_cons.mp hg with rfl | hg
  · exact .refl
  · exact (hs.leadsTo hg).1

theorem Standing.not_mem_of_before (hs : Standing defs order (f :: rest) s)
    (h : Before order f.name name) : name ∉ namesOf (f :: rest) := by
  intro hname
  rcases (hs.leadsTo_of_mem hname).before hs.distinct with rfl | hbefore
  · exact h.irrefl hs.distinct
  · exact (h.trans hs.distinct hbefore).irrefl hs.distinct

theorem Standing.name_ne (hs : Standing defs order (f :: rest) s) (hg : g ∈ rest) :
    g.name ≠ f.name := by
  intro hsame
  have hbefore := (hs.leadsTo hg).2
  rw [hsame] at hbefore
  exact hbefore.irrefl hs.distinct

/-- What a settled definition leads to is settled too. -/
theorem Standing.settled_of_leadsTo (hs : Standing defs order opened s)
    (h : LeadsTo defs order name target) (hname : ∃ id, Entries.get? s.named name = some id)
    (hclosed : name ∉ namesOf opened) :
    (∃ id, Entries.get? s.named target = some id) ∧ target ∉ namesOf opened := by
  induction h with
  | refl => exact ⟨hname, hclosed⟩
  | tail _ hlast ih =>
    obtain ⟨⟨id, hid⟩, hclosed⟩ := ih
    obtain ⟨hmet, hbehind⟩ := (hs.settled hid hclosed).refers hlast.1
    exact ⟨hmet, hbehind hlast.2⟩

theorem Standing.not_leadsTo (hs : Standing defs order (f :: rest) s)
    (hname : ∃ id, Entries.get? s.named name = some id) (hclosed : name ∉ namesOf (f :: rest)) :
    ¬ LeadsTo defs order name f.name := by
  intro hleads
  exact (hs.settled_of_leadsTo hleads hname hclosed).2 (by simp [namesOf])

/-- What an open definition has is what it gets by the time the one that is being read is met. -/
theorem Standing.gets_early (hs : Standing defs order (f :: rest) s) (hg : g ∈ rest)
    {key : String} :
    Gets defs order g.name (some f.name) key ↔ Gives defs order g.name g.done key := by
  obtain ⟨child, ⟨data, role, hdef, hnext⟩, hleads⟩ := hs.leads f rfl g hg
  obtain ⟨id, -, hunderway⟩ := hs.underway g (List.mem_cons_of_mem f hg)
  rw [gets_iff]
  constructor
  · rintro ⟨data', done, hdef', ⟨hdone, hpassed⟩, hgives⟩
    rw [hdef] at hdef'
    cases hdef'
    refine hgives.mono (List.IsPrefix.subset ?_)
    rcases List.prefix_or_prefix_of_prefix hdone hnext with hshort | hlong
    · rcases List.prefix_concat_iff.mp hshort with heq | hshort
      · have hmem : (role, child) ∈ done := by simp [heq]
        exact absurd hleads (hpassed _ rfl _ hmem)
      · exact hshort
    · have hmem : (role, child) ∈ done := hlong.subset (by simp)
      exact absurd hleads (hpassed _ rfl _ hmem)
  · intro hgives
    refine ⟨data, g.done, hdef, ⟨(List.prefix_append _ _).trans hnext, ?_⟩, hgives⟩
    rintro _ ⟨⟩ entry hentry ⟨next, hmentions, hbefore, hlead⟩
    obtain ⟨hmet, hbehind⟩ := hunderway.refers hentry hmentions
    exact hs.not_leadsTo hmet (hbehind hbefore) hlead

end Standing

/-! ### What a definition comes to -/

section Chains

variable {defs : List (Json × Json)} {order : List Json} {opened : List Frame}
  {s : Reading} {name last link : Json} {id : NodeId}

/-- Steps from settled definitions along those that are nothing but references. -/
def Chain (defs : List (Json × Json)) (opened : List Frame) : Json → Json → Prop :=
  Relation.ReflTransGen fun name next => Alias defs name next ∧ name ∉ namesOf opened

theorem Chain.comesTo (h : Chain defs opened name last) : ComesTo defs name last := by
  induction h with
  | refl => exact .refl
  | tail _ hlast ih => exact .tail ih hlast.1

theorem Standing.next_of_alias (hs : Standing defs order opened s)
    (hid : Entries.get? s.named name = some id) (hopened : name ∉ namesOf opened)
    (halias : Alias defs name link) : ∃ next, Entries.get? s.named link = some next
      ∧ (s.graph.node id).reference = if next = id then none else some next := by
  obtain ⟨ref, hdef, rfl⟩ := halias
  obtain ⟨text, next, href, hnext, hreference⟩ := (hs.settled hid hopened).aliased hdef
  cases href
  exact ⟨next, hnext, hreference⟩

theorem Standing.reference_of_end (hs : Standing defs order opened s)
    (hid : Entries.get? s.named last = some id) (hend : ∀ other, ¬ Alias defs last other) :
    (s.graph.node id).reference = none := by
  by_cases hopened : last ∈ namesOf opened
  · obtain ⟨f, hf, rfl⟩ := List.mem_map.mp hopened
    exact (hs.underway_node hf hid).reference
  · apply (hs.settled hid hopened).plain
    intro ref hdef
    obtain ⟨text, -, rfl, -⟩ := (hs.settled hid hopened).aliased hdef
    exact hend _ ⟨text, hdef, rfl⟩

/-- References do not lead out of the nodes of what a definition comes to. -/
theorem Standing.chain_next (hs : Standing defs order opened s) (id next : NodeId)
    (hid : ∃ link, Chain defs opened name link ∧ Entries.get? s.named link = some id)
    (hnext : (s.graph.node id).reference = some next) :
    ∃ link, Chain defs opened name link ∧ Entries.get? s.named link = some next := by
  obtain ⟨link, hlink, hid⟩ := hid
  by_cases halias : ∃ other, Alias defs link other
  · obtain ⟨other, halias⟩ := halias
    by_cases hopened : link ∈ namesOf opened
    · obtain ⟨f, hf, rfl⟩ := List.mem_map.mp hopened
      simp [(hs.underway_node hf hid).reference] at hnext
    · obtain ⟨target, htarget, hreference⟩ := hs.next_of_alias hid hopened halias
      rw [hreference, Option.ite_none_left_eq_some] at hnext
      cases hnext.2
      exact ⟨other, .tail hlink ⟨halias, hopened⟩, htarget⟩
  · rw [hs.reference_of_end hid fun other h => halias ⟨other, h⟩] at hnext
    cases hnext

/-- The node that carries the shape of a definition is that of a definition it comes to. -/
theorem Standing.actual_of_chain (hs : Standing defs order opened s)
    (hid : Entries.get? s.named name = some id) :
    ∃ link, Chain defs opened name link ∧ Entries.get? s.named link = some (s.graph.actual id) :=
  Graph.follow_mem hs.chain_next [] ⟨name, .refl, hid⟩

/-- It is that of the definition it ends in, if those on the way are settled. -/
theorem Standing.actual_of_endsIn (hs : Standing defs order opened s)
    (hid : Entries.get? s.named name = some id) (hlast : EndsIn defs name last)
    (hlinks : ∀ link, ComesTo defs name link → link ∈ namesOf opened → link = last) :
    Entries.get? s.named last = some (s.graph.actual id) := by
  obtain ⟨hcomes, hend⟩ := hlast
  suffices hpath : ∃ other, Entries.get? s.named last = some other
      ∧ Relation.ReflTransGen s.graph.StandsFor id other by
    obtain ⟨other, hother, hpath⟩ := hpath
    rw [Graph.actual_of_end hpath (hs.reference_of_end hother hend)]
    exact hother
  induction hcomes using Relation.ReflTransGen.head_induction_on generalizing id with
  | refl => exact ⟨id, hid, .refl⟩
  | @head name next halias hrest ih =>
    have hopened : name ∉ namesOf opened := by
      intro hopened
      rw [hlinks name .refl hopened] at halias
      exact hend next halias
    obtain ⟨target, htarget, hreference⟩ := hs.next_of_alias hid hopened halias
    obtain ⟨other, hother, hpath⟩ := ih htarget fun link hlink => hlinks link (.head halias hlink)
    refine ⟨other, hother, ?_⟩
    by_cases hsame : target = id
    · rw [← hsame]
      exact hpath
    · rw [if_neg hsame] at hreference
      exact .head hreference hpath

/-- What comes off a chain is met and settled, or it lies behind the end of the chain. -/
theorem Standing.chain_cases (hs : Standing defs order opened s)
    (hid : Entries.get? s.named name = some id) (hchain : Chain defs opened name last)
    (hlink : ComesTo defs name link) :
    ((∃ id, Entries.get? s.named link = some id) ∧ link ∉ namesOf opened)
      ∨ ComesTo defs last link := by
  induction hchain using Relation.ReflTransGen.head_induction_on generalizing id with
  | refl => exact Or.inr hlink
  | head hfirst _ ih =>
    rcases Relation.ReflTransGen.cases_head hlink with rfl | ⟨next, halias, hrest⟩
    · exact Or.inl ⟨⟨id, hid⟩, hfirst.2⟩
    · obtain ⟨target, htarget, -⟩ := hs.next_of_alias hid hfirst.2 hfirst.1
      rw [← hfirst.1.unique halias] at hrest
      exact ih htarget hrest

end Chains

/-! ### What the node of a definition has -/

/-- Some names are those of the properties that are given, except that some that are known anyway
may be among them. -/
def Shows (given known : String → Prop) (names : List String) : Prop :=
  (∀ key, given key → key ∈ names) ∧ ∀ key ∈ names, given key ∨ known key

/-- The node of a definition has a property. -/
def Known (s : Reading) (name : Json) (key : String) : Prop :=
  ∃ id, Entries.get? s.named name = some id ∧ key ∈ (s.graph.node id).names

section Showing

variable {defs : List (Json × Json)} {order : List Json} {rest : List Frame}
  {s : Reading} {name : Json} {id : NodeId} {f : Frame}

/-- A part that stands for a definition gives what the definition takes from it. -/
theorem Standing.shows (hs : Standing defs order (f :: rest) s)
    (hid : Entries.get? s.named name = some id) :
    Shows (Takes defs order f.name name) (Known s f.name) (s.graph.actualNode id).names := by
  constructor
  · rintro key ⟨last, taking, hlast, hlinks, htaking, hgets⟩
    have hactual := hs.actual_of_endsIn hid hlast fun link hlink hopened =>
      hlinks link hlink (hs.leadsTo_of_mem hopened)
    unfold Graph.actualNode
    cases htaking with
    | whole hleads =>
      have hclosed : last ∉ namesOf (f :: rest) := fun h => hleads (hs.leadsTo_of_mem h)
      exact (hs.settled hactual hclosed).names.mpr hgets
    | early hleads hother =>
      have hopened : last ∈ namesOf (f :: rest) := by
        by_contra hclosed
        exact hs.not_leadsTo ⟨_, hactual⟩ hclosed hleads
      obtain ⟨g, hg, rfl⟩ := List.mem_map.mp hopened
      have hunderway := hs.underway_node hg hactual
      rcases List.mem_cons.mp hg with rfl | hg
      · exact absurd rfl hother
      · exact hunderway.names.mpr ((hs.gets_early hg).mp hgets)
  · intro key hkey
    obtain ⟨last, hchain, hactual⟩ := hs.actual_of_chain hid
    have htakes : ∀ {taking}, Taking defs order f.name last taking →
        Gets defs order last taking key → Takes defs order f.name name key := by
      intro taking htaking hgets
      have hend : ∀ other, ¬ Alias defs last other := fun other => hgets.not_alias
      refine ⟨last, taking, ⟨hchain.comesTo, hend⟩, ?_, htaking, hgets⟩
      intro link hlink hleads
      rcases hs.chain_cases hid hchain hlink with ⟨hmet, hclosed⟩ | hbehind
      · exact absurd hleads (hs.not_leadsTo hmet hclosed)
      · exact (hbehind.eq_of_not_alias hend).symm
    by_cases hopened : last ∈ namesOf (f :: rest)
    · obtain ⟨g, hg, rfl⟩ := List.mem_map.mp hopened
      have hunderway := hs.underway_node hg hactual
      rcases List.mem_cons.mp hg with rfl | hg
      · exact Or.inr ⟨_, hactual, hkey⟩
      · refine Or.inl (htakes (.early (hs.leadsTo hg).1 (hs.name_ne hg)) ?_)
        exact (hs.gets_early hg).mpr (hunderway.names.mp hkey)
    · refine Or.inl (htakes (.whole ?_) ((hs.settled hactual hopened).names.mp hkey))
      exact hs.not_leadsTo ⟨_, hactual⟩ hopened

/-- Where no definition is open any more, what carries the shape of a definition has what the
definition that it ends in gets in the end. -/
theorem Standing.mem_names_actual (hs : Standing defs order [] s)
    (hid : Entries.get? s.named name = some id) {key : String} :
    key ∈ (s.graph.actualNode id).names
      ↔ ∃ last, EndsIn defs name last ∧ Gets defs order last none key := by
  constructor
  · intro hkey
    obtain ⟨last, hchain, hactual⟩ := hs.actual_of_chain hid
    have hgets := (hs.settled hactual (by simp [namesOf])).names.mp hkey
    exact ⟨last, ⟨hchain.comesTo, fun other => hgets.not_alias⟩, hgets⟩
  · rintro ⟨last, hlast, hgets⟩
    have hactual := hs.actual_of_endsIn hid hlast (by simp [namesOf])
    exact (hs.settled hactual (by simp [namesOf])).names.mpr hgets

end Showing

/-! ### Entering and leaving a definition -/

theorem Sound.node_modify_of_ne {s : Reading} (h : s.Sound) {name other : Json} {id target : NodeId}
    (hname : Entries.get? s.named name = some id)
    (hother : Entries.get? s.named other = some target) (hne : other ≠ name) (f : Node → Node) :
    (s.graph.modify id f).node target = s.graph.node target := by
  apply Graph.node_modify_of_ne
  rintro rfl
  exact hne (h.unique hother hname)

section Entering

variable {defs : List (Json × Json)} {order : List Json} {opened rest : List Frame}
  {s t : Reading} {name : Json} {id : NodeId} {f : Frame}

theorem Standing.leads_enter (hs : Standing defs order opened s)
    (hmet : (s.enter name).named.map (·.1) <+: order)
    (hhead : ∀ head ∈ opened.head?, ∃ child, head.Next defs child ∧ Mentions child name) :
    ∀ f ∈ opened, ∃ child, f.Next defs child ∧ LeadsOn defs order f.name child name := by
  cases opened with
  | nil => simp
  | cons head rest =>
    obtain ⟨child, hnext, hmentions⟩ := hhead head rfl
    obtain ⟨id, hid, -⟩ := hs.underway head List.mem_cons_self
    have hmem : head.name ∈ s.named.map (·.1) :=
      Entries.has_iff.mp (Entries.has_iff_get?.mpr ⟨id, hid⟩)
    have hbefore : Before order head.name name := by
      have hlast : (s.enter name).named.map (·.1) = s.named.map (·.1) ++ [name] :=
        List.map_append
      rw [hlast] at hmet
      exact List.Sublist.trans (before_append hmem (List.mem_singleton.mpr rfl)) hmet.sublist
    intro f hf
    rcases List.mem_cons.mp hf with rfl | hf
    · exact ⟨child, hnext, name, hmentions, hbefore, .refl⟩
    · obtain ⟨other, hother, hleads⟩ := hs.leads head rfl f hf
      exact ⟨other, hother, hleads.step (hnext.refers hmentions) hbefore⟩

theorem Standing.enter (hs : Standing defs order opened s)
    (hname : Entries.get? s.named name = none)
    (hmet : (s.enter name).named.map (·.1) <+: order)
    (hhead : ∀ head ∈ opened.head?, ∃ child, head.Next defs child ∧ Mentions child name) :
    Standing defs order (⟨name, []⟩ :: opened) (s.enter name) := by
  have hgrows := (hs.sound.after.enter hname).2
  have hlater : ∀ other id, Entries.get? s.named other = some id → other ∉ namesOf opened →
      other ∉ namesOf (⟨name, []⟩ :: opened) := by
    intro other id hother hopened hmem
    rcases List.mem_cons.mp hmem with rfl | hmem
    · simp [hname] at hother
    · exact hopened hmem
  have hself : Entries.get? (s.enter name).named name = some s.graph.size := by
    rw [get?_named_enter, hname, if_pos rfl, Option.none_or]
  have hnode := s.node_enter name
  refine ⟨hs.sound.enter hname, hs.definitions, hs.distinct, hmet, ?leads, ?underway, ?settled⟩
  case leads =>
    rintro _ ⟨⟩
    exact hs.leads_enter hmet hhead
  case underway =>
    intro f hf
    rcases List.mem_cons.mp hf with rfl | hf
    · refine ⟨s.graph.size, hself, ?_, ?_, ?_⟩
      · rw [hnode]
      · intro key
        rw [hnode]
        exact iff_of_false List.not_mem_nil not_gives_nil
      · intro entry target hentry
        cases hentry
    · obtain ⟨id, hid, hunderway⟩ := hs.underway f hf
      refine ⟨id, hgrows.get? hid, ?_⟩
      exact hunderway.keep hgrows.named (hgrows.kept id (hs.sound.known hid).1) hlater
  case settled =>
    intro other id hother hclosed
    rw [get?_named_enter, Option.or_eq_some_iff] at hother
    rcases hother with hold | ⟨-, hnew⟩
    · refine (hs.settled hold fun hmem => hclosed (List.mem_cons_of_mem name hmem)).keep
        hgrows.named ?_ hlater
      exact hgrows.kept id (hs.sound.known hold).1
    · -- a new name is that of the definition that has been entered
      rw [Option.ite_none_right_eq_some] at hnew
      exact absurd (hnew.1 ▸ List.mem_cons_self) hclosed

/-- The definition that is being read has gone further. -/
theorem Standing.advance (hs : Standing defs order (f :: rest) s)
    (hid : Entries.get? s.named f.name = some id) {change : Node → Node}
    (htypeName : ∀ node, (change node).typeName = node.typeName)
    (hreference : ∀ node, (change node).reference = node.reference) {done : List (Role × Json)}
    (hnames : ∀ key,
      key ∈ (change (s.graph.node id)).names ↔ Gives defs order f.name done key)
    (hrefers : ∀ {entry target}, entry ∈ done → Mentions entry.2 target →
      Reached order (namesOf (f :: rest)) s f.name target) :
    Standing defs order (⟨f.name, done⟩ :: rest)
      { s with graph := s.graph.modify id change } := by
  have hself : (s.graph.modify id change).node id = change (s.graph.node id) :=
    Graph.node_modify_self _ _ (hs.sound.known hid).1
  refine ⟨hs.sound.change htypeName, hs.definitions, hs.distinct, hs.met, ?_, ?_, ?_⟩
  · rintro _ ⟨⟩
    exact hs.leads f rfl
  · intro g hg
    rcases List.mem_cons.mp hg with rfl | hg
    · have hunderway := hs.underway_node List.mem_cons_self hid
      refine ⟨id, hid, ?_, ?_, hrefers⟩
      · show ((s.graph.modify id change).node id).reference = none
        rw [hself, hreference, hunderway.reference]
      · intro key
        show key ∈ ((s.graph.modify id change).node id).names ↔ _
        rw [hself]
        exact hnames key
    · obtain ⟨other, hother, hunderway⟩ := hs.underway g (List.mem_cons_of_mem f hg)
      refine ⟨other, hother, hunderway.keep List.prefix_rfl ?_ fun _ _ _ h => h⟩
      exact hs.sound.node_modify_of_ne hid hother (hs.name_ne hg) change
  · intro name other hother hclosed
    refine (hs.settled hother hclosed).keep List.prefix_rfl ?_ fun _ _ _ h => h
    refine hs.sound.node_modify_of_ne hid hother ?_ change
    rintro rfl
    exact hclosed List.mem_cons_self

/-- The definition that is being read has been read to the end. -/
theorem Standing.close (hs : Standing defs order opened s)
    (ht : Standing defs order (f :: opened) t) (hid : Entries.get? t.named f.name = some id)
    (change : Node → Node) (htypeName : ∀ node, (change node).typeName = node.typeName)
    (hsettled : Settled defs order (namesOf (f :: opened))
      { t with graph := t.graph.modify id change } f.name id) :
    Standing defs order opened { t with graph := t.graph.modify id change } := by
  have hlater : ∀ other id, Entries.get? t.named other = some id →
      other ∉ namesOf (f :: opened) → other ∉ namesOf opened :=
    fun other id _ hclosed hmem => hclosed (List.mem_cons_of_mem f.name hmem)
  refine ⟨ht.sound.change htypeName, ht.definitions, ht.distinct, ht.met, hs.leads, ?_, ?_⟩
  · intro g hg
    obtain ⟨other, hother, hunderway⟩ := ht.underway g (List.mem_cons_of_mem f hg)
    refine ⟨other, hother, hunderway.keep List.prefix_rfl ?_ hlater⟩
    exact ht.sound.node_modify_of_ne hid hother (ht.name_ne hg) change
  · intro name other hother hclosed
    by_cases hsame : name = f.name
    · subst hsame
      rw [hid] at hother
      cases hother
      exact hsettled.keep List.prefix_rfl rfl hlater
    · refine (ht.settled hother ?_).keep List.prefix_rfl ?_ hlater
      · simpa [namesOf, hsame] using hclosed
      · exact ht.sound.node_modify_of_ne hid hother hsame change

end Entering

end ApiClients.Reading
