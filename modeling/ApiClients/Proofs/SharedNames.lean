import ApiClients.Proofs.EmittedNames
import ApiClients.Proofs.EmittedTypes
import ApiClients.Proofs.Nullability
import ApiClients.Proofs.OrderedEntries
import ApiClients.Proofs.ShapeTypes

/-!
# Nodes under one emitted name

Nodes of one emitted name have one shape, in which nested definitions are told apart by what they are
called in the document.  So they have properties of the same names, whose types are spelled out alike
up to definitions that are called alike.  These definitions may be emitted under different names
though, where several shapes are called alike: the types of a property in the two nodes are the same
exactly when the definitions that it ends in share their emitted name (`shared_name_types`).  In the
graph of one document no two shapes are called alike, and the types are always the same
(`shared_name_of_read`).
-/

namespace ApiClients

/-! ### Types that show what they are made of -/

theorem Frame.around_injective (frame : Frame) : Function.Injective frame.around := by
  intro a b h
  have hlist := congrArg String.toList h
  simp only [Frame.around, String.toList_append, List.append_cancel_right_eq,
    List.append_cancel_left_eq] at hlist
  exact String.toList_inj.mp hlist

namespace Language

open Identifier

variable {language : Language}

/-- A type tells which definition it refers to, and the type of a container what it holds, with null
admitted or not. -/
structure Legible (language : Language) : Prop where
  name : ∀ {a b : String} {m n : Bool}, Word a.toList → Word b.toList →
    language.nullableIf m a = language.nullableIf n b → a = b
  sequence : ∀ (n : Bool),
    Function.Injective fun item => language.nullableIf n (language.sequenceOf item)
  dictionary : ∀ (n : Bool),
    Function.Injective fun value => language.nullableIf n (language.dictionaryOf value)

/-- A frame around a type makes it longer than the types that are marked in a way of their own. -/
theorem nullableIf_around_injective {frame : Frame}
    (hlong : ∀ type ∈ language.void :: language.valueTypes,
      type.utf8ByteSize < frame.before.utf8ByteSize)
    (nullable : Bool) : Function.Injective fun type =>
      language.nullableIf nullable (frame.around type) := by
  have hother : ∀ type, frame.around type ≠ language.void
      ∧ language.valueTypes.contains (frame.around type) = false := by
    intro type
    have hlength : frame.before.utf8ByteSize ≤ (frame.around type).utf8ByteSize := by
      simp only [Frame.around, String.utf8ByteSize_append]
      omega
    constructor
    · intro hvoid
      have := hlong _ List.mem_cons_self
      rw [← hvoid] at this
      omega
    · rw [← Bool.not_eq_true, List.contains_iff_mem]
      intro hvalue
      have := hlong _ (List.mem_cons_of_mem _ hvalue)
      omega
  intro a b h
  simp only [nullableIf, nullableOf, hother, if_false, Bool.or_false] at h
  split at h
  · split at h
    · exact frame.around_injective (language.nullable.around_injective h)
    · exact frame.around_injective h
  · exact frame.around_injective h

theorem legible_of (hmark : ∃ c ∈ language.nullable.after.toList, isWordChar c = false)
    (hsequence : ∀ type ∈ language.void :: language.valueTypes,
      type.utf8ByteSize < language.sequence.before.utf8ByteSize)
    (hdictionary : ∀ type ∈ language.void :: language.valueTypes,
      type.utf8ByteSize < language.dictionary.before.utf8ByteSize) : language.Legible := by
  refine ⟨?_, nullableIf_around_injective hsequence, nullableIf_around_injective hdictionary⟩
  intro a b m n ha hb h
  -- a mark does not stand in a name
  have hmarked : ∀ type, ¬ Word (language.nullable.around type).toList := by
    intro type hword
    obtain ⟨c, hc, hnot⟩ := hmark
    have hmem : c ∈ (language.nullable.around type).toList := by
      simp [Frame.around, hc]
    rw [hword c hmem] at hnot
    cases hnot
  rcases nullableIf_cases language m a with hfirst | hfirst <;>
    rcases nullableIf_cases language n b with hsecond | hsecond <;> rw [hfirst, hsecond] at h
  · exact h
  · exact absurd (h ▸ ha) (hmarked b)
  · exact absurd (h ▸ hb) (hmarked a)
  · exact language.nullable.around_injective h

theorem legible_of_known (h : language ∈ known) : language.Legible := by
  rcases List.mem_cons.mp h with rfl | h
  · exact legible_of ⟨'?', by decide, by decide⟩ (by decide +kernel) (by decide +kernel)
  · rcases List.mem_cons.mp h with rfl | h
    · exact legible_of ⟨'>', by decide, by decide⟩ (by decide +kernel) (by decide +kernel)
    · cases h

end Language

theorem Except.map_injective {ε α β : Type} {f : α → β} (hf : Function.Injective f) :
    Function.Injective (Except.map f : Except ε α → Except ε β) := by
  intro a b h
  cases a <;> cases b <;> simp_all [Except.map, hf.eq_iff]

/-- Two definitions in which one shape ends alike have the same name, if the shape has the same type
with either of them. -/
theorem Fingerprint.Ends.name_eq {language : Language} (hlegible : language.Legible) {name : Json}
    {fingerprint : Fingerprint} (hends : fingerprint.Ends name) {a b : String} {m n : Bool → Bool}
    (ha : Identifier.Word a.toList) (hb : Identifier.Word b.toList) {nullable : Bool} {file : String}
    (h : fingerprint.type language (fun yes => .ok (language.nullableIf (m yes) a)) nullable file =
      fingerprint.type language (fun yes => .ok (language.nullableIf (n yes) b)) nullable file) :
    a = b := by
  induction hends generalizing nullable file with
  | named =>
    rw [type, type, Except.ok.injEq] at h
    exact hlegible.name ha hb h
  | reference _ ih =>
    rw [type, type] at h
    exact ih h
  | item harray hitems ih =>
    rename_i items _ _
    have hsaid : items ≠ .unsaid := by
      rintro rfl
      cases hitems
    rw [type, type, if_pos harray, if_pos harray, if_neg hsaid, if_neg hsaid] at h
    exact ih (Except.map_injective (hlegible.sequence _) h)
  | value harray hfile hmap _ ih =>
    simp only [type, harray, hfile, hmap, if_true, if_false, Bool.false_eq_true] at h
    exact ih (Except.map_injective (hlegible.dictionary _) h)

/-! ### Nodes that have names -/

namespace Registry

section

variable {language : Language} {graph : Graph} {ids roots order : List NodeId} {s : Typing}
  {id : NodeId} {name : String}

/-- Naming a node names no other one. -/
theorem nameOf?_assign {other : NodeId}
    (h : (runStep (assign language graph id) s).2.registry.nameOf? other = some name) :
    other = id ∨ s.registry.nameOf? other = some name := by
  have hrun := assign_run language graph id s
  generalize runStep (assign language graph id) s = run at hrun h
  obtain ⟨outcome, t⟩ := run
  cases hrun with
  | known _ _ => exact .inr h
  | refused _ _ _ => exact .inr h
  | shared _ _ _ hname _ _ _ =>
    rw [nameOf?_share hname] at h
    split at h
    · exact .inl ‹_›
    · exact .inr h
  | fresh _ _ hname _ _ _ =>
    rw [nameOf?_emit _ _ hname] at h
    split at h
    · exact .inl ‹_›
    · exact .inr h

/-- The nodes that have names after some have been registered: those that had names before, and the
type definitions that the registered ones stand for. -/
theorem nameOf?_registerAll
    (h : (runStep (registerAll language graph ids) s).2.registry.nameOf? id = some name) :
    (∃ first ∈ ids, graph.actual first = id ∧ (graph.node id).isTypeDefinition = true)
      ∨ s.registry.nameOf? id = some name := by
  induction ids generalizing s with
  | nil => exact .inr h
  | cons first ids ih =>
    have hlater : ∀ {t : Typing},
        (runStep (registerAll language graph ids) t).2.registry.nameOf? id = some name →
          (∃ other ∈ first :: ids, graph.actual other = id
            ∧ (graph.node id).isTypeDefinition = true) ∨ t.registry.nameOf? id = some name := by
      intro t ht
      refine (ih ht).imp_left ?_
      rintro ⟨other, hother, hnamed⟩
      exact ⟨other, List.mem_cons_of_mem _ hother, hnamed⟩
    cases hdefinition : (graph.actualNode first).isTypeDefinition with
    | false =>
      rw [registerAll_cons_other hdefinition] at h
      exact hlater h
    | true =>
      have hassigned : ∀ {t : Typing} {outcome : Except Failure String},
          runStep (assign language graph (graph.actual first)) s = (outcome, t) →
            t.registry.nameOf? id = some name →
              (∃ other ∈ first :: ids, graph.actual other = id
                ∧ (graph.node id).isTypeDefinition = true) ∨ s.registry.nameOf? id = some name := by
        intro t outcome hrun ht
        refine (nameOf?_assign (by rw [hrun]; exact ht)).imp_left ?_
        rintro rfl
        exact ⟨first, List.mem_cons_self, rfl, hdefinition⟩
      rw [registerAll_cons_definition hdefinition, runStep_bind] at h
      rcases hrun : runStep (assign language graph (graph.actual first)) s with ⟨e | given, t⟩
      · rw [hrun] at h
        exact hassigned hrun h
      · rw [hrun] at h
        exact (hlater h).elim .inl (hassigned hrun)

theorem Consistent.register (h : s.registry.Consistent graph) :
    (runStep (Registry.register language graph ids) s).2.registry.Consistent graph :=
  (upholds_register (P := Consistent graph) (E := fun _ => True)
    (fun id _ _ ht => ⟨consistent_assign language id ht, fun _ _ => trivial⟩)
    (fun _ _ _ => trivial) s h).1

/-- What registering the type definitions within reach of some nodes leads to, in whatever order it
is done. -/
structure Complete (language : Language) (graph : Graph) (roots : List NodeId)
    (registry : Registry) : Prop where
  consistent : registry.Consistent graph
  spelled : registry.Spelled language graph
  /-- The nodes that have names are type definitions within reach. -/
  within : ∀ {id name}, registry.nameOf? id = some name → graph.Within roots id
  definition : ∀ {id name}, registry.nameOf? id = some name →
    graph.actual id = id ∧ (graph.node id).isTypeDefinition = true
  /-- The type definitions within reach have names. -/
  named : ∀ {id}, graph.Within roots id → graph.actual id = id →
    (graph.node id).isTypeDefinition = true → ∃ name, registry.nameOf? id = some name

theorem complete_of_register (horder : ∀ id, id ∈ order ↔ id ∈ graph.typeDefinitions roots)
    (h : runStep (register language graph order) {} = (.ok (), s)) :
    s.registry.Complete language graph roots := by
  have hall : runStep (registerAll language graph order) {} = (.ok (), s) := by
    rwa [runStep_register] at h
  have hnamed : ∀ {id name}, s.registry.nameOf? id = some name →
      ∃ first ∈ order, graph.actual first = id ∧ (graph.node id).isTypeDefinition = true := by
    intro id name hname
    rcases @nameOf?_registerAll language graph order {} id name (by rw [hall]; exact hname) with
      hgiven | hnone
    · exact hgiven
    · simp [nameOf?] at hnone
  have hconsistent := @Consistent.register language graph order {} (Consistent.empty graph)
  have hspelled := @Spelled.register language graph order {} (Spelled.empty language graph)
  rw [h] at hconsistent hspelled
  refine ⟨hconsistent, hspelled, ?_, ?_, ?_⟩
  · intro id name hname
    obtain ⟨first, hfirst, rfl, -⟩ := hnamed hname
    have hmet := (List.mem_filter.mp ((horder first).mp hfirst)).1
    exact (graph.within_of_mem_visit [] roots first hmet).actual
  · intro id name hname
    obtain ⟨first, -, rfl, hdefinition⟩ := hnamed hname
    exact ⟨graph.actual_actual first, hdefinition⟩
  · intro id hwithin hactual hdefinition
    have hlisted := (horder id).mpr (Graph.mem_typeDefinitions hwithin hdefinition)
    have hknows := knows_of_registerAll hall id hlisted
    unfold Knows Graph.actualNode at hknows
    rw [hactual] at hknows
    exact hknows hdefinition

end

end Registry

/-! ### One shape under one name -/

namespace Graph

variable {graph : Graph} {id : NodeId} {fingerprint : Fingerprint}

/-- A type definition that carries its own shape is spelled out part by part. -/
theorem spell_of_definition (hactual : graph.actual id = id)
    (hdefinition : (graph.node id).isTypeDefinition = true)
    (h : graph.fingerprint id = .ok fingerprint) :
    (graph.node id).reference = none
      ∧ spell (graph.nestedFingerprint [id] false) (graph.node id) = .ok fingerprint := by
  have hlt : id < graph.size := graph.lt_size_of_node_ne fun hempty => by
    rw [hempty] at hdefinition
    cases hdefinition
  rw [Graph.fingerprint, nestedFingerprint_of_spelled (Or.inr rfl), if_neg List.not_mem_nil,
    if_pos hlt] at h
  refine ⟨?_, h⟩
  cases href : (graph.node id).reference with
  | none => rfl
  | some target =>
    -- the chain of references would end in another node
    obtain ⟨part, hpart⟩ := spell_ok h ((Node.mem_parts_reference href).mpr rfl)
    obtain ⟨last, _, hchain, hlast, -, -⟩ := chain_of_ok [id] target hpart
    have hsame := (actual_of_end (hchain.head href) hlast).symm.trans hactual
    rw [hsame, href] at hlast
    cases hlast

/-- A property and its part of a fingerprint are found together. -/
theorem get?_spelled {inner : NodeId → Except Failure Fingerprint}
    {entries : List (String × NodeId)} {parts : List (String × Fingerprint)}
    (h : List.Forall₂ (fun entry part => part.1 = entry.1 ∧ inner entry.2 = .ok part.2)
      entries parts) (key : String) :
    (Entries.get? entries key).map inner = (Entries.get? parts key).map .ok := by
  induction h with
  | nil => rfl
  | @cons entry part _ _ hfirst _ ih =>
    unfold Entries.get? at ih ⊢
    by_cases hkey : entry.1 = key
    · simp [hfirst.1, hfirst.2, hkey]
    · simpa [hfirst.1, hkey] using ih

/-- What two type definitions of one shape have in common. -/
structure OneShape (graph : Graph) (x y : NodeId) : Prop where
  isNullable : (graph.node x).isNullable = (graph.node y).isNullable
  /-- Properties of one name are spelled out alike. -/
  properties : ∀ key,
    (Entries.get? (graph.node x).properties key).map (graph.nestedFingerprint [x] false) =
      (Entries.get? (graph.node y).properties key).map (graph.nestedFingerprint [y] false)
  spelled : ∀ {key c}, Entries.get? (graph.node x).properties key = some c →
    ∃ part, graph.nestedFingerprint [x] false c = .ok part

theorem oneShape_of_fingerprint {x y : NodeId}
    (hx : graph.actual x = x ∧ (graph.node x).isTypeDefinition = true)
    (hy : graph.actual y = y ∧ (graph.node y).isTypeDefinition = true)
    (h : graph.fingerprint x = .ok fingerprint) (h' : graph.fingerprint y = .ok fingerprint) :
    graph.OneShape x y := by
  obtain ⟨href, hspell⟩ := spell_of_definition hx.1 hx.2 h
  obtain ⟨href', hspell'⟩ := spell_of_definition hy.1 hy.2 h'
  obtain ⟨_, _, _, properties, rfl, -, -, hproperties⟩ := spell_parts href hspell
  obtain ⟨_, _, _, _, hsame, -, -, hproperties'⟩ := spell_parts href' hspell'
  obtain ⟨houtline, -, -, rfl⟩ := Fingerprint.shape.inj hsame
  have hget := get?_spelled (spellProperties_parts hproperties)
  have hget' := get?_spelled (spellProperties_parts hproperties')
  simp only [Entries.get?_sortByKey] at hget hget'
  refine ⟨?_, fun key => (hget key).trans (hget' key).symm, ?_⟩
  · have hkinds := congrArg Outline.kinds houtline
    have hnullable := congrArg Outline.nullable houtline
    simp only [outline] at hkinds hnullable
    simp only [Node.isNullable, hkinds, hnullable]
  · intro key c hc
    have hpart := hget key
    rw [hc, Option.map_some] at hpart
    obtain ⟨part, -, hpart⟩ := Option.map_eq_some_iff.mp hpart.symm
    exact ⟨part, hpart.symm⟩

end Graph

/-- The type of a node in a use, in a type resolver that has been frozen. -/
def frozenType (language : Language) (graph : Graph) (s : Typing) (id : NodeId) (usage : Usage) :
    Except Failure String :=
  (runStep ((Resolver.ofLanguage language).resolve graph (some id) usage)
    (runStep Registry.freeze s).2).1

namespace Registry

section

variable {language : Language} {graph : Graph} {roots : List NodeId} {s : Typing}
  {x y : NodeId} {name : String}

theorem Complete.oneShape (h : s.registry.Complete language graph roots)
    (hx : s.registry.nameOf? x = some name) (hy : s.registry.nameOf? y = some name) :
    graph.OneShape x y := by
  obtain ⟨_, fingerprint, -, hfingerprint, hvariant⟩ := h.consistent.named hx
  obtain ⟨_, fingerprint', -, hfingerprint', hvariant'⟩ := h.consistent.named hy
  obtain ⟨-, rfl⟩ := h.consistent.apart hvariant hvariant'
  exact Graph.oneShape_of_fingerprint (h.definition hx) (h.definition hy) hfingerprint
    hfingerprint'

/-- Properties of one name in two nodes under one emitted name are spelled out alike. -/
theorem Complete.onePart (h : s.registry.Complete language graph roots)
    (hx : s.registry.nameOf? x = some name) (hy : s.registry.nameOf? y = some name) {key : String}
    {c d : NodeId} (hkey : Entries.get? (graph.node x).properties key = some c)
    (hkey' : Entries.get? (graph.node y).properties key = some d) :
    graph.Within roots c ∧ graph.Within roots d
      ∧ ∃ part, graph.nestedFingerprint [x] false c = .ok part
        ∧ graph.nestedFingerprint [y] false d = .ok part := by
  have hwithin : ∀ {id child}, graph.Within roots id →
      Entries.get? (graph.node id).properties key = some child → graph.Within roots child :=
    fun hid hchild => hid.step (Node.mem_children.mpr (.inr (.inr (.inr ⟨_,
      Entries.mem_of_get? hchild⟩))))
  have hshape := h.oneShape hx hy
  obtain ⟨part, hpart⟩ := hshape.spelled hkey
  have hmapped := hshape.properties key
  rw [hkey, hkey', Option.map_some, Option.map_some, Option.some.injEq] at hmapped
  exact ⟨hwithin (h.within hx) hkey, hwithin (h.within hy) hkey', part, hpart,
    hmapped.symm.trans hpart⟩

/-- A definition that is met within reach has a name, and that is what is emitted for it. -/
theorem Complete.mention (h : s.registry.Complete language graph roots) {id last : NodeId}
    (hid : graph.Within roots id) (hmeets : graph.Meets id last) :
    ∃ name, s.registry.nameOf? last = some name
      ∧ s.registry.mention language graph last = fun nullable =>
        .ok (language.nullableIf (nullable || (graph.node last).isNullable) name) := by
  obtain ⟨hdefinition, hactual⟩ := hmeets.definition
  rw [Graph.actualNode, hactual] at hdefinition
  obtain ⟨name, hname⟩ := h.named (hmeets.within hid) hactual hdefinition
  refine ⟨name, hname, ?_⟩
  unfold Registry.mention
  rw [hname]

/-- The type of a property is that of its shape. -/
theorem frozenType_eq (hreferences : Resolver.References graph roots) {path : List NodeId}
    {id : NodeId} {fingerprint : Fingerprint} {ending : Bool → Except Failure String}
    (hid : graph.Within roots id) (h : graph.nestedFingerprint path false id = .ok fingerprint)
    (hending : ∀ last, graph.Meets id last → ending = s.registry.mention language graph last)
    (usage : Usage) :
    frozenType language graph s id usage =
      fingerprint.type language ending (usage.nullable || fingerprint.admitsNull)
        (Resolver.fileType language usage) :=
  Resolver.outcome_eq_type (s := (runStep Registry.freeze s).2) hreferences rfl path id hid h
    (List.nil_subset path) hending usage

/-- Nodes of one shape have one type where the definitions that they end in are emitted under one
name. -/
theorem Complete.same_type (h : s.registry.Complete language graph roots)
    (hreferences : Resolver.References graph roots) {path path' : List NodeId} {c d : NodeId}
    {part : Fingerprint} (hc : graph.Within roots c) (hd : graph.Within roots d)
    (hpart : graph.nestedFingerprint path false c = .ok part)
    (hpart' : graph.nestedFingerprint path' false d = .ok part)
    (hsame : ∀ z w, graph.Meets c z → graph.Meets d w →
      s.registry.nameOf? z = s.registry.nameOf? w) (usage : Usage) :
    frozenType language graph s c usage = frozenType language graph s d usage := by
  -- what stands for the definition in either type, if there is one
  obtain ⟨ending, hending, hending'⟩ : ∃ ending,
      (∀ z, graph.Meets c z → ending = s.registry.mention language graph z)
        ∧ ∀ w, graph.Meets d w → ending = s.registry.mention language graph w := by
    by_cases hmeets : ∃ z, graph.Meets c z
    · obtain ⟨z, hz⟩ := hmeets
      refine ⟨s.registry.mention language graph z, fun z' hz' => by rw [hz.unique hz'], ?_⟩
      intro w hw
      obtain ⟨name, hname, hmention⟩ := h.mention hc hz
      obtain ⟨name', hname', hmention'⟩ := h.mention hd hw
      have hnames := hsame z w hz hw
      rw [hname, hname', Option.some.injEq] at hnames
      subst hnames
      rw [hmention, hmention', (h.oneShape hname hname').isNullable]
    · refine ⟨fun _ => .error .malformed, fun z hz => absurd ⟨z, hz⟩ hmeets, ?_⟩
      intro w hw
      obtain ⟨z, hz, -⟩ := Graph.meets_of_ends path c hpart (hw.ends hpart')
      exact absurd ⟨z, hz⟩ hmeets
  rw [frozenType_eq hreferences hc hpart hending, frozenType_eq hreferences hd hpart' hending']

/-- In a known language they have different types where the definitions are not. -/
theorem Complete.same_name (hlanguage : language ∈ Language.known)
    (h : s.registry.Complete language graph roots)
    (hreferences : Resolver.References graph roots) {path path' : List NodeId} {c d z w : NodeId}
    {part : Fingerprint} (hc : graph.Within roots c) (hd : graph.Within roots d)
    (hpart : graph.nestedFingerprint path false c = .ok part)
    (hpart' : graph.nestedFingerprint path' false d = .ok part)
    (hz : graph.Meets c z) (hw : graph.Meets d w)
    (htypes : frozenType language graph s c {} = frozenType language graph s d {}) :
    s.registry.nameOf? z = s.registry.nameOf? w := by
  have hword : ∀ {last name}, s.registry.nameOf? last = some name →
      Identifier.Word name.toList := by
    intro last name hname
    obtain ⟨other, hlisted⟩ := listed_of_named h.consistent hname
    exact (h.spelled.word hlanguage hlisted).1
  obtain ⟨name, hname, hmention⟩ := h.mention hc hz
  obtain ⟨name', hname', hmention'⟩ := h.mention hd hw
  have hending : ∀ last, graph.Meets c last →
      s.registry.mention language graph z = s.registry.mention language graph last :=
    fun last hlast => by rw [hz.unique hlast]
  have hending' : ∀ last, graph.Meets d last →
      s.registry.mention language graph w = s.registry.mention language graph last :=
    fun last hlast => by rw [hw.unique hlast]
  rw [frozenType_eq hreferences hc hpart hending, frozenType_eq hreferences hd hpart' hending',
    hmention, hmention'] at htypes
  have hlegible := Language.legible_of_known hlanguage
  rw [hname, hname',
    (hz.ends hpart).name_eq hlegible (hword hname) (hword hname') htypes]

end

end Registry

/-- Two nodes under one emitted name, once all type definitions within reach have been registered in
any order and the registry has been frozen.  They have properties of the same names, and properties
of one name lead to definitions of one name in the document, or both to none.  Where these are
emitted under one name the properties have the same type in every use; and in the known languages
nowhere else. -/
theorem shared_name_types {language : Language} {graph : Graph} {roots order : List NodeId}
    {s : Typing} (horder : ∀ id, id ∈ order ↔ id ∈ graph.typeDefinitions roots)
    (hregister : runStep (Registry.register language graph order) {} = (.ok (), s))
    (hreferences : Resolver.References graph roots) {x y : NodeId} {name : String}
    (hx : s.registry.nameOf? x = some name) (hy : s.registry.nameOf? y = some name) :
    (∀ key, (Entries.get? (graph.node x).properties key).isSome =
        (Entries.get? (graph.node y).properties key).isSome)
      ∧ ∀ key c d, Entries.get? (graph.node x).properties key = some c →
        Entries.get? (graph.node y).properties key = some d →
          (∀ z, graph.Meets c z → ∃ w, graph.Meets d w
            ∧ (graph.node w).typeName.normal = (graph.node z).typeName.normal)
          ∧ ((∀ z w, graph.Meets c z → graph.Meets d w →
              s.registry.nameOf? z = s.registry.nameOf? w) →
            ∀ usage, frozenType language graph s c usage = frozenType language graph s d usage)
          ∧ (language ∈ Language.known →
            (∀ usage, frozenType language graph s c usage = frozenType language graph s d usage) →
              ∀ z w, graph.Meets c z → graph.Meets d w →
                s.registry.nameOf? z = s.registry.nameOf? w) := by
  have hcomplete := Registry.complete_of_register horder hregister
  constructor
  · intro key
    have hmapped := congrArg Option.isSome ((hcomplete.oneShape hx hy).properties key)
    simpa only [Option.isSome_map] using hmapped
  · intro key c d hkey hkey'
    obtain ⟨hc, hd, part, hpart, hpart'⟩ := hcomplete.onePart hx hy hkey hkey'
    refine ⟨?_, ?_, ?_⟩
    · intro z hz
      exact Graph.meets_of_ends [y] d hpart' (hz.ends hpart)
    · exact hcomplete.same_type hreferences hc hd hpart hpart'
    · intro hlanguage htypes z w hz hw
      exact hcomplete.same_name hlanguage hreferences hc hd hpart hpart' hz hw (htypes {})

/-- Three pets, whose owners are called alike; the second owner has another shape than the others. -/
def ownersGraph : Graph where
  nodes := #[
    { kinds := Kinds.ofList [.object], typeName := .str "Pet", properties := [("owner", 3)] },
    { kinds := Kinds.ofList [.object], typeName := .str "Pet", properties := [("owner", 4)] },
    { kinds := Kinds.ofList [.object], typeName := .str "Pet", properties := [("owner", 5)] },
    { kinds := Kinds.ofList [.object], typeName := .str "Owner", properties := [("id", 6)] },
    { kinds := Kinds.ofList [.object], typeName := .str "Owner", properties := [("name", 7)] },
    { kinds := Kinds.ofList [.object], typeName := .str "Owner", properties := [("id", 6)] },
    { kinds := Kinds.ofList [.integer] },
    { kinds := Kinds.ofList [.string] }]

theorem typeDefinitions_owners :
    ownersGraph.typeDefinitions [0, 1, 2] = [0, 3, 1, 4, 2, 5] := by
  have hwalk : ownersGraph.visit [] [0, 1, 2] = [0, 3, 6, 1, 4, 7, 2, 5] := by
    simp [Graph.visit, ownersGraph, Graph.node, Node.children]
  rw [Graph.typeDefinitions, hwalk]
  decide +kernel

/-- The owners of the three pets, registered. -/
def ownersState : Typing :=
  (runStep (Registry.register Language.csharp ownersGraph [5, 4, 3, 2, 1, 0]) {}).2

theorem shared_name_types_owners :
    (∀ id, id ∈ [5, 4, 3, 2, 1, 0] ↔ id ∈ ownersGraph.typeDefinitions [0, 1, 2])
      ∧ runStep (Registry.register Language.csharp ownersGraph [5, 4, 3, 2, 1, 0]) {} =
        (.ok (), ownersState)
      ∧ Resolver.References ownersGraph [0, 1, 2]
      ∧ ownersState.registry.nameOf? 0 = some "Pet"
      ∧ ownersState.registry.nameOf? 2 = some "Pet"
      ∧ ∀ usage, frozenType Language.csharp ownersGraph ownersState 3 usage =
        frozenType Language.csharp ownersGraph ownersState 5 usage := by
  have horder : ∀ id, id ∈ [5, 4, 3, 2, 1, 0] ↔ id ∈ ownersGraph.typeDefinitions [0, 1, 2] := by
    intro id
    rw [typeDefinitions_owners]
    exact List.Perm.mem_iff (by decide)
  obtain ⟨hends, hx, hy, howners⟩ :
      (runStep (Registry.register Language.csharp ownersGraph [5, 4, 3, 2, 1, 0]) {}).1.toOption =
          some ()
        ∧ ownersState.registry.nameOf? 0 = some "Pet"
        ∧ ownersState.registry.nameOf? 2 = some "Pet"
        ∧ ownersState.registry.nameOf? 3 = ownersState.registry.nameOf? 5 := by
    decide +kernel
  have hregister : runStep (Registry.register Language.csharp ownersGraph [5, 4, 3, 2, 1, 0]) {} =
      (.ok (), ownersState) := runStep_of_toOption hends
  have hreferences : Resolver.References ownersGraph [0, 1, 2] :=
    Resolver.references_of_none (by decide +kernel)
  refine ⟨horder, hregister, hreferences, hx, hy, ?_⟩
  obtain ⟨-, hproperties⟩ := shared_name_types horder hregister hreferences hx hy
  obtain ⟨-, hsame, -⟩ := hproperties "owner" 3 5 rfl rfl
  refine hsame ?_
  intro z w hz hw
  have hmeets : ownersGraph.Meets 3 3 := .itself rfl (by decide +kernel)
  have hmeets' : ownersGraph.Meets 5 5 := .itself rfl (by decide +kernel)
  rw [hz.unique hmeets, hw.unique hmeets']
  exact howners

/-- The first two pets share their name, but their owners do not: the definition that is kept for
the pets does not describe both. -/
theorem shared_name_other_types :
    ∃ s, runStep (Registry.register Language.csharp ownersGraph
        (ownersGraph.typeDefinitions [0, 1, 2])) {} = (.ok (), s)
      ∧ s.registry.nameOf? 0 = some "Pet" ∧ s.registry.nameOf? 1 = some "Pet"
      ∧ Entries.get? (ownersGraph.node 0).properties "owner" = some 3
      ∧ Entries.get? (ownersGraph.node 1).properties "owner" = some 4
      ∧ frozenType Language.csharp ownersGraph s 3 {} = .ok "Owner"
      ∧ frozenType Language.csharp ownersGraph s 4 {} = .ok "Owner2"
      ∧ s.registry.definitions = [("Pet", 0), ("Owner", 3), ("Owner2", 4)] := by
  rw [typeDefinitions_owners]
  refine ⟨_, runStep_of_toOption (a := ()) (by decide +kernel), ?_⟩
  decide +kernel

/-- Two boxes of a number; the second one refers to it by a node that is null besides. -/
def boxesGraph : Graph where
  nodes := #[
    { kinds := Kinds.ofList [.object], typeName := .str "Box", properties := [("size", 2)] },
    { kinds := Kinds.ofList [.object], typeName := .str "Box", properties := [("size", 3)] },
    { reference := some 4 },
    { kinds := Kinds.ofList [.null], reference := some 4 },
    { kinds := Kinds.ofList [.integer] }]

/-- What a reference says of null by its kind is no part of the shape. -/
theorem shared_name_null_reference :
    ∃ s, runStep (Registry.register Language.csharp boxesGraph [0, 1]) {} = (.ok (), s)
      ∧ s.registry.nameOf? 0 = some "Box" ∧ s.registry.nameOf? 1 = some "Box"
      ∧ frozenType Language.csharp boxesGraph s 2 {} = .ok "int"
      ∧ frozenType Language.csharp boxesGraph s 3 {} = .ok "int?" := by
  refine ⟨_, runStep_of_toOption (a := ()) (by decide +kernel), ?_⟩
  decide +kernel

/-! ### Graphs in which names stand for single shapes -/

/-- Where no name of a definition stands for two shapes, nodes of one emitted name have properties of
the same types. -/
theorem shared_name_of_single_shapes {language : Language} {graph : Graph}
    {roots order : List NodeId} {s : Typing}
    (horder : ∀ id, id ∈ order ↔ id ∈ graph.typeDefinitions roots)
    (hregister : runStep (Registry.register language graph order) {} = (.ok (), s))
    (hreferences : Resolver.References graph roots)
    (hsingle : ∀ z w m n, s.registry.nameOf? z = some m → s.registry.nameOf? w = some n →
      (graph.node z).typeName.normal = (graph.node w).typeName.normal → m = n)
    {x y : NodeId} {name : String} (hx : s.registry.nameOf? x = some name)
    (hy : s.registry.nameOf? y = some name) {key : String} {c d : NodeId}
    (hkey : Entries.get? (graph.node x).properties key = some c)
    (hkey' : Entries.get? (graph.node y).properties key = some d) (usage : Usage) :
    frozenType language graph s c usage = frozenType language graph s d usage := by
  have hcomplete := Registry.complete_of_register horder hregister
  obtain ⟨hc, hd, part, hpart, hpart'⟩ := hcomplete.onePart hx hy hkey hkey'
  refine hcomplete.same_type hreferences hc hd hpart hpart' ?_ usage
  intro z w hz hw
  obtain ⟨last, hlast, hcalled⟩ := Graph.meets_of_ends [y] d hpart' (hz.ends hpart)
  obtain rfl := hw.unique hlast
  obtain ⟨m, hm, -⟩ := hcomplete.mention hc hz
  obtain ⟨n, hn, -⟩ := hcomplete.mention hd hw
  rw [hm, hn, hsingle z w m n hm hn hcalled.symm]

/-- References say no more than whether they admit null in every graph that has been read. -/
theorem references_of_read {reader s : Reading} {data : Json} {document : Document}
    (h : Reading.read reader data = (.ok document, s)) (roots : List NodeId) :
    Resolver.References document.graph roots := by
  intro id _ href
  have hreference : (document.graph.node id).reference ≠ none := Option.isSome_iff_ne_none.mp href
  obtain ⟨hkinds, -, -⟩ := Reading.law_of_read h (Reading.law_shapeless .all) id hreference
  have hnull : Kinds.none.has .null = false := by decide
  simp [Node.isNullable, hkinds, hnull]

/-- In the graph of one document a name stands for one node, so there it is so. -/
theorem shared_name_of_read {reader t : Reading} {data : Json} {document : Document}
    (hread : Reading.read reader data = (.ok document, t)) {language : Language}
    {roots order : List NodeId} {s : Typing}
    (horder : ∀ id, id ∈ order ↔ id ∈ document.graph.typeDefinitions roots)
    (hregister : runStep (Registry.register language document.graph order) {} = (.ok (), s))
    {x y : NodeId} {name : String} (hx : s.registry.nameOf? x = some name)
    (hy : s.registry.nameOf? y = some name) {key : String} {c d : NodeId}
    (hkey : Entries.get? (document.graph.node x).properties key = some c)
    (hkey' : Entries.get? (document.graph.node y).properties key = some d) (usage : Usage) :
    frozenType language document.graph s c usage = frozenType language document.graph s d usage := by
  refine shared_name_of_single_shapes horder hregister (references_of_read hread roots) ?_ hx hy
    hkey hkey' usage
  intro z w m n hz hw hcalled
  have hdefinition := ((Registry.complete_of_register horder hregister).definition hz).2
  obtain rfl : z = w := Reading.node_of_equal_names hread (Node.named_of_typeDefinition hdefinition)
    (by rw [Json.equal, hcalled, decide_eq_true_eq])
  exact Option.some.inj (hz.symm.trans hw)

end ApiClients
