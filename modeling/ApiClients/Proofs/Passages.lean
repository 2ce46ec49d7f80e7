import ApiClients.Proofs.Histories

/-!
# Reading a whole document

A document is read by allowed moves from the state in which its definitions have been looked up
(`Admits.document`): first the definitions, then the operations with what they ask for.  Where the
schemas that are read cannot fail in some way, the whole document cannot either.
-/

namespace ApiClients.Reading

/-- Reading comes from a state to another one by allowed moves, and fills no node twice. -/
structure Passes (scope : Scope) (s t : Reading) : Prop where
  sound : t.Sound
  course : ∃ moves, Course scope s moves t

/-- A scope in which a document is read, and what its reading may fail with. -/
structure Admits (scope : Scope) (document : Json) (inner : Nat → Fails) (E : Failure → Prop) :
    Prop where
  zero : ∀ s data, inner 0 s data .endless
  falls : ∀ depth, Falls scope (inner depth) (inner (depth + 1))
  malformed : E .malformed
  asked : ∀ {data}, Asks document data → scope.schema data
  promoted : ∀ {code data}, Responds document code data → isPromoted code data = true →
    scope.Defines data
  fails : ∀ {s : Reading} {data e}, s.source = document → scope.Covers s → scope.schema data →
    inner (s.depthBound data) s data e → E e
  failsIn : ∀ {s : Reading} {name data e}, s.source = document → scope.Covers s →
    Entries.get? s.named name = none → Entries.get? s.definitions name = some data →
    FailsIn (inner (s.depthBound .null)) (s.enter name) (contents data) e → E e

section

variable {scope : Scope} {s t u : Reading} {data : Json}

namespace Passes

theorem refl (hs : s.Sound) : Passes scope s s := ⟨hs, [], Course.refl s⟩

theorem covers (h : Passes scope s t) (hs : scope.Covers s) : scope.Covers t := by
  obtain ⟨moves, hcourse⟩ := h.course
  exact hcourse.history.covers hs

theorem source (h : Passes scope s t) : t.source = s.source := by
  obtain ⟨moves, hcourse⟩ := h.course
  exact hcourse.history.source

theorem definitions (h : Passes scope s t) : s.definitions <+: t.definitions := by
  obtain ⟨moves, hcourse⟩ := h.course
  exact hcourse.history.definitions

theorem goes (h : Passes scope s t) (h' : Goes scope t u) : Passes scope s u := by
  obtain ⟨moves, hcourse⟩ := h.course
  obtain ⟨more, hmore⟩ := h'.course
  exact ⟨h'.after.1, _, hcourse.append hmore⟩

theorem move (h : Passes scope s t) {next : Move} (hallowed : Allowed scope t next)
    (hmove : next.filled? = none) (hsound : (next.after t).Sound) :
    Passes scope s (next.after t) := by
  obtain ⟨moves, hcourse⟩ := h.course
  exact ⟨hsound, _, hcourse.move hallowed hmove⟩

theorem note (h : Passes scope s t) (event : Event) :
    Passes scope s (Move.after t (.note event)) :=
  h.move trivial rfl (h.sound.note _)

end Passes

theorem sound_begin (reader : Reading) (data : Json) (defs : List (Json × Json)) :
    (reader.begin data defs).Sound := by
  refine ⟨?_, fun hid => absurd rfl hid, List.nodup_nil⟩
  intro name id hname
  cases hname

theorem document_eq (data : Json) :
    Reading.document data = (do
      modify fun s => { s with source := data }
      if !data.given then throw .noDocument
      let definitions ← lift (Json.definitions data)
      modify fun s => { s with definitions := definitions, named := [], graph := {} }
      Reading.readDefinitions definitions
      let operations ← Reading.operations
      let state ← get
      note (.documentRead operations.length state.named.length)
      let members ← lift (Json.membersOf data)
      return {
        info := (Entries.get? members "info").getD (.obj [])
        operations := operations
        schemas := state.named
        graph := state.graph }) := by
  unfold Reading.document Reading.readDefinitions
  simp only [bind_assoc, pure_bind]

/-- An empty document is refused. -/
theorem document_refused (reader : Reading) (hgiven : data.given = false) :
    (runStep (Reading.document data) reader).1 = .error .noDocument := by
  rw [document_eq]
  simp only [hgiven, Bool.not_false, if_true]
  rfl

/-- A document without a table of definitions fails as the look-up does. -/
theorem document_undefined (reader : Reading) (hgiven : data.given = true) {e : Failure}
    (hdefs : Json.definitions data = .error e) :
    (runStep (Reading.document data) reader).1 = .error e := by
  rw [document_eq]
  simp only [hgiven, Bool.not_true, Bool.false_eq_true, if_false, hdefs]
  rfl

namespace Admits

variable {fails : Nat → Fails} {E : Failure → Prop}

theorem schema (h : Admits scope data fails E) (hsource : s.source = data)
    (hcovers : scope.Covers s) {schema : Json} (hschema : scope.schema schema) :
    Leads (Passes scope s) (fun _ => Passes scope s) (fun e t => Passes scope s t ∧ E e)
      (Reading.schema schema) := by
  refine leads_get_bind fun t ht => ?_
  have hsource' : t.source = data := ht.source.trans hsource
  refine ((reads_schemaTo h.zero h.falls (t.depthBound schema)).leads ht.sound (ht.covers hcovers)
    [] hschema).mono (fun _ hu => hu) (fun _ _ hu => ht.goes hu.1) ?_
  exact fun e u hu => ⟨ht.goes hu.1, h.fails hsource' (ht.covers hcovers) hschema hu.2⟩

theorem namedSchema (h : Admits scope data fails E) (hsource : s.source = data)
    (hcovers : scope.Covers s) (name : Json) :
    Leads (fun t => Passes scope s t ∧ Entries.has t.definitions name = true)
      (fun _ => Passes scope s) (fun e t => Passes scope s t ∧ E e) (Reading.namedSchema name) := by
  refine leads_get_bind fun t ht => ?_
  obtain ⟨ht, hname⟩ := ht
  have hsource' : t.source = data := ht.source.trans hsource
  refine ((reads_schemaTo h.zero h.falls (t.depthBound .null)).definition ht.sound
    (ht.covers hcovers) hname).mono (fun _ hu => hu) (fun _ _ hu => ht.goes hu.1) ?_
  rintro e u ⟨hu, hnew, shape, hshape, hfails⟩
  exact ⟨ht.goes hu, h.failsIn hsource' (ht.covers hcovers) hnew hshape hfails⟩

theorem serves (h : Admits scope data fails E) (hsource : s.source = data)
    (hcovers : scope.Covers s) :
    Serves data (Passes scope s) (fun e t => Passes scope s t ∧ E e) := by
  refine ⟨⟨fun ht => ht.source.trans hsource, fun event ht => ht.note event,
    fun ht => ⟨ht, h.malformed⟩, fun hasked => h.schema hsource hcovers (h.asked hasked), ?_⟩, ?_⟩
  · intro members hmembers hmissing
    refine (h.schema hsource hcovers (h.asked (.inline hmembers hmissing))).mono (fun _ ht => ht) ?_
      fun _ _ ht => ht
    intro made t ht
    refine ⟨ht, fun id _ => ?_⟩
    have hallowed : Allowed scope t (.admitNull id) := trivial
    exact ht.move hallowed rfl (ht.sound.change fun _ => rfl)
  · intro name code shape hresponds hpromoted
    refine leads_bind (R := fun _ t => Passes scope s t
      ∧ Entries.has t.definitions (.str name) = true) (leads_modify fun t ht => ?_)
      fun _ => h.namedSchema hsource hcovers _
    have hallowed : Allowed scope t (.define (.str name) shape) :=
      ⟨⟨name, rfl⟩, h.promoted hresponds hpromoted⟩
    refine ⟨ht.1.move hallowed rfl ⟨ht.1.sound.known, ht.1.sound.owned, ht.1.sound.distinct⟩, ?_⟩
    exact Entries.has_iff.mpr (Entries.mem_keys_putNew.mpr (Or.inl rfl))

theorem readDefinitions (h : Admits scope data fails E) (hsource : s.source = data)
    (hcovers : scope.Covers s) :
    Leads (Passes scope s) (fun _ => Passes scope s) (fun e t => Passes scope s t ∧ E e)
      (Reading.readDefinitions s.definitions) := by
  refine leads_forIn fun entry hentry => ?_
  refine (h.namedSchema hsource hcovers entry.1).weaken fun t ht => ⟨ht, ?_⟩
  exact Entries.has_iff.mpr (List.mem_map_of_mem (ht.definitions.subset hentry))

/-- From the state in which its definitions have been looked up a document is read by allowed
moves.  The parameters of its operations have names that it gives them. -/
theorem document (h : Admits scope data fails E) {reader : Reading} {defs : List (Json × Json)}
    (hdefs : Json.definitions data = .ok defs) (hgiven : data.given = true)
    (hcovers : scope.Covers (reader.begin data defs)) :
    Leads (reader = ·)
      (fun document s => Passes scope (reader.begin data defs) s
        ∧ document.schemas = s.named ∧ document.graph = s.graph
        ∧ ∀ operation ∈ document.operations, Serves.NamedIn data operation)
      (fun e s => Passes scope (reader.begin data defs) s ∧ E e) (Reading.document data) := by
  rw [document_eq]
  refine leads_bind (R := fun _ s => { reader with source := data } = s)
    (leads_modify fun s hs => hs ▸ rfl) fun _ => ?_
  simp only [hgiven, Bool.not_true, Bool.false_eq_true, if_false, hdefs]
  refine leads_lift_bind (fun found hfound => ?_) (fun e he => by cases he)
  cases hfound
  refine leads_bind (R := fun _ s => reader.begin data defs = s)
    (leads_modify fun s hs => hs ▸ rfl) fun _ => ?_
  have hstart : ∀ s, reader.begin data defs = s → Passes scope (reader.begin data defs) s :=
    fun s hs => hs ▸ Passes.refl (sound_begin reader data defs)
  refine leads_bind ((h.readDefinitions rfl hcovers).weaken hstart) fun _ => ?_
  refine leads_bind (h.serves rfl hcovers).operations fun operations => leads_get_bind ?_
  rintro s ⟨hs, hnamed⟩
  refine leads_bind (R := fun _ t => Move.after s (.note (.documentRead operations.length
    s.named.length)) = t) (leads_modify fun t ht => ht ▸ rfl) fun _ => ?_
  refine leads_lift_bind (fun members _ => leads_pure ?_) ?_
  · rintro _ rfl
    exact ⟨hs.note _, rfl, rfl, hnamed⟩
  · rintro e he _ rfl
    exact ⟨hs.note _, Json.membersOf_error he ▸ h.malformed⟩

end Admits

/-- Schemas that lie in a scope are read by allowed moves, whatever they fail with. -/
theorem admits_scope {document : Json}
    (hasked : ∀ {data}, Asks document data → scope.schema data)
    (hpromoted : ∀ {code data}, Responds document code data → isPromoted code data = true →
      scope.Defines data) : Admits scope document (fun _ _ _ _ => True) fun _ => True := by
  refine ⟨fun _ _ => trivial, fun depth => ?_, trivial, hasked, hpromoted, fun _ _ _ _ => trivial,
    fun _ _ _ _ _ => trivial⟩
  exact ⟨trivial, fun _ _ _ _ => trivial, fun _ _ _ _ => trivial, fun _ _ _ _ _ _ => trivial,
    fun _ _ _ _ _ => trivial⟩

theorem admits_all (document : Json) : Admits .all document (fun _ _ _ _ => True) fun _ => True :=
  admits_scope (fun _ => trivial) fun _ _ => Scope.defines_of (fun _ _ => trivial) fun _ _ _ => trivial

end

end ApiClients.Reading
