import ApiClients.Proofs.Mentions
import ApiClients.Proofs.Passages

/-!
# Reading ends

Where all references name definitions, no document is too deep to be read (`reads_to_end`).  On a path
of nested readings every definition is entered once, and between two definitions each schema lies in
the one before; so the number of definitions still to be read, times the size of the document, and the
size of the schema that is being read bound the depth that is needed.  Each definition is entered at
most once in all, and each node is filled at most once.
-/

namespace ApiClients.Reading

/-! ### Definitions still to be read -/

/-- How many definitions have no node yet. -/
def unread (s : Reading) : Nat := s.definitions.countP fun entry => !Entries.has s.named entry.1

section

variable {s t : Reading} {name : Json}

theorem unread_le_length (s : Reading) : s.unread ≤ s.definitions.length := List.countP_le_length

theorem has_mono {α : Type} {entries more : List (Json × α)} (h : entries <+: more)
    (hname : Entries.has entries name = true) : Entries.has more name = true :=
  Entries.has_iff.mpr ((h.map _).subset (Entries.has_iff.mp hname))

theorem unread_le (hdefinitions : t.definitions = s.definitions) (hnamed : s.named <+: t.named) :
    t.unread ≤ s.unread := by
  unfold unread
  rw [hdefinitions]
  refine List.countP_mono_left fun entry _ hentry => ?_
  simp only [Bool.not_eq_true'] at hentry ⊢
  exact Bool.eq_false_iff.mpr fun hhas => Bool.false_ne_true (hentry.symm.trans (has_mono hnamed hhas))

/-- A definition that gets its node is no longer to be read. -/
theorem unread_enter (hnew : Entries.get? s.named name = none)
    (hdeclared : Entries.has s.definitions name = true) : (s.enter name).unread < s.unread := by
  have hunnamed : Entries.has s.named name = false := by
    refine Bool.eq_false_iff.mpr fun hhas => ?_
    obtain ⟨id, hid⟩ := Entries.has_iff_get?.mp hhas
    rw [hnew] at hid
    cases hid
  have hnamed : s.named <+: (s.enter name).named := List.prefix_append _ _
  have hentered : Entries.has (s.enter name).named name = true := by
    refine Entries.has_iff.mpr ?_
    show name ∈ (s.named ++ [(name, s.graph.size)]).map (·.1)
    simp
  obtain ⟨entry, hentry, rfl⟩ := List.mem_map.mp (Entries.has_iff.mp hdeclared)
  obtain ⟨before, after, hsplit⟩ := List.append_of_mem hentry
  have hle : ∀ entries : List (Json × Json),
      entries.countP (fun entry' => !Entries.has (s.enter entry.1).named entry'.1)
        ≤ entries.countP fun entry' => !Entries.has s.named entry'.1 := by
    intro entries
    refine List.countP_mono_left fun other _ hother => ?_
    simp only [Bool.not_eq_true'] at hother ⊢
    exact Bool.eq_false_iff.mpr fun hhas =>
      Bool.false_ne_true (hother.symm.trans (has_mono hnamed hhas))
  have hbefore := hle before
  have hafter := hle after
  show s.definitions.countP _ < s.definitions.countP _
  rw [hsplit, List.countP_append, List.countP_append, List.countP_cons, List.countP_cons]
  simp only [hunnamed, hentered, Bool.not_true, Bool.not_false, if_true, if_false,
    Bool.false_eq_true]
  omega

end

/-! ### Documents whose references name definitions -/

section

variable (defs : List (Json × Json))

/-- All references in the schemas of a document name definitions. -/
structure RefsNamed (document : Json) : Prop where
  definitions : RefsDefined defs
  asked : ∀ {data}, Asks document data → NamesOnly defs data
  promoted : ∀ {code data}, Responds document code data → isPromoted code data = true →
    ∀ entry ∈ contents data, NamesOnly defs entry.2

/-- Of a document without operations only the definitions count. -/
theorem refsNamed_of_definitions {document : Json}
    (hnone : ∀ {operation shared}, ¬ Declares document operation shared)
    (hdefs : ∀ entry ∈ defs, ∀ inner ∈ contents entry.2, NamesOnly defs inner.2) :
    RefsNamed defs document := by
  refine ⟨refsDefined_of_namesOnly defs hdefs, fun hasks => ?_, fun hresponds => ?_⟩
  · rw [hasks.eq_null hnone]
    exact namesOnly_null defs
  · exact absurd hresponds (not_responds hnone)

/-- The schemas of some size at most whose references name definitions. -/
def naming (bound : Nat) : Scope where
  basis := defs
  schema data := data.count ≤ bound ∧ NamesOnly defs data
  shape members := (Json.obj members).count ≤ bound
    ∧ ∀ entry ∈ nested members, NamesOnly defs entry.2
  plain h hplain := ⟨h.1, fun _ => h.2.nested hplain⟩
  variant h hvariant := ⟨Nat.le_trans (Nat.le_of_lt (count_variant hvariant)) h.1,
    h.2.variant hvariant⟩
  nested h entry hentry := ⟨Nat.le_trans (Nat.le_of_lt (count_nested hentry)) h.1, h.2 entry hentry⟩

end

/-- Where a reading ends for want of depth, it has had no more than the definitions still to be read
and the schema that is being read may need. -/
def Short (bound depth : Nat) : Fails := fun s data e =>
  e = .endless → depth ≤ s.unread * (bound + 1) + data.count

section

variable {defs : List (Json × Json)} {bound : Nat} {document : Json}

theorem defines_naming {data : Json} (hcount : data.count ≤ bound)
    (hrefs : ∀ entry ∈ contents data, NamesOnly defs entry.2) :
    (naming defs bound).Defines data := by
  refine Scope.defines_of ?_ ?_
  · rintro ref rfl
    exact ⟨hcount, hrefs _ (List.mem_singleton.mpr rfl)⟩
  · rintro members rfl hmembers
    rw [contents_shape hmembers] at hrefs
    exact ⟨hcount, hrefs⟩

/-- Each nested reading needs less than the one that it stands in. -/
theorem falls_short (depth : Nat) :
    Falls (naming defs bound) (Short bound depth) (Short bound (depth + 1)) := by
  refine ⟨fun h => (by cases h), ?nested, ?variant, ?definition, ?undeclared⟩
  case nested =>
    rintro s members e - - - (rfl | ⟨t, hnamed, hdefinitions, entry, hentry, hfails⟩) he
    · cases he
    · have hunread := Nat.mul_le_mul_right (bound + 1) (unread_le hdefinitions hnamed)
      have hcount := count_nested hentry
      have := hfails he
      omega
  case variant =>
    intro s members shape e _ _ hvariant hfails he
    have hcount := count_variant hvariant
    have := hfails he
    omega
  case definition =>
    rintro s members ref data e hcovers - - hnew hdata
      (rfl | ⟨t, hnamed, hdefinitions, entry, hentry, hfails⟩) he
    · cases he
    · have hentered := unread_enter hnew (Entries.has_iff_get?.mpr ⟨data, hdata⟩)
      have hunread := Nat.mul_le_mul_right (bound + 1)
        (Nat.succ_le_of_lt (Nat.lt_of_le_of_lt (unread_le hdefinitions hnamed) hentered))
      have hcount := ((hcovers.definitions hdata).contents entry hentry).1
      have := hfails he
      rw [Nat.succ_mul] at hunread
      omega
  case undeclared =>
    intro s members ref e hcovers hschema href hmissing
    have hdeclared := has_mono hcovers.basis (hschema.2.points href)
    rw [hdeclared] at hmissing
    cases hmissing

theorem depth_suffices (s : Reading) (data : Json) {left count : Nat}
    (hleft : left ≤ s.definitions.length) (hcount : count ≤ s.source.count + data.count) :
    left * (s.source.count + 1) + count < s.depthBound data := by
  unfold depthBound
  dsimp only
  generalize hsize : s.source.count + data.count + 1 = size
  have hproduct : left * (s.source.count + 1) ≤ s.definitions.length * size :=
    Nat.mul_le_mul hleft (by omega)
  have hsquare : (s.definitions.length + 2) * size ≤ (s.definitions.length + 2) * (size * size) :=
    Nat.mul_le_mul_left _ (Nat.le_mul_of_pos_left _ (by omega))
  rw [Nat.add_mul] at hsquare
  omega

/-- The depth that reading starts with is enough. -/
theorem admits_naming (hrefs : RefsNamed defs document) :
    Admits (naming defs document.count) document (Short document.count) (· ≠ .endless) := by
  refine ⟨fun _ _ _ => Nat.zero_le _, falls_short, by simp, ?asked, ?promoted, ?fails, ?failsIn⟩
  case asked => exact fun hasks => ⟨count_asked hasks, hrefs.asked hasks⟩
  case promoted =>
    exact fun hresponds hpromoted => defines_naming (count_responds hresponds)
      (hrefs.promoted hresponds hpromoted)
  case fails =>
    rintro s data e rfl - - hfails rfl
    have hdepth := depth_suffices s data (unread_le_length s) (Nat.le_add_left data.count _)
    exact absurd (hfails rfl) (Nat.not_le_of_lt hdepth)
  case failsIn =>
    rintro s name data e rfl hcovers hnew hdata hfails rfl
    obtain hmalformed | ⟨t, hnamed, hdefinitions, entry, hentry, hfails⟩ := hfails
    · cases hmalformed
    · have hcount : entry.2.count ≤ s.source.count :=
        ((hcovers.definitions hdata).contents entry hentry).1
      have hleft : t.unread ≤ s.definitions.length := by
        have hdefinitions' : t.definitions = s.definitions := hdefinitions
        exact hdefinitions' ▸ unread_le_length t
      have hdepth := depth_suffices s .null hleft (Nat.le_add_right_of_le hcount)
      exact absurd (hfails rfl) (Nat.not_le_of_lt hdepth)

theorem covers_naming {reader : Reading} (hdefs : Json.definitions document = .ok defs)
    (hrefs : RefsNamed defs document) :
    (naming defs document.count).Covers (reader.begin document defs) := by
  refine ⟨List.prefix_rfl, fun hname => (by cases hname), ?_, ?_⟩
  · intro name data hdata
    exact defines_naming (Json.count_definition hdefs (Entries.mem_of_get? hdata))
      fun entry hentry target htarget =>
        hrefs.definitions name target ⟨data, hdata, entry, hentry, htarget⟩
  · intro members ref hschema href hmissing
    have hdeclared : Entries.has (reader.begin document defs).definitions _ = true :=
      hschema.2.points href
    rw [hdeclared] at hmissing
    cases hmissing

/-- Every document whose references name definitions is read to its end, whether that is a result or
a refusal.  A definition that has its node is not read again, wherever it is asked for; so each of them
gets its node at most once, and each node is filled at most once on the way.  In the end, too, no
definition has a second node. -/
theorem reads_to_end {reader : Reading}
    (hrefs : ∀ defs, Json.definitions document = .ok defs → RefsNamed defs document) :
    (Reading.read reader document).1 ≠ .error .endless
      ∧ (∀ s read name id, Entries.get? s.named name = some id →
          runStep (Reading.definition read name) s = (.ok id, s))
      ∧ ∀ defs, document.given = true → Json.definitions document = .ok defs →
        ∃ moves, History .all (reader.begin document defs) moves (Reading.read reader document).2
          ∧ (Reading.read reader document).2.named.map (·.1) = entered moves
          ∧ (entered moves).Nodup ∧ (filled moves).Nodup
          ∧ ∀ id, ((Reading.read reader document).2.graph.node id).typeName ≠ .null →
            Entries.get? (Reading.read reader document).2.named
              ((Reading.read reader document).2.graph.node id).typeName = some id := by
  have hrun : runStep (Reading.document document) reader = Reading.read reader document := rfl
  refine ⟨?ends, fun _ _ _ _ => definition_known, ?once⟩
  case ends =>
    intro hendless
    cases hgiven : document.given with
    | false =>
      have hrefused := (document_refused reader hgiven).symm.trans hendless
      cases hrefused
    | true =>
      cases hdefs : Json.definitions document with
      | error e =>
        have hfailed := (document_undefined reader hgiven hdefs).symm.trans hendless
        exact Json.definitions_error hdefs (Except.error.inj hfailed)
      | ok defs =>
        have hread := (admits_naming (hrefs defs hdefs)).document hdefs hgiven
          (covers_naming hdefs (hrefs defs hdefs)) reader rfl
        exact (hread.2 .endless _ (hrun.trans (Prod.ext hendless rfl))).2 rfl
  case once =>
    intro defs hgiven hdefs
    have hall := (admits_all document).document hdefs hgiven
      (Scope.covers_all fun hname => by cases hname) reader rfl
    have hpasses : Passes .all (reader.begin document defs) (Reading.read reader document).2 := by
      rcases hread : Reading.read reader document with ⟨e | read, s⟩
      · exact (hall.2 e s (hrun.trans hread)).1
      · exact (hall.1 read s (hrun.trans hread)).1
    obtain ⟨moves, hcourse⟩ := hpasses.course
    have hnamed : (Reading.read reader document).2.named.map (·.1) = entered moves :=
      hcourse.history.named
    exact ⟨moves, hcourse.history, hnamed, hnamed ▸ hpasses.sound.distinct, hcourse.once,
      fun _ => hpasses.sound.owned⟩

end

/-- Definitions in circles: an array of itself, two that stand for each other, and a part with a
property that leads back. -/
def circlesData : Json :=
  let pointer := fun name : String => Json.obj [("$ref", .str ("#/definitions/" ++ name))]
  .obj [
    ("definitions", .obj [
      ("Tree", .obj [("type", .str "array"), ("items", pointer "Tree")]),
      ("Even", pointer "Odd"),
      ("Odd", pointer "Even"),
      ("Parent", .obj [("properties", .obj [("child", pointer "Child")])]),
      ("Child", .obj [("allOf", .arr [pointer "Parent"]), ("nullable", .bool false)])]),
    ("paths", .obj [])]

theorem reads_to_end_circles :
    (Reading.read {} circlesData).1 ≠ .error .endless
      ∧ ∃ moves defs, Json.definitions circlesData = .ok defs
        ∧ History .all (Reading.begin {} circlesData defs) moves (Reading.read {} circlesData).2
        ∧ entered moves = [.str "Tree", .str "Even", .str "Odd", .str "Parent", .str "Child"]
        ∧ (filled moves).Nodup := by
  have hrefs : ∀ defs, Json.definitions circlesData = .ok defs → RefsNamed defs circlesData := by
    intro defs hdefs
    cases hdefs
    exact refsNamed_of_definitions _ (not_declares rfl) (by decide +kernel)
  obtain ⟨hends, -, hmoves⟩ := @reads_to_end _ {} hrefs
  obtain ⟨moves, hhistory, hentered, -, hfilled, -⟩ := hmoves _ rfl rfl
  refine ⟨hends, moves, _, rfl, hhistory, ?_, hfilled⟩
  rw [← hentered]
  decide +kernel

end ApiClients.Reading
