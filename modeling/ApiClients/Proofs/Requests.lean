import ApiClients.Proofs.Reading

/-!
# What operations ask for

The operations of a document ask for schemas: those of their parameters, of the bodies of their
requests and of their responses.  What they are is said of the document as it is written.  A property
of the state holds after the operations have been read if the reading of each of these schemas keeps
it (`Serves.operations`); the name of every parameter that is read is a name in the document.
-/

namespace ApiClients

/-! ### Errors of look-ups -/

theorem Json.listed_error {value : Json} {e : Failure} (h : Json.listed value = .error e) :
    e = .malformed := by
  unfold Json.listed at h
  split at h
  · cases h
  · split at h <;> cases h
    rfl

theorem Json.fields_error {value : Json} {e : Failure} (h : Json.fields value = .error e) :
    e = .malformed := by
  unfold Json.fields at h
  split at h
  · cases h
  · split at h <;> cases h
    rfl

theorem Json.membersOf_error {value : Json} {e : Failure} (h : Json.membersOf value = .error e) :
    e = .malformed := by
  unfold Json.membersOf at h
  split at h <;> cases h
  rfl

theorem Json.dereference_error {document value : Json} {e : Failure}
    (h : Json.dereference document value = .error e) : e = .malformed := by
  unfold Json.dereference at h
  split at h
  · split at h <;> cases h
    rfl
  · cases h

theorem Json.pair_arr_error {index : Nat} {items : List Json} {e : Failure}
    (h : Json.pair index (.arr items) = .error e) : e ≠ .endless := by
  rcases items with _ | ⟨first, _ | ⟨second, _ | ⟨third, rest⟩⟩⟩
  · cases h
    simp
  · cases h
    simp
  · change (if first.isKey then _ else _) = _ at h
    split at h <;> cases h
    simp
  · cases h
    simp

theorem Json.pair_error {index : Nat} {value : Json} {e : Failure}
    (h : Json.pair index value = .error e) : e ≠ .endless := by
  -- whatever can be listed is a pair as the array of its parts is
  cases value with
  | arr items => exact Json.pair_arr_error h
  | obj members => exact @Json.pair_arr_error _ (members.map _) _ h
  | str s => exact @Json.pair_arr_error _ (s.toList.map _) _ h
  | _ =>
    cases h
    simp

theorem Json.pairs_error {items : List Json} {index : Nat} {entries : List (Json × Json)}
    {e : Failure} (h : Json.pairs index entries items = .error e) : e ≠ .endless := by
  induction items generalizing index entries with
  | nil => cases h
  | cons item items ih =>
    rw [Json.pairs] at h
    cases hpair : Json.pair index item with
    | error e' =>
      rw [hpair] at h
      cases h
      exact Json.pair_error hpair
    | ok taken =>
      rw [hpair] at h
      exact ih h

theorem Json.mapping_error {value : Json} {e : Failure} (h : Json.mapping value = .error e) :
    e ≠ .endless := by
  unfold Json.mapping at h
  split at h
  · cases h
  · split at h
    · cases h
    · exact Json.pairs_error h
    · exact Json.pairs_error h
    · cases h
      simp

theorem Json.definitions_error {document : Json} {e : Failure}
    (h : Json.definitions document = .error e) : e ≠ .endless := by
  unfold Json.definitions at h
  cases hmembers : Json.membersOf document with
  | error e' =>
    rw [hmembers] at h
    cases h
    exact Json.membersOf_error hmembers ▸ by simp
  | ok members =>
    rw [hmembers] at h
    change (if _ then _ else _) = Except.error e at h
    split at h
    · exact Json.mapping_error h
    · split at h
      · cases h
      · rename_i components _
        cases hinner : Json.membersOf components with
        | error e' =>
          rw [hinner] at h
          cases h
          exact Json.membersOf_error hinner ▸ by simp
        | ok inner =>
          rw [hinner] at h
          exact Json.mapping_error h

namespace Reading

theorem described?_error {content : Json} {types : List String} {e : Failure}
    (h : described? content types = .error e) : e = .malformed := by
  unfold described? at h
  split at h
  · cases h
  · split at h
    · cases h
    · split at h <;> cases h
      rfl
    · cases h
      rfl

theorem representative?_error {content : Json} {e : Failure}
    (h : representative? content = .error e) : e = .malformed := by
  unfold representative? at h
  cases hdescribed : described? content preferredTypes with
  | error e' =>
    rw [hdescribed] at h
    cases h
    exact described?_error hdescribed
  | ok found =>
    rw [hdescribed] at h
    cases found with
    | some description => cases h
    | none =>
      change firstDescription? content = .error e at h
      unfold firstDescription? at h
      split at h
      · cases h
      · split at h
        · cases h
        · dsimp only at h
          split at h
          · cases h
          · cases h
            rfl
        · cases h
          rfl

theorem mediaSchema_error {media : Json} {e : Failure} (h : mediaSchema media = .error e) :
    e = .malformed := by
  unfold mediaSchema at h
  cases hmembers : Json.membersOf media with
  | error e' =>
    rw [hmembers] at h
    cases h
    exact Json.membersOf_error hmembers
  | ok members =>
    rw [hmembers] at h
    cases h

/-! ### What a document says of its operations -/

section

variable (document : Json)

/-- An operation of a document, with the parameters of its path. -/
inductive Declares : List (String × Json) → Json → Prop
  | method {members item operation : List (String × Json)} {paths : List (String × Json)}
      {path method : String} (hmembers : Json.membersOf document = .ok members)
      (hpaths : Json.fields (Json.field members "paths") = .ok paths)
      (hitem : (path, .obj item) ∈ paths) (hmethod : method ∈ methods)
      (hoperation : Json.field item method = .obj operation) :
      Declares operation (Json.field item "parameters")

/-- A parameter that an operation or its path lists. -/
inductive HasParameter : List (String × Json) → Prop
  | listed {operation members : List (String × Json)} {shared entry : Json}
      {own inherited : List Json} (hoperation : Declares document operation shared)
      (hown : (Entries.get? operation "parameters").getD (.arr []) = .arr own)
      (hshared : Json.listed shared = .ok inherited) (hentry : entry ∈ inherited ++ own)
      (hmembers : Json.dereference document entry = .ok (.obj members)) : HasParameter members

/-- The body of the request of an operation. -/
inductive HasBody : List (String × Json) → Prop
  | request {operation members : List (String × Json)} {shared : Json}
      (hoperation : Declares document operation shared)
      (hmembers : Json.dereference document (Json.field operation "requestBody")
        = .ok (.obj members)) : HasBody members

/-- A response of an operation. -/
inductive HasResponse : String → List (String × Json) → Prop
  | listed {operation entries members : List (String × Json)} {shared data : Json} {code : String}
      (hoperation : Declares document operation shared)
      (hentries : Json.field operation "responses" = .obj entries) (hentry : (code, data) ∈ entries)
      (hmembers : Json.dereference document data = .ok (.obj members)) : HasResponse code members

/-- The members of a parameter that spell out its schema. -/
def inlineMembers (members : List (String × Json)) : List (String × Json) :=
  inlineKeywords.filterMap fun key => (Entries.get? members key).map fun value => (key, value)

/-- The schema of a response. -/
inductive Responds : String → Json → Prop
  | schema {code : String} {members : List (String × Json)} {data : Json}
      (h : HasResponse document code members) (hdata : Entries.get? members "schema" = some data) :
      Responds code data
  | content {code : String} {members : List (String × Json)} {media data : Json}
      (h : HasResponse document code members)
      (hmedia : representative? (Json.field members "content") = .ok (some media))
      (hdata : mediaSchema media = .ok data) : Responds code data

/-- The schemas that operations ask for. -/
inductive Asks : Json → Prop
  | nothing : Asks .null
  | parameter {members : List (String × Json)} {data : Json} (h : HasParameter document members)
      (hdata : Entries.get? members "schema" = some data) : Asks data
  | inline {members : List (String × Json)} (h : HasParameter document members)
      (hmissing : Entries.get? members "schema" = none) : Asks (.obj (inlineMembers members))
  | form {members : List (String × Json)} {media data : Json} (h : HasBody document members)
      (hmedia : described? (Json.field members "content") formTypes = .ok (some media))
      (hdata : mediaSchema media = .ok data) : Asks data
  | body {members : List (String × Json)} {media data : Json} (h : HasBody document members)
      (hmedia : representative? (Json.field members "content") = .ok (some media))
      (hdata : mediaSchema media = .ok data) : Asks data
  | response {code : String} {data : Json} (h : Responds document code data) : Asks data

/-- The names that parameters have: those in the document, and those of the properties of forms. -/
inductive ParameterName : Json → Prop
  | parameter {members : List (String × Json)} (h : HasParameter document members)
      (hgiven : Json.flag members "name" = true) : ParameterName (Json.field members "name")
  | property (key : String) : ParameterName (.str key)
  | body {members : List (String × Json)} (h : HasBody document members) :
      ParameterName ((Entries.get? members "x-name").getD (.str "body"))

end

/-! ### Documents without operations -/

section

variable {document data : Json} {code : String}

theorem not_responds (hnone : ∀ {operation shared}, ¬ Declares document operation shared) :
    ¬ Responds document code data := by
  rintro (⟨⟨hoperation, -, -, -⟩, -⟩ | ⟨⟨hoperation, -, -, -⟩, -, -⟩)
  · exact hnone hoperation
  · exact hnone hoperation

theorem Asks.eq_null (h : Asks document data)
    (hnone : ∀ {operation shared}, ¬ Declares document operation shared) : data = .null := by
  cases h with
  | nothing => rfl
  | parameter h _ =>
    obtain ⟨hoperation, -, -, -, -⟩ := h
    exact absurd hoperation hnone
  | inline h _ =>
    obtain ⟨hoperation, -, -, -, -⟩ := h
    exact absurd hoperation hnone
  | form h _ _ =>
    obtain ⟨hoperation, -⟩ := h
    exact absurd hoperation hnone
  | body h _ _ =>
    obtain ⟨hoperation, -⟩ := h
    exact absurd hoperation hnone
  | response h => exact absurd h (not_responds hnone)

theorem not_declares {members : List (String × Json)} (hpaths : Json.field members "paths" = .obj [])
    {operation : List (String × Json)} {shared : Json} :
    ¬ Declares (.obj members) operation shared := by
  rintro ⟨hmembers, hfields, hitem, -, -⟩
  cases hmembers
  rw [hpaths] at hfields
  cases hfields
  cases hitem

end

/-! ### Parameter lists -/

theorem mem_putAlike {κ α : Type} {alike : κ → κ → Bool} {key : κ} {value : α}
    {entries : List (κ × α)} {entry : κ × α}
    (h : entry ∈ Entries.putAlike alike key value entries) :
    entry.2 = value ∨ entry ∈ entries := by
  induction entries with
  | nil =>
    rw [Entries.putAlike, List.mem_singleton] at h
    exact Or.inl (h ▸ rfl)
  | cons first rest ih =>
    obtain ⟨k, v⟩ := first
    unfold Entries.putAlike at h
    split at h
    · rcases List.mem_cons.mp h with rfl | hrest
      · exact Or.inl rfl
      · exact Or.inr (List.mem_cons_of_mem _ hrest)
    · rcases List.mem_cons.mp h with rfl | hrest
      · exact Or.inr List.mem_cons_self
      · exact (ih hrest).imp_right (List.mem_cons_of_mem _)

/-- What an object does to the parameters taken so far. -/
theorem takeParameter_obj {document entry : Json} {members : List (String × Json)}
    (h : Json.dereference document entry = .ok (.obj members))
    (merged : List ((Json × Json) × List (String × Json))) :
    takeParameter document merged entry =
      if !Json.flag members "name" then .ok merged
      else if (Json.field members "name").isKey
          && ((Entries.get? members "in").getD (.str "query")).isKey then
        .ok (Entries.putAlike sameIdentity (Json.field members "name",
          (Entries.get? members "in").getD (.str "query")) members merged)
      else .error .malformed := by
  unfold takeParameter
  rw [h]
  rfl

theorem takeParameter_failed {document entry : Json} {e : Failure}
    (h : Json.dereference document entry = .error e)
    (merged : List ((Json × Json) × List (String × Json))) :
    takeParameter document merged entry = .error e := by
  unfold takeParameter
  rw [h]
  rfl

/-- What is not an object does nothing to them. -/
theorem takeParameter_other {document entry value : Json}
    (h : Json.dereference document entry = .ok value) (hvalue : ∀ members, value ≠ .obj members)
    (merged : List ((Json × Json) × List (String × Json))) :
    takeParameter document merged entry = .ok merged := by
  unfold takeParameter
  rw [h]
  cases value with
  | obj members => exact absurd rfl (hvalue members)
  | _ => rfl

/-- An entry is refused, passed over, or taken in with the object that it is. -/
theorem takeParameter_cases (document entry : Json)
    (merged : List ((Json × Json) × List (String × Json))) :
    takeParameter document merged entry = .error .malformed
      ∨ takeParameter document merged entry = .ok merged
      ∨ ∃ key members, Json.dereference document entry = .ok (.obj members)
          ∧ Json.flag members "name" = true
          ∧ takeParameter document merged entry =
              .ok (Entries.putAlike sameIdentity key members merged) := by
  cases hvalue : Json.dereference document entry with
  | error e =>
    rw [takeParameter_failed hvalue, Json.dereference_error hvalue]
    exact Or.inl rfl
  | ok value =>
    cases value with
    | obj members =>
      rw [takeParameter_obj hvalue]
      split
      · exact Or.inr (Or.inl rfl)
      · rename_i hgiven
        split
        · exact Or.inr (Or.inr ⟨_, members, rfl, by simpa using hgiven, rfl⟩)
        · exact Or.inl rfl
    | _ =>
      rw [takeParameter_other hvalue (by simp)]
      exact Or.inr (Or.inl rfl)

theorem takeParameter_ok {document entry : Json}
    {merged taken : List ((Json × Json) × List (String × Json))}
    (h : takeParameter document merged entry = .ok taken) :
    taken = merged ∨ ∃ key members, Json.dereference document entry = .ok (.obj members)
      ∧ Json.flag members "name" = true
      ∧ taken = Entries.putAlike sameIdentity key members merged := by
  rcases takeParameter_cases document entry merged with
    hrefused | hpassed | ⟨key, members, hvalue, hgiven, htaken⟩
  · rw [hrefused] at h
    cases h
  · rw [hpassed] at h
    cases h
    exact Or.inl rfl
  · rw [htaken] at h
    cases h
    exact Or.inr ⟨key, members, hvalue, hgiven, rfl⟩

theorem takeParameter_error {document entry : Json}
    {merged : List ((Json × Json) × List (String × Json))} {e : Failure}
    (h : takeParameter document merged entry = .error e) : e = .malformed := by
  rcases takeParameter_cases document entry merged with hrefused | hpassed | ⟨_, _, -, -, htaken⟩
  · rw [hrefused] at h
    cases h
    rfl
  · rw [hpassed] at h
    cases h
  · rw [htaken] at h
    cases h

/-- What a parameter list is taken for is listed in it. -/
theorem mem_takeParameters {source : Json} {entries : List Json}
    {parameters merged : List ((Json × Json) × List (String × Json))}
    (h : entries.foldlM (takeParameter source) parameters = .ok merged)
    {parameter : (Json × Json) × List (String × Json)} (hparameter : parameter ∈ merged) :
    parameter ∈ parameters ∨ ∃ entry ∈ entries,
      Json.dereference source entry = .ok (.obj parameter.2)
        ∧ Json.flag parameter.2 "name" = true := by
  induction entries generalizing parameters with
  | nil =>
    cases h
    exact Or.inl hparameter
  | cons entry entries ih =>
    rw [List.foldlM_cons] at h
    obtain ⟨taken, htaken, h⟩ := Except.bind_ok.mp h
    rcases ih h with hmem | ⟨other, hother, hfound⟩
    · rcases takeParameter_ok htaken with rfl | ⟨key, members, hvalue, hgiven, rfl⟩
      · exact Or.inl hmem
      · rcases mem_putAlike hmem with hnew | hold
        · exact Or.inr ⟨entry, List.mem_cons_self, hnew ▸ hvalue, hnew ▸ hgiven⟩
        · exact Or.inl hold
    · exact Or.inr ⟨other, List.mem_cons_of_mem _ hother, hfound⟩

theorem takeParameters_error {source : Json} {entries : List Json}
    {parameters : List ((Json × Json) × List (String × Json))} {e : Failure}
    (h : entries.foldlM (takeParameter source) parameters = .error e) : e = .malformed := by
  induction entries generalizing parameters with
  | nil => cases h
  | cons entry entries ih =>
    rw [List.foldlM_cons] at h
    cases htaken : takeParameter source parameters entry with
    | ok taken =>
      rw [htaken] at h
      exact ih h
    | error e' =>
      rw [htaken] at h
      cases h
      exact takeParameter_error htaken

/-- The parameters that an operation and its path list. -/
def listedParameters (own : List Json) (shared : Json) : ReadingM (List Parameter) := do
  let inherited ← lift (Json.listed shared)
  let merged ← lift ((inherited ++ own).foldlM (takeParameter (← get).source) [])
  merged.mapM fun (_, members) => parameter members

theorem operationParameters_of_list {members : List (String × Json)} {own : List Json}
    (hown : (Entries.get? members "parameters").getD (.arr []) = .arr own) (shared : Json) :
    operationParameters members shared = (do
      let parameters ← listedParameters own shared
      return some (parameters ++ (← bodyParameters (Json.field members "requestBody")))) := by
  unfold operationParameters listedParameters
  simp only [hown, bind_assoc]

theorem operationParameters_of_no_list {members : List (String × Json)}
    (hown : ∀ own, (Entries.get? members "parameters").getD (.arr []) ≠ .arr own) (shared : Json) :
    operationParameters members shared = pure none := by
  unfold operationParameters
  split
  · rename_i own hlist
    exact absurd hlist (hown own)
  · rfl

/-! ### Reading what is asked for -/

section

variable {α β : Type} {P : Reading → Prop} {Q : β → Reading → Prop} {F : Failure → Reading → Prop}

theorem lift_ok_bind (a : α) (f : α → ReadingM β) : lift (.ok a) >>= f = f a :=
  pure_bind a f

theorem runStep_lift_bind {outcome : Except Failure α} {f : α → ReadingM β} {s t : Reading} {b : β}
    (h : runStep (lift outcome >>= f) s = (.ok b, t)) :
    ∃ a, outcome = .ok a ∧ runStep (f a) s = (.ok b, t) := by
  unfold lift at h
  rw [runStep_bind, runStep_mk] at h
  cases outcome with
  | error failure => cases h
  | ok a => exact ⟨a, rfl, h⟩

/-- A step that takes a result up. -/
theorem leads_lift_bind {outcome : Except Failure α} {f : α → ReadingM β}
    (hok : ∀ a, outcome = .ok a → Leads P Q F (f a))
    (herror : ∀ e, outcome = .error e → ∀ s, P s → F e s) : Leads P Q F (lift outcome >>= f) := by
  unfold lift
  refine leads_bind (R := fun a s => P s ∧ outcome = .ok a) ?_ ?_
  · exact leads_mk (fun a ha s hs => ⟨hs, ha⟩) herror
  · exact fun a s hs => hok a hs.2 s hs.1

/-- What is made one by one is made from something. -/
theorem exists_of_mem_right {R : α → β → Prop} {as : List α} {bs : List β}
    (h : List.Forall₂ R as bs) {b : β} (hb : b ∈ bs) : ∃ a ∈ as, R a b := by
  induction h with
  | nil => cases hb
  | cons hfirst _ ih =>
    rcases List.mem_cons.mp hb with rfl | hrest
    · exact ⟨_, List.mem_cons_self, hfirst⟩
    · obtain ⟨a, ha, hR⟩ := ih hrest
      exact ⟨a, List.mem_cons_of_mem _ ha, hR⟩

end

/-- What the reading of the schemas keeps that a document asks for. -/
structure Answers (document : Json) (P : Reading → Prop) (F : Failure → Reading → Prop) : Prop where
  source : ∀ {s}, P s → s.source = document
  note : ∀ {s} (event : Event), P s → P { s with journal := s.journal ++ [event] }
  malformed : ∀ {s}, P s → F .malformed s
  schema : ∀ {data}, Asks document data → Leads P (fun _ => P) F (schema data)
  /-- Null may be admitted by the node of a schema that a parameter spells out itself. -/
  inline : ∀ {members}, HasParameter document members → Entries.get? members "schema" = none →
    Leads P (fun made s => P s ∧ ∀ id, made = some id →
      P { s with graph := s.graph.modify id fun n => { n with nullable := true } }) F
      (Reading.schema (.obj (inlineMembers members)))

/-- What stays, too, where the schema of a response gets a definition. -/
structure Serves (document : Json) (P : Reading → Prop) (F : Failure → Reading → Prop) : Prop
    extends Answers document P F where
  promoted : ∀ {name code data}, Responds document code data → isPromoted code data = true →
    Leads (fun s => P s ∧ Entries.has s.named (.str name) = false) (fun _ => P) F (do
      modify fun s => { s with definitions := Entries.putNew s.definitions (.str name) data }
      namedSchema (.str name))

/-- All parameters have names that the document gives them. -/
def Named (document : Json) (parameters : List Parameter) : Prop :=
  ∀ parameter ∈ parameters, ParameterName document parameter.name

namespace Answers

variable {document : Json} {P : Reading → Prop} {F : Failure → Reading → Prop}

theorem noteEvent (h : Answers document P F) (event : Event) :
    Leads P (fun _ => P) F (Reading.note event) :=
  leads_modify fun _ hs => h.note _ hs

theorem location (h : Answers document P F) (value : Json) :
    Leads P (fun _ => P) F (Reading.location value) := by
  unfold Reading.location
  refine leads_ite (fun _ => leads_pure fun _ hs => hs) fun _ => ?_
  dsimp only
  split
  · exact leads_pure fun _ hs => hs
  · exact leads_then (h.noteEvent _) fun _ => leads_pure fun _ hs => hs

theorem collectionFormat (h : Answers document P F) (value : Json) :
    Leads P (fun _ => P) F (Reading.collectionFormat value) := by
  unfold Reading.collectionFormat
  refine leads_ite (fun _ => leads_pure fun _ hs => hs) fun _ => ?_
  exact leads_ite (fun _ => leads_then (h.noteEvent _) fun _ => leads_pure fun _ hs => hs)
    fun _ => leads_pure fun _ hs => hs

theorem parameterSchema (h : Answers document P F) {members : List (String × Json)}
    (hmembers : HasParameter document members) :
    Leads P (fun _ => P) F (Reading.parameterSchema members) := by
  unfold Reading.parameterSchema
  cases hschema : Entries.get? members "schema" with
  | some data => exact h.schema (.parameter hmembers hschema)
  | none =>
    refine leads_bind (h.inline hmembers hschema) fun made => ?_
    cases made with
    | none => exact leads_pure fun s hs => hs.1
    | some id =>
      refine leads_ite (fun _ => ?_) fun _ => leads_pure fun s hs => hs.1
      exact leads_bind (R := fun _ => P) (leads_modify fun s hs => hs.2 id rfl)
        fun _ => leads_pure fun s hs => hs

theorem parameter (h : Answers document P F) {members : List (String × Json)}
    (hmembers : HasParameter document members) :
    Leads P (fun parameter s => P s ∧ parameter.name = Json.field members "name") F
      (Reading.parameter members) := by
  refine leads_then (h.location _) fun location => ?_
  refine leads_then (h.parameterSchema hmembers) fun schema => ?_
  have hnode : ∀ id : NodeId, Leads P (fun _ => P) F (node id) := fun id =>
    leads_get_bind fun s hs => leads_pure fun t ht => ht ▸ hs
  cases schema with
  | none =>
    refine leads_then (leads_pure fun _ hs => hs) fun shape => ?_
    exact leads_then (h.collectionFormat _) fun _ => leads_pure fun s hs => ⟨hs, rfl⟩
  | some id =>
    refine leads_then (hnode id) fun shape => ?_
    exact leads_then (h.collectionFormat _) fun _ => leads_pure fun s hs => ⟨hs, rfl⟩

theorem formParameters (h : Answers document P F) {data : Json} (hdata : Asks document data) :
    Leads P (fun parameters s => P s ∧ Named document parameters) F
      (Reading.formParameters data) := by
  refine leads_bind (h.schema hdata) fun schema => ?_
  cases schema with
  | none => exact leads_pure fun s hs => ⟨hs, fun _ hmem => by cases hmem⟩
  | some id =>
    refine leads_get_bind fun s hs => leads_pure ?_
    rintro _ rfl
    refine ⟨hs, ?_⟩
    intro parameter hparameter
    obtain ⟨property, -, rfl⟩ := List.mem_map.mp hparameter
    exact .property property.1

theorem bodyParameters (h : Answers document P F) {operation : List (String × Json)}
    {shared : Json} (hoperation : Declares document operation shared) :
    Leads P (fun parameters s => P s ∧ Named document parameters) F
      (Reading.bodyParameters (Json.field operation "requestBody")) := by
  refine leads_get_bind fun s hs => ?_
  rw [h.source hs]
  suffices hrest : Leads P _ F _ from hrest.weaken fun t ht => ht ▸ hs
  refine leads_lift_bind (fun body hbody => ?_) fun e he t ht =>
    Json.dereference_error he ▸ h.malformed ht
  cases body with
  | obj members =>
    have hhas : HasBody document members := .request hoperation hbody
    refine leads_lift_bind (fun media hmedia => ?_) fun e he t ht =>
      described?_error he ▸ h.malformed ht
    cases media with
    | some media =>
      exact leads_lift_bind (fun data hdata => h.formParameters (.form hhas hmedia hdata))
        fun e he t ht => mediaSchema_error he ▸ h.malformed ht
    | none =>
      refine leads_lift_bind (fun media hmedia => ?_) fun e he t ht =>
        representative?_error he ▸ h.malformed ht
      cases media with
      | none => exact leads_pure fun t ht => ⟨ht, fun _ hmem => by cases hmem⟩
      | some media =>
        refine leads_lift_bind (fun data hdata => ?_) fun e he t ht =>
          mediaSchema_error he ▸ h.malformed ht
        refine leads_bind (h.schema (.body hhas hmedia hdata)) fun schema => ?_
        refine leads_pure fun t ht => ⟨ht, ?_⟩
        intro parameter hparameter
        rw [List.mem_singleton.mp hparameter]
        exact .body hhas
  | _ => exact leads_pure fun t ht => ⟨ht, fun _ hmem => by cases hmem⟩

theorem listedParameters (h : Answers document P F) {operation : List (String × Json)} {shared : Json}
    (hoperation : Declares document operation shared) {own : List Json}
    (hown : (Entries.get? operation "parameters").getD (.arr []) = .arr own) :
    Leads P (fun parameters s => P s ∧ Named document parameters) F
      (Reading.listedParameters own shared) := by
  refine leads_lift_bind (fun inherited hinherited => ?_) fun e he t ht =>
    Json.listed_error he ▸ h.malformed ht
  refine leads_get_bind fun s hs => ?_
  rw [h.source hs]
  suffices hrest : Leads P _ F _ from hrest.weaken fun t ht => ht ▸ hs
  refine leads_lift_bind (fun merged hmerged => ?_) fun e he t ht =>
    takeParameters_error he ▸ h.malformed ht
  have hlisted : ∀ entry ∈ merged, HasParameter document entry.2
      ∧ Json.flag entry.2 "name" = true := by
    intro entry hentry
    rcases mem_takeParameters hmerged hentry with hnone | ⟨data, hdata, hmembers, hname⟩
    · cases hnone
    · exact ⟨.listed hoperation hown hinherited hdata hmembers, hname⟩
  refine (leads_mapM fun entry hentry => h.parameter (hlisted entry hentry).1).mono
    (fun _ ht => ht) ?_ fun _ _ ht => ht
  rintro parameters s ⟨hs, hparameters⟩
  refine ⟨hs, ?_⟩
  intro parameter hparameter
  obtain ⟨entry, hentry, hname⟩ := exists_of_mem_right hparameters hparameter
  exact hname ▸ .parameter (hlisted entry hentry).1 (hlisted entry hentry).2

theorem operationParameters (h : Answers document P F) {operation : List (String × Json)}
    {shared : Json} (hoperation : Declares document operation shared) :
    Leads P (fun parameters s => P s ∧ ∀ found, parameters = some found → Named document found) F
      (Reading.operationParameters operation shared) := by
  by_cases hlist : ∃ own, (Entries.get? operation "parameters").getD (.arr []) = .arr own
  · obtain ⟨own, hown⟩ := hlist
    rw [operationParameters_of_list hown]
    refine leads_bind (h.listedParameters hoperation hown) fun parameters => ?_
    rintro s ⟨hs, hnamed⟩
    refine (leads_bind (h.bodyParameters hoperation) fun more => leads_pure ?_) s hs
    rintro t ⟨ht, hmore⟩
    refine ⟨ht, ?_⟩
    rintro _ ⟨⟩ parameter hparameter
    exact (List.mem_append.mp hparameter).elim (hnamed parameter) (hmore parameter)
  · rw [operationParameters_of_no_list (not_exists.mp hlist)]
    exact leads_pure fun s hs => ⟨hs, fun _ hfound => by cases hfound⟩

end Answers

namespace Serves

variable {document : Json} {P : Reading → Prop} {F : Failure → Reading → Prop}

theorem responseSchema (h : Serves document P F) {code : String} {data : Json}
    (hdata : data = .null ∨ Responds document code data) (operationId : Option String) :
    Leads P (fun _ => P) F (Reading.responseSchema code data operationId) := by
  have hasks : Asks document data := by
    rcases hdata with rfl | hresponds
    · exact .nothing
    · exact .response hresponds
  unfold Reading.responseSchema
  cases operationId with
  | none => exact h.schema hasks
  | some id =>
    refine leads_get_bind fun s hs => ?_
    split
    · rename_i hpromoted
      simp only [Bool.and_eq_true, Bool.not_eq_true'] at hpromoted
      obtain ⟨⟨hcode, -⟩, hnew⟩ := hpromoted
      have hresponds : Responds document code data := by
        refine hdata.resolve_left ?_
        rintro rfl
        cases hcode
      rw [← bind_pure_comp, ← bind_assoc]
      refine leads_bind ((h.promoted hresponds hcode).weaken ?_) fun _ => leads_pure fun _ ht => ht
      rintro _ rfl
      exact ⟨hs, hnew⟩
    · exact (h.schema hasks).weaken fun t ht => ht ▸ hs

/-- A response that has been found. -/
def responseOf (operationId : Option String) (code : String) (members : List (String × Json)) :
    ReadingM Response := do
  let contentTypes ← lift (Json.listed (Json.field members "content"))
  let data ← match Entries.get? members "schema" with
    | some data => pure data
    | none =>
      match ← lift (representative? (Json.field members "content")) with
      | none => pure .null
      | some media => lift (mediaSchema media)
  let schema ← Reading.responseSchema code data operationId
  return {
    schema := schema
    nullable := Json.flag members "x-nullable"
    description := (Entries.get? members "description").getD (.str "")
    contentTypes := contentTypes }

theorem responseOf_leads (h : Serves document P F) {code : String}
    {members : List (String × Json)} (hmembers : members = [] ∨ HasResponse document code members)
    (operationId : Option String) :
    Leads P (fun _ => P) F (responseOf operationId code members) := by
  have hschema : ∀ (made : Option NodeId → Response) data,
      (data = .null ∨ Responds document code data) → Leads P (fun _ => P) F (do
        return made (← Reading.responseSchema code data operationId)) :=
    fun made data hdata => leads_then (h.responseSchema hdata operationId) fun _ =>
      leads_pure fun _ hs => hs
  unfold responseOf
  refine leads_lift_bind (fun contentTypes _ => ?_) fun e he t ht =>
    Json.listed_error he ▸ h.malformed ht
  cases hdata : Entries.get? members "schema" with
  | some data =>
    have hhas : HasResponse document code members := by
      refine hmembers.resolve_left ?_
      rintro rfl
      cases hdata
    exact hschema _ data (Or.inr (.schema hhas hdata))
  | none =>
    refine leads_lift_bind (fun media hmedia => ?_) fun e he t ht =>
      representative?_error he ▸ h.malformed ht
    cases media with
    | none => exact hschema _ .null (Or.inl rfl)
    | some media =>
      have hhas : HasResponse document code members := by
        refine hmembers.resolve_left ?_
        rintro rfl
        cases hmedia
      exact leads_lift_bind (fun data hdata => hschema _ data (Or.inr (.content hhas hmedia hdata)))
        fun e he t ht => mediaSchema_error he ▸ h.malformed ht

theorem response (h : Serves document P F) {operation entries : List (String × Json)}
    {shared data : Json} {code : String} (hoperation : Declares document operation shared)
    (hentries : Json.field operation "responses" = .obj entries) (hentry : (code, data) ∈ entries)
    (operationId : Option String) :
    Leads P (fun _ => P) F (Reading.response operationId code data) := by
  refine leads_get_bind fun s hs => ?_
  rw [h.source hs]
  suffices hrest : Leads P _ F _ from hrest.weaken fun t ht => ht ▸ hs
  refine leads_lift_bind (fun found hfound => ?_) fun e he t ht =>
    Json.dereference_error he ▸ h.malformed ht
  cases found with
  | obj members =>
    exact h.responseOf_leads (Or.inr (.listed hoperation hentries hentry hfound)) operationId
  | _ => exact h.responseOf_leads (Or.inl rfl) operationId

theorem operationResponses (h : Serves document P F) {operation : List (String × Json)}
    {shared : Json} (hoperation : Declares document operation shared)
    (operationId : Option String) :
    Leads P (fun _ => P) F
      (Reading.operationResponses operationId (Json.field operation "responses")) := by
  cases hentries : Json.field operation "responses" with
  | obj entries =>
    show Leads P _ F (some <$> entries.mapM _)
    rw [map_eq_pure_bind]
    refine leads_bind (R := fun _ => P) ?_ fun _ => leads_pure fun _ hs => hs
    refine (leads_mapM (Q := fun _ _ => True) fun entry hentry => ?_).mono (fun _ hs => hs)
      (fun _ _ hs => hs.1) fun _ _ hs => hs
    exact leads_bind (h.response hoperation hentries hentry operationId) fun _ =>
      leads_pure fun _ hs => ⟨hs, trivial⟩
  | _ => exact leads_pure fun _ hs => hs

/-- All parameters of an operation have names that the document gives them. -/
def NamedIn (document : Json) (operation : Operation) : Prop :=
  ∀ parameters, operation.parameters = some parameters → Named document parameters

theorem operation (h : Serves document P F) {operation : List (String × Json)} {shared : Json}
    (hoperation : Declares document operation shared) (path method : String) :
    Leads P (fun operation s => P s ∧ NamedIn document operation) F
      (Reading.operation path method operation shared) := by
  refine leads_bind (h.operationParameters hoperation) fun parameters => ?_
  rintro s ⟨hs, hnamed⟩
  refine (leads_bind (h.operationResponses hoperation _) fun _ => leads_pure ?_) s hs
  exact fun t ht => ⟨ht, hnamed⟩

theorem pathOperations (h : Serves document P F) {members paths : List (String × Json)}
    (hmembers : Json.membersOf document = .ok members)
    (hpaths : Json.fields (Json.field members "paths") = .ok paths) {path : String} {item : Json}
    (hitem : (path, item) ∈ paths) :
    Leads P (fun operations s => P s ∧ ∀ operation ∈ operations, NamedIn document operation) F
      (Reading.pathOperations path item) := by
  unfold Reading.pathOperations
  cases item with
  | obj members =>
    refine (leads_mapM (Q := fun _ => NamedIn document) fun entry hentry => ?_).mono
      (fun _ hs => hs) ?_ fun _ _ hs => hs
    · obtain ⟨method, hmethod, hfound⟩ := List.mem_filterMap.mp hentry
      have hoperation : Declares document entry.2 (Json.field members "parameters") := by
        split at hfound
        · rename_i operation hdata
          cases hfound
          exact .method hmembers hpaths hitem hmethod hdata
        · cases hfound
      exact h.operation hoperation path entry.1
    · rintro operations s ⟨hs, hnamed⟩
      refine ⟨hs, fun operation hmem => ?_⟩
      obtain ⟨_, -, hoperation⟩ := exists_of_mem_right hnamed hmem
      exact hoperation
  | _ => exact leads_pure fun s hs => ⟨hs, fun _ hmem => by cases hmem⟩

/-- The reading of all operations keeps what the reading of the schemas that they ask for keeps. -/
theorem operations (h : Serves document P F) :
    Leads P (fun operations s => P s ∧ ∀ operation ∈ operations, NamedIn document operation) F
      Reading.operations := by
  refine leads_get_bind fun s hs => ?_
  rw [h.source hs]
  suffices hrest : Leads P _ F _ from hrest.weaken fun t ht => ht ▸ hs
  refine leads_lift_bind (fun members hmembers => ?_) fun e he t ht =>
    Json.membersOf_error he ▸ h.malformed ht
  refine leads_lift_bind (fun paths hpaths => ?_) fun e he t ht =>
    Json.fields_error he ▸ h.malformed ht
  refine leads_bind (leads_mapM (Q := fun _ operations => ∀ operation ∈ operations,
    NamedIn document operation) fun entry hentry => h.pathOperations hmembers hpaths hentry)
    fun found => leads_pure ?_
  rintro t ⟨ht, hfound⟩
  refine ⟨ht, fun operation hmem => ?_⟩
  obtain ⟨operations, hoperations, hoperation⟩ := List.mem_flatten.mp hmem
  obtain ⟨_, -, hall⟩ := exists_of_mem_right hfound hoperations
  exact hall operation hoperation

end Serves

end Reading

end ApiClients
