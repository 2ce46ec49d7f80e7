import ApiClients.Proofs.Counts
import ApiClients.Proofs.Pointers
import ApiClients.Proofs.ReadingOperations

/-!
# References to parameters, bodies and responses

Where an operation or a path has a parameter, the body of a request or a response, there may be a
reference, and what that points to may be a reference again (`RefChain`).  A chain of one reference is
read as the object at its end would be in the same place.  Of a longer one only the first reference is
followed: what it points to is taken for the object itself, and what stands there beside the second
reference is all that is read (`references_followed_once`).  If nothing stands there, as is usual, then
a parameter is dropped, a body has no parameters and a response has no schema.
-/

namespace ApiClients

namespace Reading

/-! ### Chains -/

/-- A chain of references that leads from a value to an object which is none, with its length.  Each of
them is a pointer along members of objects. -/
inductive RefChain (document : Json) : Json → Nat → List (String × Json) → Prop
  | here {members : List (String × Json)} (h : Entries.get? members "$ref" = none) :
      RefChain document (.obj members) 0 members
  | reference {members final : List (String × Json)} {ref : String} {next : Json} {length : Nat}
      (href : Entries.get? members "$ref" = some (.str ref))
      (hnext : Json.Found document ((Json.refSegments ref).drop 1) next)
      (h : RefChain document next length final) : RefChain document (.obj members) (length + 1) final

/-- What an object says beside a reference in it. -/
def besideRef (members : List (String × Json)) : List (String × Json) :=
  members.filter (·.1 ≠ "$ref")

theorem get?_besideRef (members : List (String × Json)) {key : String} (h : key ≠ "$ref") :
    Entries.get? (besideRef members) key = Entries.get? members key :=
  Json.get?_filter_ne h

section

variable {document entry : Json} {members final : List (String × Json)} {ref : String} {length : Nat}

theorem get?_besideRef_self (members : List (String × Json)) :
    Entries.get? (besideRef members) "$ref" = none := by
  simp [besideRef, Entries.get?]

theorem dereference_of_none (h : Entries.get? members "$ref" = none) :
    Json.dereference document (.obj members) = .ok (.obj members) := by
  simp only [Json.dereference, h]

theorem dereference_of_reference (h : Entries.get? members "$ref" = some (.str ref)) :
    Json.dereference document (.obj members) = .ok (Json.target document ref) := by
  simp only [Json.dereference, h]

theorem RefChain.get?_ref (h : RefChain document entry length final) :
    Entries.get? final "$ref" = none := by
  induction h with
  | here h => exact h
  | reference _ _ _ ih => exact ih

theorem target_of_found (hfound : Json.Found document ((Json.refSegments ref).drop 1) (.obj members)) :
    Json.target document ref = .obj members := by
  unfold Json.target
  rw [Json.follow_of_found hfound]
  cases members <;> rfl

/-- A chain of one reference at most leads to its end in one step. -/
theorem RefChain.dereference_short (h : RefChain document entry length final) (hlength : length ≤ 1) :
    Json.dereference document entry = .ok (.obj final) := by
  cases h with
  | here h => exact dereference_of_none h
  | reference href hfound h =>
    cases h with
    | here _ => rw [dereference_of_reference href, target_of_found hfound]
    | reference => omega

/-- A longer chain leads to a reference in one step. -/
theorem RefChain.dereference_long (h : RefChain document entry length final)
    (hlength : 1 < length) : ∃ first ref, Json.dereference document entry = .ok (.obj first)
      ∧ Entries.get? first "$ref" = some (.str ref)
      ∧ RefChain document (.obj first) (length - 1) final := by
  cases h with
  | here => omega
  | reference href hfound h =>
    cases h with
    | here => omega
    | @reference first _ ref _ _ href' hfound' h' =>
      refine ⟨first, ref, ?_, href', .reference href' hfound' h'⟩
      rw [dereference_of_reference href, target_of_found hfound]

end

/-! ### What is read of an object -/

section

variable {members members' : List (String × Json)}

theorem field_congr {key : String} (h : Entries.get? members key = Entries.get? members' key) :
    Json.field members key = Json.field members' key := by
  unfold Json.field
  rw [h]

/-- Two objects that differ only in a reference are one parameter. -/
theorem parameter_congr
    (h : ∀ key, key ≠ "$ref" → Entries.get? members key = Entries.get? members' key) :
    parameter members = parameter members' := by
  have hfield : ∀ key, key ≠ "$ref" → Json.field members key = Json.field members' key :=
    fun key hkey => field_congr (h key hkey)
  have hinline : (inlineKeywords.filterMap fun key =>
        (Entries.get? members key).map fun value => (key, value))
      = inlineKeywords.filterMap fun key =>
        (Entries.get? members' key).map fun value => (key, value) := by
    refine List.filterMap_congr fun key hkey => ?_
    rw [h key (by rintro rfl; revert hkey; decide)]
  have hschema : parameterSchema members = parameterSchema members' := by
    unfold parameterSchema
    simp only [h "schema" (by decide), hinline, Json.flag, hfield "x-nullable" (by decide)]
    rfl
  unfold parameter
  simp only [hschema, Json.flag, h "required" (by decide), h "default" (by decide),
    hfield "in" (by decide), hfield "collectionFormat" (by decide), hfield "explode" (by decide),
    hfield "name" (by decide), hfield "deprecated" (by decide), hfield "description" (by decide)]
  rfl

/-- The response of an object, without what it says in a reference. -/
theorem responseOf_congr
    (h : ∀ key, key ≠ "$ref" → Entries.get? members key = Entries.get? members' key)
    (operationId : Option String) (code : String) :
    Serves.responseOf operationId code members = Serves.responseOf operationId code members' := by
  have hfield : ∀ key, key ≠ "$ref" → Json.field members key = Json.field members' key :=
    fun key hkey => field_congr (h key hkey)
  unfold Serves.responseOf
  simp only [Json.flag, h "schema" (by decide), h "description" (by decide),
    hfield "content" (by decide), hfield "x-nullable" (by decide)]

end

/-- Two values stand for one another in a document: one step leads from both to the same, but for a
reference in it. -/
def Interchangeable (document a b : Json) : Prop :=
  Json.dereference document a = Json.dereference document b
    ∨ ∃ members members', Json.dereference document a = .ok (.obj members)
      ∧ Json.dereference document b = .ok (.obj members')
      ∧ ∀ key, key ≠ "$ref" → Entries.get? members key = Entries.get? members' key

theorem Interchangeable.refl (document a : Json) : Interchangeable document a a := Or.inl rfl

section

variable {s : Reading} {a b : Json}

theorem bodyParameters_congr (h : Interchangeable s.source a b) :
    runStep (bodyParameters a) s = runStep (bodyParameters b) s := by
  unfold bodyParameters
  rw [runStep_bind_of_ok (runStep_get s), runStep_bind_of_ok (runStep_get s)]
  rcases h with hsame | ⟨members, members', ha, hb, h⟩
  · rw [hsame]
  · have hfield : ∀ key, key ≠ "$ref" → Json.field members key = Json.field members' key :=
      fun key hkey => field_congr (h key hkey)
    rw [ha, hb, lift_ok_bind, lift_ok_bind]
    simp only [Json.flag, h "x-name" (by decide), hfield "content" (by decide),
      hfield "required" (by decide), hfield "description" (by decide)]

theorem response_eq (operationId : Option String) (code : String) (data : Json) :
    response operationId code data = (do
      match ← lift (Json.dereference (← get).source data) with
      | .obj members => Serves.responseOf operationId code members
      | _ => Serves.responseOf operationId code []) := by
  refine congrArg (get >>= ·) (funext fun s => ?_)
  refine congrArg (lift (Json.dereference s.source data) >>= ·) (funext fun value => ?_)
  cases value <;> rfl

theorem response_congr (h : Interchangeable s.source a b) (operationId : Option String)
    (code : String) :
    runStep (response operationId code a) s = runStep (response operationId code b) s := by
  rw [response_eq, response_eq, runStep_bind_of_ok (runStep_get s),
    runStep_bind_of_ok (runStep_get s)]
  rcases h with hsame | ⟨members, members', ha, hb, h⟩
  · rw [hsame]
  · rw [ha, hb, lift_ok_bind, lift_ok_bind]
    exact congrArg (runStep · s) (responseOf_congr h operationId code)

end

/-! ### Lists of parameters -/

section

variable {document a b : Json} {merged merged' : List ((Json × Json) × List (String × Json))}

/-- The identities of parameters with the reading of them. -/
def asRead (merged : List ((Json × Json) × List (String × Json))) :
    List ((Json × Json) × ReadingM Parameter) :=
  merged.map (Prod.map id parameter)

theorem asRead_putAlike (key : Json × Json) (members : List (String × Json))
    (merged : List ((Json × Json) × List (String × Json))) :
    asRead (Entries.putAlike sameIdentity key members merged)
      = Entries.putAlike sameIdentity key (parameter members) (asRead merged) := by
  induction merged with
  | nil => rfl
  | cons first rest ih =>
    obtain ⟨other, others⟩ := first
    by_cases halike : sameIdentity other key = true
    · simp [asRead, Entries.putAlike, halike]
    · simpa [asRead, Entries.putAlike, halike] using ih

theorem takeParameter_congr_obj {members members' : List (String × Json)}
    (hmerged : asRead merged = asRead merged')
    (ha : Json.dereference document a = .ok (.obj members))
    (hb : Json.dereference document b = .ok (.obj members'))
    (h : ∀ key, key ≠ "$ref" → Entries.get? members key = Entries.get? members' key) :
    (takeParameter document merged a).map asRead = (takeParameter document merged' b).map asRead := by
  have hname : Json.field members "name" = Json.field members' "name" :=
    field_congr (h "name" (by decide))
  rw [takeParameter_obj ha, takeParameter_obj hb, Json.flag, Json.flag, hname, h "in" (by decide)]
  split
  · exact congrArg Except.ok hmerged
  · split
    · refine congrArg Except.ok ?_
      rw [asRead_putAlike, asRead_putAlike, parameter_congr h, hmerged]
    · rfl

theorem takeParameter_congr (hmerged : asRead merged = asRead merged')
    (h : Interchangeable document a b) :
    (takeParameter document merged a).map asRead = (takeParameter document merged' b).map asRead := by
  rcases h with hsame | ⟨members, members', ha, hb, h⟩
  case inr => exact takeParameter_congr_obj hmerged ha hb h
  cases hvalue : Json.dereference document b with
  | error e =>
    rw [takeParameter_failed (hsame.trans hvalue), takeParameter_failed hvalue]
  | ok value =>
    cases value with
    | obj members =>
      exact takeParameter_congr_obj hmerged (hsame.trans hvalue) hvalue fun _ _ => rfl
    | _ =>
      rw [takeParameter_other (hsame.trans hvalue) (by simp), takeParameter_other hvalue (by simp)]
      exact congrArg Except.ok hmerged

theorem takeParameters_congr {entries entries' : List Json}
    (h : List.Forall₂ (Interchangeable document) entries entries')
    (hmerged : asRead merged = asRead merged') :
    (entries.foldlM (takeParameter document) merged).map asRead
      = (entries'.foldlM (takeParameter document) merged').map asRead := by
  induction h generalizing merged merged' with
  | nil => exact congrArg Except.ok hmerged
  | @cons entry entry' _ _ hfirst _ ih =>
    have htaken := takeParameter_congr hmerged hfirst
    rw [List.foldlM_cons, List.foldlM_cons]
    rcases ha : takeParameter document merged entry with e | taken <;>
      rcases hb : takeParameter document merged' entry' with e' | taken' <;> rw [ha, hb] at htaken
    · exact congrArg Except.error (Except.error.inj htaken)
    · cases htaken
    · cases htaken
    · exact ih (Except.ok.inj htaken)

end

/-- Lists of parameters that stand for one another are read alike. -/
theorem listedParameters_congr {s : Reading} {own own' inherited inherited' : List Json}
    {shared shared' : Json} (hshared : Json.listed shared = .ok inherited)
    (hshared' : Json.listed shared' = .ok inherited')
    (h : List.Forall₂ (Interchangeable s.source) (inherited ++ own) (inherited' ++ own')) :
    runStep (listedParameters own shared) s = runStep (listedParameters own' shared') s := by
  have hread : ∀ merged : List ((Json × Json) × List (String × Json)),
      (merged.mapM fun entry => parameter entry.2) = (asRead merged).mapM (·.2) := by
    intro merged
    rw [asRead, List.mapM_map]
    rfl
  unfold listedParameters
  rw [hshared, hshared', lift_ok_bind, lift_ok_bind, runStep_bind_of_ok (runStep_get s),
    runStep_bind_of_ok (runStep_get s)]
  have hmerged := takeParameters_congr h (rfl : asRead [] = asRead [])
  rcases ha : (inherited ++ own).foldlM (takeParameter s.source) [] with e | merged <;>
    rcases hb : (inherited' ++ own').foldlM (takeParameter s.source) [] with e' | merged' <;>
    rw [ha, hb] at hmerged
  · rw [Except.error.inj hmerged]
  · cases hmerged
  · cases hmerged
  · rw [lift_ok_bind, lift_ok_bind]
    exact congrArg (runStep · s) ((hread merged).trans
      ((congrArg (List.mapM (·.2)) (Except.ok.inj hmerged)).trans (hread merged').symm))

theorem listedParameters_own {s : Reading} {own own' : List Json}
    (h : List.Forall₂ (Interchangeable s.source) own own') (shared : Json) :
    runStep (listedParameters own shared) s = runStep (listedParameters own' shared) s := by
  cases hshared : Json.listed shared with
  | error e =>
    unfold listedParameters
    rw [hshared]
    rfl
  | ok inherited =>
    refine listedParameters_congr hshared hshared ?_
    exact List.rel_append (List.forall₂_same.mpr fun _ _ => .refl _ _) h

/-! ### Operations -/

section

variable {s : Reading} {members members' : List (String × Json)} {shared shared' : Json}

theorem operation_congr (hs : s.Sound) (hoperation : Declares s.source members shared)
    (hothers : ∀ key, key ≠ "parameters" → key ≠ "requestBody" → key ≠ "responses" →
      Entries.get? members key = Entries.get? members' key)
    (hparameters : runStep (operationParameters members shared) s
      = runStep (operationParameters members' shared') s)
    (hresponses : ∀ operationId t, s.After t →
      runStep (operationResponses operationId (Json.field members "responses")) t
        = runStep (operationResponses operationId (Json.field members' "responses")) t)
    (path method : String) :
    runStep (operation path method members shared) s
      = runStep (operation path method members' shared') s := by
  have hfield : ∀ key, key ≠ "parameters" → key ≠ "requestBody" → key ≠ "responses" →
      Json.field members key = Json.field members' key :=
    fun key h h' h'' => field_congr (hothers key h h' h'')
  unfold operation
  simp only [Json.flag, hfield "operationId" (by decide) (by decide) (by decide),
    hfield "tags" (by decide) (by decide) (by decide),
    hfield "summary" (by decide) (by decide) (by decide),
    hfield "description" (by decide) (by decide) (by decide),
    hfield "deprecated" (by decide) (by decide) (by decide)]
  rw [runStep_bind, runStep_bind, ← hparameters]
  rcases hrun : runStep (operationParameters members shared) s with ⟨e | parameters, t⟩
  · rfl
  · have ht := ((serves_stays s).operationParameters hoperation s hs.after).1 parameters t hrun
    simp only [runStep_bind, hresponses _ t ht.1]

theorem operationParameters_congr (hs : s.Sound) (hoperation : Declares s.source members shared)
    {own own' : List Json} (hown : (Entries.get? members "parameters").getD (.arr []) = .arr own)
    (hown' : (Entries.get? members' "parameters").getD (.arr []) = .arr own')
    (hlisted : runStep (listedParameters own shared) s = runStep (listedParameters own' shared') s)
    (hbody : Interchangeable s.source (Json.field members "requestBody")
      (Json.field members' "requestBody")) :
    runStep (operationParameters members shared) s
      = runStep (operationParameters members' shared') s := by
  rw [operationParameters_of_list hown, operationParameters_of_list hown', runStep_bind,
    runStep_bind, ← hlisted]
  rcases hrun : runStep (listedParameters own shared) s with ⟨e | parameters, t⟩
  · rfl
  · have ht := ((serves_stays s).listedParameters hoperation hown s hs.after).1 parameters t hrun
    rw [← ht.1.2.source] at hbody
    simp only [runStep_bind, bodyParameters_congr hbody]

theorem operationParameters_body (hs : s.Sound) (hoperation : Declares s.source members shared)
    (hlists : Entries.get? members "parameters" = Entries.get? members' "parameters")
    (hbody : Interchangeable s.source (Json.field members "requestBody")
      (Json.field members' "requestBody")) :
    runStep (operationParameters members shared) s
      = runStep (operationParameters members' shared) s := by
  by_cases hlist : ∃ own, (Entries.get? members "parameters").getD (.arr []) = .arr own
  · obtain ⟨own, hown⟩ := hlist
    exact operationParameters_congr hs hoperation hown (hlists ▸ hown) rfl hbody
  · have hnone := not_exists.mp hlist
    rw [operationParameters_of_no_list hnone, operationParameters_of_no_list (hlists ▸ hnone)]

/-- Two lists with one item in the place of another. -/
theorem forall₂_replaced {α : Type} {R : α → α → Prop} (hrefl : ∀ a, R a a) {a b : α} (h : R a b)
    (before after : List α) : List.Forall₂ R (before ++ a :: after) (before ++ b :: after) :=
  List.rel_append (List.forall₂_same.mpr fun a _ => hrefl a)
    (.cons h (List.forall₂_same.mpr fun a _ => hrefl a))

/-- Responses of which one stands for another are read alike. -/
theorem operationResponses_congr (hoperation : Declares s.source members shared)
    {before after : List (String × Json)} {code : String} {a b : Json}
    (hentries : Json.field members "responses" = .obj (before ++ (code, a) :: after))
    (h : Interchangeable s.source a b) (operationId : Option String) {t : Reading}
    (ht : s.After t) :
    runStep (operationResponses operationId (.obj (before ++ (code, a) :: after))) t
      = runStep (operationResponses operationId (.obj (before ++ (code, b) :: after))) t := by
  show runStep (some <$> List.mapM _ _) t = runStep (some <$> List.mapM _ _) t
  rw [map_eq_pure_bind, map_eq_pure_bind, runStep_bind, runStep_bind]
  rw [runStep_mapM_congr (P := s.After) (F := fun _ u => s.After u ∧ True) ?alike ?kept ht]
  case alike =>
    refine forall₂_replaced (fun _ _ _ => rfl) ?_ before after
    intro u hu
    rw [← hu.2.source] at h
    rw [runStep_bind, runStep_bind, response_congr h]
  case kept =>
    intro entry hentry
    exact leads_then ((serves_stays s).response hoperation hentries hentry operationId) fun _ =>
      leads_pure fun _ hu => hu

end

/-! ### Places of references -/

/-- A place where a reference may stand in an operation or its path, with all that is around it. -/
inductive Place where
  /-- In the parameters of the operation. -/
  | own (members : List (String × Json)) (shared : Json) (before after : List Json)
  /-- In the parameters of its path. -/
  | inherited (members : List (String × Json)) (before after : List Json)
  | body (members : List (String × Json)) (shared : Json)
  | response (members : List (String × Json)) (shared : Json) (code : String)
    (before after : List (String × Json))

namespace Place

/-- The operation with a value in the place. -/
def members (value : Json) : Place → List (String × Json)
  | own members _ before after =>
    Entries.put "parameters" (.arr (before ++ value :: after)) members
  | inherited members _ _ => members
  | body members _ => Entries.put "requestBody" value members
  | response members _ code before after =>
    Entries.put "responses" (.obj (before ++ (code, value) :: after)) members

/-- The parameters of its path with a value in the place. -/
def shared (value : Json) : Place → Json
  | own _ shared _ _ => shared
  | inherited _ before after => .arr (before ++ value :: after)
  | body _ shared => shared
  | response _ shared _ _ _ => shared

/-- The operation is read with a value in the place. -/
def operation (place : Place) (path method : String) (value : Json) : ReadingM Operation :=
  Reading.operation path method (place.members value) (place.shared value)

variable {s : Reading} {a b : Json}

theorem field_put (key : String) (value : Json) (members : List (String × Json)) :
    Json.field (Entries.put key value members) key = value := by
  rw [Json.field, Entries.get?_put, Option.getD_some]

theorem listed_replaced (value : Json) (before after : List Json) :
    Json.listed (.arr (before ++ value :: after)) = .ok (before ++ value :: after) := by
  simp [Json.listed, Json.given]

/-- Of two values that stand for one another each may be put in the place of the other. -/
theorem operation_interchanged (place : Place) (hs : s.Sound)
    (hoperation : Declares s.source (place.members a) (place.shared a))
    (h : Interchangeable s.source a b) (path method : String) :
    runStep (place.operation path method a) s = runStep (place.operation path method b) s := by
  cases place with
  | own members shared before after =>
    have hown : ∀ value, (Entries.get? (Place.members value (.own members shared before after))
        "parameters").getD (.arr []) = .arr (before ++ value :: after) := fun value => by
      rw [Place.members, Entries.get?_put, Option.getD_some]
    refine operation_congr hs hoperation ?others ?parameters ?responses path method
    case others =>
      intro key hkey _ _
      simp only [Place.members, Entries.get?_put_of_ne hkey]
    case parameters =>
      refine operationParameters_congr hs hoperation (hown a) (hown b) ?_ ?_
      · exact listedParameters_own (forall₂_replaced (.refl _) h before after) shared
      · simp only [Place.members, Json.field,
          Entries.get?_put_of_ne (show "requestBody" ≠ "parameters" by decide)]
        exact .refl _ _
    case responses =>
      intro operationId t _
      simp only [Place.members, Json.field,
        Entries.get?_put_of_ne (show "responses" ≠ "parameters" by decide)]
  | inherited members before after =>
    refine operation_congr hs hoperation (fun _ _ _ _ => rfl) ?_ (fun _ _ _ => rfl) path method
    simp only [Place.members, Place.shared] at hoperation ⊢
    by_cases hlist : ∃ own, (Entries.get? members "parameters").getD (.arr []) = .arr own
    · obtain ⟨own, hown⟩ := hlist
      refine operationParameters_congr hs hoperation hown hown ?_ (.refl _ _)
      refine listedParameters_congr (listed_replaced a before after)
        (listed_replaced b before after) ?_
      rw [List.append_assoc, List.append_assoc, List.cons_append, List.cons_append]
      exact forall₂_replaced (.refl _) h before (after ++ own)
    · rw [operationParameters_of_no_list (not_exists.mp hlist),
        operationParameters_of_no_list (not_exists.mp hlist)]
  | body members shared =>
    refine operation_congr hs hoperation ?others ?parameters ?responses path method
    case others =>
      intro key _ hkey _
      simp only [Place.members, Entries.get?_put_of_ne hkey]
    case parameters =>
      refine operationParameters_body hs hoperation ?_ ?_
      · simp only [Place.members,
          Entries.get?_put_of_ne (show "parameters" ≠ "requestBody" by decide)]
      · simpa only [Place.members, field_put] using h
    case responses =>
      intro operationId t _
      simp only [Place.members, Json.field,
        Entries.get?_put_of_ne (show "responses" ≠ "requestBody" by decide)]
  | response members shared code before after =>
    refine operation_congr hs hoperation ?others ?parameters ?responses path method
    case others =>
      intro key _ _ hkey
      simp only [Place.members, Entries.get?_put_of_ne hkey]
    case parameters =>
      refine operationParameters_body hs hoperation ?_ ?_
      · simp only [Place.members,
          Entries.get?_put_of_ne (show "parameters" ≠ "responses" by decide)]
      · simp only [Place.members, Json.field,
          Entries.get?_put_of_ne (show "requestBody" ≠ "responses" by decide)]
        exact .refl _ _
    case responses =>
      intro operationId t ht
      have hentries := field_put "responses" (.obj (before ++ (code, a) :: after)) members
      have hlater := operationResponses_congr hoperation hentries h operationId ht
      simpa only [Place.members, field_put] using hlater

end Place

/-! ### What is read of a chain -/

/-- Nothing is read of a value: it is passed over in a list of parameters, it has no parameters as the
body of a request, and as a response it has no schema and says nothing else. -/
structure Unread (s : Reading) (value : Json) : Prop where
  parameter : ∀ merged, takeParameter s.source merged value = .ok merged
  body : runStep (bodyParameters value) s = (.ok [], s)
  response : ∀ operationId code,
    runStep (response operationId code value) s = (.ok { schema := none }, s)

section

variable {s : Reading} {entry : Json} {members final : List (String × Json)} {ref : String}
  {length : Nat}

theorem runStep_schema_null (s : Reading) : runStep (schema .null) s = (.ok none, s) := by
  unfold schema
  rw [runStep_bind_of_ok (runStep_get s)]
  obtain ⟨depth, hdepth⟩ : ∃ depth, s.depthBound .null = depth + 1 := by
    refine Nat.exists_eq_succ_of_ne_zero (Nat.ne_of_gt ?_)
    unfold depthBound
    exact Nat.mul_pos (Nat.succ_pos _) (Nat.mul_pos (Nat.succ_pos _) (Nat.succ_pos _))
  rw [hdepth]
  rfl

theorem runStep_responseSchema_null (operationId : Option String) (code : String) (s : Reading) :
    runStep (responseSchema code .null operationId) s = (.ok none, s) := by
  cases operationId with
  | none => exact runStep_schema_null s
  | some id =>
    unfold responseSchema
    rw [runStep_bind_of_ok (runStep_get s)]
    simp only [isPromoted, Bool.false_and, Bool.false_eq_true, if_false]
    exact runStep_schema_null s

theorem unread_of_nothing
    (h : Json.dereference s.source entry = .ok (.obj members))
    (hnothing : ∀ key, key ≠ "$ref" → Entries.get? members key = none) : Unread s entry := by
  have hfield : ∀ key, key ≠ "$ref" → Json.field members key = .null := by
    intro key hkey
    rw [Json.field, hnothing key hkey]
    rfl
  refine ⟨?parameter, ?body, ?response⟩
  case parameter =>
    intro merged
    rw [takeParameter_obj h, Json.flag, hfield "name" (by decide)]
    rfl
  case body =>
    unfold bodyParameters
    rw [runStep_bind_of_ok (runStep_get s), h, lift_ok_bind]
    simp only [hfield "content" (by decide)]
    rfl
  case response =>
    intro operationId code
    have hempty : Serves.responseOf operationId code members = Serves.responseOf operationId code [] :=
      responseOf_congr hnothing operationId code
    have hrest : Serves.responseOf operationId code [] = (do
        let schema ← responseSchema code .null operationId
        return { schema := schema }) := rfl
    rw [response_eq, runStep_bind_of_ok (runStep_get s), h, lift_ok_bind]
    simp only [hempty, hrest]
    rw [runStep_bind_of_ok (runStep_responseSchema_null operationId code s)]
    rfl

theorem unread_of_list {before after : List String} {segment : String} {items : List Json}
    (href : Entries.get? members "$ref" = some (.str ref))
    (hsegments : (Json.refSegments ref).drop 1 = before ++ segment :: after)
    (hitems : Json.Found s.source before (.arr items)) : Unread s (.obj members) := by
  refine @unread_of_nothing s _ [] ?_ fun _ _ => rfl
  rw [dereference_of_reference href, Json.target, hsegments, Json.follow_append hitems]
  rfl

/-- What is read of a chain of references in any place of an operation.  If it has one reference at
most, then it is read as the object at its end is.  If it has more, then it is read as what stands
beside the second of them, and nothing is read of it if nothing stands there.  Nothing is read of a
reference either if there is a list in its way. -/
theorem references_followed_once (hs : s.Sound) (place : Place)
    (hoperation : Declares s.source (place.members entry) (place.shared entry))
    (path method : String) :
    (∀ length final, RefChain s.source entry length final → length ≤ 1 →
      runStep (place.operation path method entry) s
        = runStep (place.operation path method (.obj final)) s)
    ∧ (∀ length final, RefChain s.source entry length final → 1 < length → ∃ second ref,
      Json.dereference s.source entry = .ok (.obj second)
        ∧ Entries.get? second "$ref" = some (.str ref)
        ∧ RefChain s.source (.obj second) (length - 1) final
        ∧ runStep (place.operation path method entry) s
          = runStep (place.operation path method (.obj (besideRef second))) s
        ∧ (besideRef second = [] → Unread s entry))
    ∧ ∀ members ref before segment after items, entry = .obj members →
      Entries.get? members "$ref" = some (.str ref) →
      (Json.refSegments ref).drop 1 = before ++ segment :: after →
      Json.Found s.source before (.arr items) → Unread s entry := by
  refine ⟨?short, ?long, ?list⟩
  case short =>
    intro length final hchain hlength
    refine place.operation_interchanged hs hoperation (Or.inl ?_) path method
    rw [hchain.dereference_short hlength, dereference_of_none hchain.get?_ref]
  case long =>
    intro length final hchain hlength
    obtain ⟨second, ref, hsecond, href, hrest⟩ := hchain.dereference_long hlength
    refine ⟨second, ref, hsecond, href, hrest, ?_, ?_⟩
    · refine place.operation_interchanged hs hoperation (Or.inr ?_) path method
      refine ⟨second, besideRef second, hsecond, dereference_of_none (get?_besideRef_self second), ?_⟩
      exact fun key hkey => (get?_besideRef second hkey).symm
    · intro hbeside
      refine unread_of_nothing hsecond fun key hkey => ?_
      rw [← get?_besideRef second hkey, hbeside]
      rfl
  case list =>
    rintro members ref before segment after items rfl href hsegments hitems
    exact unread_of_list href hsegments hitems

end

def refTo (segments : List String) : Json := .obj [("$ref", .str (Json.pointerTo segments))]

def sizeMembers : List (String × Json) :=
  [("name", .str "size"), ("in", .str "query"), ("schema", .obj [("type", .str "integer")])]

/-- The content of pets, as a body and as a response has it. -/
def petContent : List (String × Json) :=
  [("content", .obj [("application/json", .obj [("schema", .obj [("type", .str "string")])])])]

def petOperation (parameter body response : Json) : List (String × Json) :=
  [("parameters", .arr [parameter]), ("requestBody", body), ("responses", .obj [("200", response)])]

/-- A document in which each shared part but one refers to another. -/
def sharedParts (parameter body response : Json) : Json :=
  .obj [
    ("paths", .obj [("/pets", .obj [("post", .obj (petOperation parameter body response))])]),
    ("components", .obj [
      ("parameters", .obj [("Limit", refTo ["components", "parameters", "Size"]),
        ("Size", .obj sizeMembers)]),
      ("requestBodies", .obj [("New", refTo ["components", "requestBodies", "Pet"]),
        ("Pet", .obj petContent)]),
      ("responses", .obj [("Done", refTo ["components", "responses", "Pet"]),
        ("Pet", .obj petContent)])])]

/-- The shared parts are used through two references. -/
def chainedParts : Json :=
  sharedParts (refTo ["components", "parameters", "Limit"])
    (refTo ["components", "requestBodies", "New"]) (refTo ["components", "responses", "Done"])

theorem RefChain.to {document next : Json} {segments : List String} {length : Nat}
    {final : List (String × Json)} (hsegments : ∀ segment ∈ segments, '/' ∉ segment.toList)
    (hnext : Json.Found document segments next) (h : RefChain document next length final) :
    RefChain document (refTo segments) (length + 1) final := by
  refine .reference rfl ?_ h
  rw [Json.refSegments_pointerTo hsegments]
  exact hnext

/-- A part that is used through two references. -/
theorem chain_of_part {parameter body response : Json} {kind other name : String}
    {final : List (String × Json)} (hsegments : ∀ segment ∈ [kind, other, name],
      '/' ∉ segment.toList) (hother : Json.Found (sharedParts parameter body response)
      ["components", kind, other] (refTo ["components", kind, name]))
    (hname : Json.Found (sharedParts parameter body response) ["components", kind, name]
      (.obj final)) (hfinal : Entries.get? final "$ref" = none) :
    RefChain (sharedParts parameter body response) (refTo ["components", kind, other]) 2 final := by
  simp only [List.forall_mem_cons] at hsegments
  obtain ⟨hkind, hother', hname', -⟩ := hsegments
  refine .to ?_ hother (.to ?_ hname (.here hfinal))
  · simpa using ⟨hkind, hother'⟩
  · simpa using ⟨hkind, hname'⟩

theorem declares_pet (parameter body response : Json) :
    Declares (sharedParts parameter body response) (petOperation parameter body response) .null :=
  @Declares.method _ _ [("post", .obj (petOperation parameter body response))] _ _ "/pets" "post"
    rfl rfl List.mem_cons_self (by decide) rfl

/-- A parameter that is used through one reference is read; a body that is used through two is not. -/
theorem references_followed_once_size :
    let size := refTo ["components", "parameters", "Size"]
    let body := refTo ["components", "requestBodies", "New"]
    let done := refTo ["components", "responses", "Done"]
    let s : Reading := ({} : Reading).begin (sharedParts size body done) []
    s.Sound
      ∧ runStep (operation "/pets" "post" (petOperation size body done) .null) s
        = runStep (operation "/pets" "post" (petOperation (.obj sizeMembers) body done) .null) s
      ∧ Unread s body := by
  intro size body done s
  have hs : s.Sound := sound_begin _ _ _
  have hoperation := declares_pet size body done
  have hsize : RefChain s.source size 1 sizeMembers :=
    .to (by decide) (.member rfl (.member rfl (.member rfl (.here _)))) (.here rfl)
  have hbody : RefChain s.source body 2 petContent :=
    chain_of_part (by decide) (.member rfl (.member rfl (.member rfl (.here _))))
      (.member rfl (.member rfl (.member rfl (.here _)))) rfl
  refine ⟨hs, ?_, ?_⟩
  · have hplace := references_followed_once hs (.own (petOperation size body done) .null [] [])
      hoperation "/pets" "post"
    exact hplace.1 1 _ hsize (Nat.le_refl 1)
  · have hplace := references_followed_once hs (.body (petOperation size body done) .null)
      hoperation "/pets" "post"
    obtain ⟨second, ref, hsecond, -, -, -, hunread⟩ := hplace.2.1 2 _ hbody (by decide)
    have hfirst : Json.dereference s.source body
        = .ok (refTo ["components", "requestBodies", "Pet"]) := by decide +kernel
    rw [hfirst] at hsecond
    cases hsecond
    exact hunread (by decide)

/-- The operation as it is read where the parts are used through two references. -/
def operationOfChains : Operation where
  method := "POST"
  path := "/pets"
  parameters := some []
  responses := some [("200", some { schema := none })]

/-- The operation as it is read where the parts are written in it. -/
def operationOfParts : Operation where
  method := "POST"
  path := "/pets"
  parameters := some [{ name := .str "size", schema := some 0 },
    { name := .str "body", location := .body, schema := some 1 }]
  responses :=
    some [("200", some { schema := some 2, contentTypes := [.str "application/json"] })]

/-- A parameter, a body and a response behind two references are not read: the operation has no
parameters, and its response no schema, both of which it has where the objects are written in place of
the references. -/
theorem chain_of_two_unread : ∃ document written s t,
    Reading.read {} chainedParts = (.ok document, s)
      ∧ Reading.read {} (sharedParts (.obj sizeMembers) (.obj petContent) (.obj petContent))
        = (.ok written, t)
      ∧ RefChain chainedParts (refTo ["components", "parameters", "Limit"]) 2 sizeMembers
      ∧ RefChain chainedParts (refTo ["components", "requestBodies", "New"]) 2 petContent
      ∧ RefChain chainedParts (refTo ["components", "responses", "Done"]) 2 petContent
      ∧ document.operations = [operationOfChains] ∧ written.operations = [operationOfParts] := by
  obtain ⟨document, s, hdocument, -, hoperations, -⟩ :=
    @read_of_parts chainedParts ⟨#[]⟩ [operationOfChains] [] (by decide +kernel)
  obtain ⟨written, t, hwritten, -, hoperations', -⟩ := @read_of_parts
    (sharedParts (.obj sizeMembers) (.obj petContent) (.obj petContent))
    ⟨#[{ kinds := Kinds.ofList [.integer] }, { kinds := Kinds.ofList [.string] },
      { kinds := Kinds.ofList [.string] }]⟩ [operationOfParts] [] (by decide +kernel)
  refine ⟨document, written, s, t, hdocument, hwritten, ?_, ?_, ?_, hoperations, hoperations'⟩
  · exact chain_of_part (by decide) (.member rfl (.member rfl (.member rfl (.here _))))
      (.member rfl (.member rfl (.member rfl (.here _)))) rfl
  · exact chain_of_part (by decide) (.member rfl (.member rfl (.member rfl (.here _))))
      (.member rfl (.member rfl (.member rfl (.here _)))) rfl
  · exact chain_of_part (by decide) (.member rfl (.member rfl (.member rfl (.here _))))
      (.member rfl (.member rfl (.member rfl (.here _)))) rfl

end Reading

end ApiClients
