import ApiClients.Proofs.EmittedTypes
import ApiClients.Proofs.OperationKeys
import ApiClients.Proofs.OrderedEntries
import ApiClients.Proofs.Requests

/-!
# Parameters of a path and of its operations

The parameters that a path lists hold for each of its operations, which may list more and replace some
of them.  Two entries are one parameter if their names compare equal and they are sent in one place, the
query if they do not say where.  Of the entries that are one parameter the last says what it is and the
first where it stands (`byIdentity`).  Nothing else is read of the two lists, and what the body of the
request becomes follows after that (`parameters_merged`).
-/

namespace ApiClients

theorem Location.ofWord?_word (location : Location) :
    Location.ofWord? location.word = some location := by
  cases location <;> decide

theorem Location.word_injective : Function.Injective Location.word := by
  intro location other h
  exact Option.some.inj (ofWord?_word location ▸ h ▸ ofWord?_word other)

namespace Reading

/-! ### Entries of parameter lists -/

/-- The members of an entry of a parameter list that is a parameter: an object, perhaps behind a
reference, that gives a name. -/
def parameterMembers? (document entry : Json) : Option (List (String × Json)) :=
  match Json.dereference document entry with
  | .ok (.obj members) => if Json.flag members "name" then some members else none
  | _ => none

/-- The parameters in some lists, in the order of their entries. -/
def listedMembers (document : Json) (entries : List Json) : List (List (String × Json)) :=
  entries.filterMap (parameterMembers? document)

/-- A parameter says where it is sent, in a word that is known, or does not say it. -/
def Located (members : List (String × Json)) : Prop :=
  Entries.get? members "in" = none
    ∨ ∃ location : Location, Entries.get? members "in" = some (.str location.word)

/-- Where a parameter is sent. -/
def locationOf (members : List (String × Json)) : Location :=
  match Entries.get? members "in" with
  | some (.str word) => (Location.ofWord? word).getD .query
  | _ => .query

/-- What makes two parameters one: the name, in the one form of all names that compare equal to it
(a text does to itself only), and the location. -/
structure Identity where
  name : Json
  location : Location
  deriving DecidableEq

/-- The identity of an entry. -/
def identity (members : List (String × Json)) : Identity where
  name := (Json.field members "name").normal
  location := locationOf members

/-- The parameters that are left of some entries: of those with one identity the last, in the place of
the first. -/
def byIdentity (found : List (List (String × Json))) :
    List (Identity × List (String × Json)) :=
  Entries.putAll identity found

/-- An entry can be taken in: what it points to can be looked up, and so can the name that it gives. -/
def Takeable (document entry : Json) : Prop :=
  ∃ value, Json.dereference document entry = .ok value
    ∧ ∀ members, value = .obj members → Json.flag members "name" = true →
      (Json.field members "name").isKey = true

/-- The key under which a parameter is put when lists are merged. -/
def mergeKey (members : List (String × Json)) : Json × Json :=
  (Json.field members "name", (Entries.get? members "in").getD (.str "query"))

theorem Located.mergeKey_eq {members : List (String × Json)} (h : Located members) :
    mergeKey members = (Json.field members "name", .str (locationOf members).word) := by
  unfold mergeKey locationOf
  rcases h with hnone | ⟨location, hsome⟩
  · rw [hnone]
    rfl
  · rw [hsome]
    simp [Location.ofWord?_word]

/-- Parameters are merged if they have one identity. -/
theorem sameIdentity_mergeKey {members other : List (String × Json)} (h : Located members)
    (hother : Located other) :
    sameIdentity (mergeKey members) (mergeKey other) = decide (identity members = identity other) := by
  rw [h.mergeKey_eq, hother.mergeKey_eq]
  simp [sameIdentity, identity, Json.equal, Json.normal, Location.word_injective.eq_iff]

/-! ### Merging -/

/-- A parameter under a key that is its own, or that of another entry with its identity. -/
def Keyed (entry : (Json × Json) × List (String × Json)) : Prop :=
  ∃ first, Located first ∧ entry.1 = mergeKey first ∧ identity first = identity entry.2

def identified (merged : List ((Json × Json) × List (String × Json))) :
    List (Identity × List (String × Json)) :=
  merged.map fun entry => (identity entry.2, entry.2)

section

variable {document : Json} {merged : List ((Json × Json) × List (String × Json))}
  {members : List (String × Json)}

theorem identified_putAlike (hmerged : ∀ entry ∈ merged, Keyed entry) (hmembers : Located members) :
    (∀ entry ∈ Entries.putAlike sameIdentity (mergeKey members) members merged, Keyed entry)
      ∧ identified (Entries.putAlike sameIdentity (mergeKey members) members merged)
        = Entries.put (identity members) members (identified merged) := by
  induction merged with
  | nil =>
    refine ⟨?_, rfl⟩
    intro entry hentry
    rw [Entries.putAlike, List.mem_singleton] at hentry
    exact hentry ▸ ⟨members, hmembers, rfl, rfl⟩
  | cons entry rest ih =>
    obtain ⟨key, others⟩ := entry
    obtain ⟨hfirst, hrest⟩ := List.forall_mem_cons.mp hmerged
    obtain ⟨hkeyed, hput⟩ := ih hrest
    obtain ⟨first, hlocated, hkey, hidentity⟩ := hfirst
    have hsame : sameIdentity key (mergeKey members)
        = decide (identity others = identity members) := by
      rw [← hidentity, show key = mergeKey first from hkey]
      exact sameIdentity_mergeKey hlocated hmembers
    unfold identified Entries.put at hput ⊢
    by_cases heq : identity others = identity members
    · simp only [Entries.putAlike, hsame, heq, decide_true, if_true, List.map_cons]
      refine ⟨List.forall_mem_cons.mpr ⟨?_, hrest⟩, trivial⟩
      exact ⟨first, hlocated, hkey, hidentity.trans heq⟩
    · simp only [Entries.putAlike, hsame, heq, decide_false, Bool.false_eq_true, if_false,
        List.map_cons]
      refine ⟨List.forall_mem_cons.mpr ⟨⟨first, hlocated, hkey, hidentity⟩, hkeyed⟩, ?_⟩
      rw [hput]

theorem parameterMembers?_of_obj {entry : Json}
    (h : Json.dereference document entry = .ok (.obj members)) :
    parameterMembers? document entry = if Json.flag members "name" then some members else none := by
  simp only [parameterMembers?, h]

/-- An entry that is a parameter is put in, and one that is none is passed over. -/
theorem takeParameter_of_takeable {entry : Json} (hentry : Takeable document entry)
    (hlocated : ∀ members, parameterMembers? document entry = some members → Located members) :
    takeParameter document merged entry = .ok ((parameterMembers? document entry).elim merged
      fun members => Entries.putAlike sameIdentity (mergeKey members) members merged) := by
  obtain ⟨value, hvalue, hkey⟩ := hentry
  cases value with
  | obj members =>
    have hmembers := parameterMembers?_of_obj hvalue
    rw [takeParameter_obj hvalue]
    cases hname : Json.flag members "name" with
    | false =>
      rw [hmembers, hname]
      rfl
    | true =>
      rw [hname, if_pos rfl] at hmembers
      have hplace := (Prod.mk.inj (hlocated members hmembers).mergeKey_eq).2
      rw [hmembers, hkey members rfl hname, hplace]
      simp [mergeKey, hplace, Json.isKey]
  | _ =>
    rw [takeParameter_other hvalue (by simp), parameterMembers?, hvalue]
    rfl

theorem takeParameter_of_not_takeable {entry : Json} (hentry : ¬ Takeable document entry) :
    takeParameter document merged entry = .error .malformed := by
  cases hvalue : Json.dereference document entry with
  | error e =>
    obtain rfl := Json.dereference_error hvalue
    exact takeParameter_failed hvalue merged
  | ok value =>
    have hnot : ∃ members, value = .obj members ∧ Json.flag members "name" = true
        ∧ (Json.field members "name").isKey = false := by
      by_contra hnone
      refine hentry ⟨value, hvalue, fun members hobj hname => ?_⟩
      by_contra hkey
      exact hnone ⟨members, hobj, hname, Bool.eq_false_iff.mpr hkey⟩
    obtain ⟨members, rfl, hname, hkey⟩ := hnot
    rw [takeParameter_obj hvalue, hname, hkey]
    rfl

/-- Entries that can all be taken in leave the parameters by their identities. -/
theorem takeParameters_of_takeable {entries : List Json}
    (h : ∀ entry ∈ entries, Takeable document entry)
    (hlocated : ∀ members ∈ listedMembers document entries, Located members)
    (hmerged : ∀ entry ∈ merged, Keyed entry) :
    ∃ taken, entries.foldlM (takeParameter document) merged = .ok taken
      ∧ identified taken = (listedMembers document entries).foldl
        (fun left members => Entries.put (identity members) members left) (identified merged) := by
  induction entries generalizing merged with
  | nil => exact ⟨merged, rfl, rfl⟩
  | cons entry entries ih =>
    obtain ⟨hfirst, hrest⟩ := List.forall_mem_cons.mp h
    rw [List.foldlM_cons]
    unfold listedMembers at hlocated ih ⊢
    rw [List.filterMap_cons] at hlocated ⊢
    have hentry : ∀ members, parameterMembers? document entry = some members → Located members := by
      intro members hmembers
      rw [hmembers] at hlocated
      exact hlocated members List.mem_cons_self
    rw [takeParameter_of_takeable hfirst hentry]
    cases hmembers : parameterMembers? document entry with
    | none =>
      rw [hmembers] at hlocated
      exact ih hrest hlocated hmerged
    | some members =>
      rw [hmembers] at hlocated
      obtain ⟨hkeyed, hput⟩ := identified_putAlike hmerged (hentry members hmembers)
      obtain ⟨taken, htaken, hidentified⟩ :=
        ih hrest (List.forall_mem_cons.mp hlocated).2 hkeyed
      exact ⟨taken, htaken, hidentified.trans (by rw [List.foldl_cons, hput])⟩

theorem takeParameters_of_not_takeable {entries : List Json} {entry : Json}
    (hmem : entry ∈ entries) (hentry : ¬ Takeable document entry)
    (merged : List ((Json × Json) × List (String × Json))) :
    entries.foldlM (takeParameter document) merged = .error .malformed := by
  cases htaken : entries.foldlM (takeParameter document) merged with
  | error e => rw [takeParameters_error htaken]
  | ok taken =>
    obtain ⟨before, after, rfl⟩ := List.append_of_mem hmem
    obtain ⟨some, -, h⟩ := Except.bind_ok.mp (List.foldlM_append.symm.trans htaken)
    rw [List.foldlM_cons, takeParameter_of_not_takeable hentry] at h
    cases h

end

/-! ### Reading what is merged -/

/-- The identity of a parameter that has been read. -/
def parameterIdentity (parameter : Parameter) : Identity where
  name := parameter.name.normal
  location := parameter.location

section

variable {s t : Reading} {members : List (String × Json)} {shared : Json}
  {own inherited : List Json}

theorem runStep_location (h : Located members) (s : Reading) :
    runStep (location (Json.field members "in")) s = (.ok (locationOf members), s) := by
  unfold locationOf Json.field
  rcases h with hnone | ⟨place, hsome⟩
  · rw [hnone]
    rfl
  · have hgiven : (Json.str place.word).given = true := by cases place <;> decide
    rw [hsome]
    simp [location, hgiven, Location.ofWord?_word]

/-- A parameter has the identity of what it is read from. -/
theorem identity_parameter (h : Located members) {made : Parameter}
    (hrun : runStep (parameter members) s = (.ok made, t)) :
    parameterIdentity made = identity members := by
  unfold parameter at hrun
  rw [runStep_bind_of_ok (runStep_location h s)] at hrun
  obtain ⟨schema, u, -, hrun⟩ := runStep_bind_ok.mp hrun
  cases schema with
  | none =>
    obtain ⟨_, _, -, hrun⟩ := runStep_bind_ok.mp hrun
    obtain ⟨_, _, -, hrun⟩ := runStep_bind_ok.mp hrun
    cases hrun
    rfl
  | some id =>
    obtain ⟨_, _, -, hrun⟩ := runStep_bind_ok.mp hrun
    obtain ⟨_, _, -, hrun⟩ := runStep_bind_ok.mp hrun
    cases hrun
    rfl

/-- The parameters that are read of the parameters in some lists: one for each identity, in the order
in which the identities first occur, and read from the last entry with its identity. -/
structure Merged (found : List (List (String × Json))) (parameters : List Parameter) : Prop where
  distinct : (parameters.map parameterIdentity).Nodup
  complete : ∀ key, key ∈ parameters.map parameterIdentity ↔ key ∈ found.map identity
  order : parameters.map parameterIdentity = (found.map identity).eraseDups
  last : ∀ parameter ∈ parameters, ∃ members u v,
    found.reverse.find? (fun other => identity other = parameterIdentity parameter) = some members
      ∧ runStep (Reading.parameter members) u = (.ok parameter, v)

theorem mem_byIdentity {found : List (List (String × Json))}
    {entry : Identity × List (String × Json)} (h : entry ∈ byIdentity found) :
    found.reverse.find? (fun other => identity other = entry.1) = some entry.2 := by
  rw [← Entries.get?_putAll identity found entry.1]
  exact Entries.get?_of_mem (Entries.nodup_keys_putAll identity found) h

theorem merged_of_run {found : List (List (String × Json))}
    (hlocated : ∀ members ∈ found, Located members)
    {parameters : List Parameter}
    (h : runStep ((byIdentity found).mapM fun entry => parameter entry.2) s = (.ok parameters, t)) :
    Merged found parameters := by
  have hread : List.Forall₂ (fun entry made => parameterIdentity made = entry.1
      ∧ ∃ u v, runStep (parameter entry.2) u = (.ok made, v)) (byIdentity found) parameters := by
    refine (runStep_mapM_ok (P := fun _ => True) ?_ trivial h).2
    intro entry hentry u v made _ hrun
    have hlast := mem_byIdentity hentry
    have hmem : entry.2 ∈ found := by simpa using List.mem_of_find?_eq_some hlast
    have hidentity : identity entry.2 = entry.1 := by simpa using List.find?_some hlast
    exact ⟨trivial, (identity_parameter (hlocated _ hmem) hrun).trans hidentity, u, v, hrun⟩
  have horder : parameters.map parameterIdentity = (found.map identity).eraseDups := by
    rw [← Entries.keys_putAll]
    exact map_of_forall₂ (hread.imp fun _ _ hmade => hmade.1)
  refine ⟨?_, ?_, horder, ?_⟩
  · rw [horder]
    exact Entries.nodup_eraseDups _
  · intro key
    rw [horder, List.mem_eraseDups]
  · intro made hmade
    obtain ⟨entry, hentry, hidentity, u, v, hrun⟩ := exists_of_mem_right hread hmade
    exact ⟨entry.2, u, v, hidentity ▸ mem_byIdentity hentry, hrun⟩

/-- The two lists of an operation and its path are read as the parameters that are left of them. -/
theorem runStep_listedParameters (hshared : Json.listed shared = .ok inherited)
    (htakeable : ∀ entry ∈ inherited ++ own, Takeable s.source entry)
    (hlocated : ∀ members ∈ listedMembers s.source (inherited ++ own), Located members) :
    runStep (listedParameters own shared) s
      = runStep ((byIdentity (listedMembers s.source (inherited ++ own))).mapM
        fun entry => parameter entry.2) s := by
  obtain ⟨taken, htaken, hidentified⟩ :=
    @takeParameters_of_takeable _ [] _ htakeable hlocated fun _ hentry => by cases hentry
  have hleft : identified taken = byIdentity (listedMembers s.source (inherited ++ own)) :=
    hidentified
  have hread : taken.mapM (fun entry => parameter entry.2)
      = (identified taken).mapM fun entry => parameter entry.2 := by
    rw [identified, List.mapM_map]
    rfl
  unfold listedParameters
  rw [hshared, lift_ok_bind, runStep_bind_of_ok (runStep_get s), htaken, lift_ok_bind, ← hleft,
    ← hread]

/-- The parameters of a path and of one of its operations, when each says in a known word where it is
sent or does not say it.  If an entry cannot be taken in, then reading fails.  Otherwise what is read is
what is left of the entries by their identities, and then the body; and if that succeeds, the
parameters before those of the body are one for each identity, in the order of the first entries and
with the contents of the last. -/
theorem parameters_merged (hown : (Entries.get? members "parameters").getD (.arr []) = .arr own)
    (hshared : Json.listed shared = .ok inherited)
    (hlocated : ∀ found ∈ listedMembers s.source (inherited ++ own), Located found) :
    let found := listedMembers s.source (inherited ++ own)
    ((∃ entry ∈ inherited ++ own, ¬ Takeable s.source entry) →
      runStep (operationParameters members shared) s = (.error .malformed, s))
    ∧ ((∀ entry ∈ inherited ++ own, Takeable s.source entry) →
      runStep (operationParameters members shared) s = runStep (do
        let before ← (byIdentity found).mapM fun entry => parameter entry.2
        let body ← bodyParameters (Json.field members "requestBody")
        return some (before ++ body)) s)
    ∧ ∀ made t, runStep (operationParameters members shared) s = (.ok made, t) →
      ∃ before body u, made = some (before ++ body)
        ∧ runStep ((byIdentity found).mapM fun entry => parameter entry.2) s = (.ok before, u)
        ∧ runStep (bodyParameters (Json.field members "requestBody")) u = (.ok body, t)
        ∧ Merged found before := by
  intro found
  have hfails : (∃ entry ∈ inherited ++ own, ¬ Takeable s.source entry) →
      runStep (operationParameters members shared) s = (.error .malformed, s) := by
    rintro ⟨entry, hmem, hentry⟩
    rw [operationParameters_of_list hown]
    refine runStep_bind_of_error ?_
    unfold listedParameters
    rw [hshared, lift_ok_bind, runStep_bind_of_ok (runStep_get s),
      takeParameters_of_not_takeable hmem hentry]
    rfl
  have hreads : (∀ entry ∈ inherited ++ own, Takeable s.source entry) →
      runStep (operationParameters members shared) s = runStep (do
        let before ← (byIdentity found).mapM fun entry => parameter entry.2
        let body ← bodyParameters (Json.field members "requestBody")
        return some (before ++ body)) s := by
    intro htakeable
    rw [operationParameters_of_list hown, runStep_bind,
      runStep_listedParameters hshared htakeable hlocated, ← runStep_bind]
  refine ⟨hfails, hreads, ?_⟩
  intro made t hrun
  by_cases htakeable : ∀ entry ∈ inherited ++ own, Takeable s.source entry
  · rw [hreads htakeable] at hrun
    obtain ⟨before, u, hbefore, hrun⟩ := runStep_bind_ok.mp hrun
    obtain ⟨body, v, hbody, hrun⟩ := runStep_bind_ok.mp hrun
    cases hrun
    exact ⟨before, body, u, rfl, hbefore, hbody, merged_of_run hlocated hbefore⟩
  · rw [hfails (by simpa using htakeable)] at hrun
    cases hrun

end

/-- Where the parameter for sizes is shared. -/
def sharedSize : Json :=
  .obj [("parameters", .obj [("Size", .obj [("name", .str "size"), ("in", .str "header")])])]

/-- The parameters of a path: a kind, and the shared one. -/
def pathParameters : List Json :=
  [.obj [("name", .str "kind"), ("in", .str "query"), ("type", .str "boolean")],
    .obj [("$ref", .str "#/parameters/Size")]]

/-- The parameters of its operation: another size, what is none, and the kind anew. -/
def ownParameters : List Json :=
  [.obj [("name", .str "size"), ("in", .str "query")], .int 5,
    .obj [("name", .str "kind"), ("required", .bool true)]]

/-- What is left of them: the kind as the operation has it, and two sizes. -/
def mergedParameters : List Parameter :=
  [{ name := .str "kind", required := true, schema := some 0 },
    { name := .str "size", location := .header, schema := some 1 },
    { name := .str "size", schema := some 2 }]

theorem parameters_merged_kind :
    let found := listedMembers sharedSize (pathParameters ++ ownParameters)
    (∀ members ∈ found, Located members)
      ∧ (runStep (operationParameters [("parameters", .arr ownParameters)] (.arr pathParameters))
        { source := sharedSize }).1 = .ok (some mergedParameters)
      ∧ Merged found mergedParameters := by
  intro found
  have hfound : found
      = [[("name", .str "kind"), ("in", .str "query"), ("type", .str "boolean")],
        [("name", .str "size"), ("in", .str "header")], [("name", .str "size"), ("in", .str "query")],
        [("name", .str "kind"), ("required", .bool true)]] := by decide +kernel
  have hlocated : ∀ members ∈ found, Located members := by
    rw [hfound]
    simp only [List.forall_mem_cons]
    exact ⟨Or.inr ⟨.query, rfl⟩, Or.inr ⟨.header, rfl⟩, Or.inr ⟨.query, rfl⟩, Or.inl rfl, nofun⟩
  have hrun : runStep (operationParameters [("parameters", .arr ownParameters)] (.arr pathParameters))
      { source := sharedSize } = (.ok (some mergedParameters), _) :=
    runStep_of_toOption (by decide +kernel)
  obtain ⟨-, -, hmade⟩ := @parameters_merged { source := sharedSize }
    [("parameters", .arr ownParameters)] (.arr pathParameters) ownParameters pathParameters rfl rfl
    hlocated
  obtain ⟨before, body, u, hparts, -, hbody, hmerged⟩ := hmade _ _ hrun
  -- the operation has no body, so the parameters are those before it
  cases hbody
  rw [List.append_nil] at hparts
  exact ⟨hlocated, congrArg Prod.fst hrun, Option.some.inj hparts ▸ hmerged⟩

end Reading

end ApiClients
