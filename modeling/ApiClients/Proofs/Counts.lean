import ApiClients.Proofs.Requests

/-!
# How much documents say

The number of values in a part of a document is at most that in the document, and less if the part is
a schema in another one.  References are followed within the document, so this holds for what they
lead to as well.
-/

namespace ApiClients

namespace Json

/-! ### Parts of values -/

theorem count_pos (value : Json) : 0 < value.count := by
  cases value <;> simp [count]

theorem count_le_countItems {value : Json} {items : List Json} (h : value ∈ items) :
    value.count ≤ countItems items := by
  induction items with
  | nil => cases h
  | cons first rest ih =>
    rw [countItems]
    rcases List.mem_cons.mp h with rfl | hrest
    · exact Nat.le_add_right _ _
    · exact Nat.le_trans (ih hrest) (Nat.le_add_left _ _)

theorem count_le_countMembers {key : String} {value : Json} {members : List (String × Json)}
    (h : (key, value) ∈ members) : value.count ≤ countMembers members := by
  induction members with
  | nil => cases h
  | cons first rest ih =>
    rw [countMembers]
    rcases List.mem_cons.mp h with rfl | hrest
    · exact Nat.le_add_right _ _
    · exact Nat.le_trans (ih hrest) (Nat.le_add_left _ _)

theorem count_lt_of_mem {value : Json} {items : List Json} (h : value ∈ items) :
    value.count < (Json.arr items).count := by
  rw [count]
  exact Nat.lt_succ_of_le (count_le_countItems h)

theorem count_lt_of_member {key : String} {value : Json} {members : List (String × Json)}
    (h : (key, value) ∈ members) : value.count < (Json.obj members).count := by
  rw [count]
  exact Nat.lt_succ_of_le (count_le_countMembers h)

theorem count_lt_of_get? {members : List (String × Json)} {key : String} {value : Json}
    (h : Entries.get? members key = some value) : value.count < (Json.obj members).count :=
  count_lt_of_member (Entries.mem_of_get? h)

/-- A member that is given is there. -/
theorem get?_of_field_ne {members : List (String × Json)} {key : String}
    (h : field members key ≠ .null) :
    Entries.get? members key = some (field members key) := by
  unfold field at h ⊢
  cases hget : Entries.get? members key with
  | none =>
    rw [hget] at h
    exact absurd rfl h
  | some value => rfl

theorem count_field_le (members : List (String × Json)) (key : String) :
    (field members key).count ≤ (Json.obj members).count := by
  by_cases h : field members key = .null
  · rw [h]
    exact count_pos _
  · exact Nat.le_of_lt (count_lt_of_get? (get?_of_field_ne h))

theorem get?_cons (first : String × Json) (rest : List (String × Json)) (key : String) :
    Entries.get? (first :: rest) key =
      if first.1 = key then some first.2 else Entries.get? rest key := by
  by_cases h : first.1 = key <;> simp [Entries.get?, h]

theorem get?_filter_ne {members : List (String × Json)} {key other : String} (h : other ≠ key) :
    Entries.get? (members.filter (·.1 ≠ key)) other = Entries.get? members other := by
  induction members with
  | nil => rfl
  | cons first rest ih =>
    rw [List.filter_cons, get?_cons]
    by_cases hfirst : first.1 = key
    · have hother : ¬ first.1 = other := fun hsame => h (hsame.symm.trans hfirst)
      simp only [hfirst, ne_eq, not_true_eq_false, decide_false, Bool.false_eq_true, if_false]
      rw [← hfirst, if_neg hother, hfirst]
      exact ih
    · simp only [ne_eq, hfirst, not_false_eq_true, decide_true, if_true]
      rw [get?_cons]
      simp only [ne_eq] at ih
      rw [ih]

/-- Taking the entries of a key out takes out at least the value that is found there. -/
theorem countMembers_filter {members : List (String × Json)} {key : String} {value : Json}
    (h : Entries.get? members key = some value) :
    value.count + countMembers (members.filter (·.1 ≠ key)) ≤ countMembers members := by
  have hle : ∀ members : List (String × Json),
      countMembers (members.filter (·.1 ≠ key)) ≤ countMembers members := by
    intro members
    induction members with
    | nil => exact Nat.le_refl _
    | cons first rest ih =>
      rw [List.filter_cons, countMembers]
      split
      · exact Nat.add_le_add_left ih _
      · exact Nat.le_trans ih (Nat.le_add_left _ _)
  induction members with
  | nil => cases h
  | cons first rest ih =>
    rw [List.filter_cons, countMembers]
    by_cases hfirst : first.1 = key
    · have hvalue : first.2 = value := by
        rw [get?_cons, if_pos hfirst] at h
        exact Option.some.inj h
      simp only [hfirst, ne_eq, not_true_eq_false, decide_false, Bool.false_eq_true, if_false,
        hvalue]
      exact Nat.add_le_add_left (hle rest) _
    · rw [get?_cons, if_neg hfirst] at h
      have hrest := ih h
      simp only [ne_eq] at hrest
      simp only [ne_eq, hfirst, not_false_eq_true, decide_true, if_true, countMembers]
      omega

/-- The entries of some keys say no more than all entries. -/
theorem countMembers_pick {keys : List String} (hkeys : keys.Nodup)
    (members : List (String × Json)) :
    countMembers (keys.filterMap fun key =>
      (Entries.get? members key).map fun value => (key, value)) ≤ countMembers members := by
  induction keys generalizing members with
  | nil => exact Nat.zero_le _
  | cons key keys ih =>
    obtain ⟨hkey, hkeys⟩ := List.nodup_cons.mp hkeys
    cases hget : Entries.get? members key with
    | none =>
      simp only [List.filterMap_cons, hget, Option.map_none]
      exact ih hkeys members
    | some value =>
      simp only [List.filterMap_cons, hget, Option.map_some, countMembers]
      have hothers : (keys.filterMap fun other =>
            (Entries.get? members other).map fun value => (other, value))
          = keys.filterMap fun other =>
            (Entries.get? (members.filter (·.1 ≠ key)) other).map fun value => (other, value) := by
        refine List.filterMap_congr fun other hother => ?_
        have hne : other ≠ key := fun hsame => hkey (hsame ▸ hother)
        rw [get?_filter_ne hne]
      rw [hothers]
      exact Nat.le_trans (Nat.add_le_add_left (ih hkeys _) _) (countMembers_filter hget)

theorem count_listed {value part : Json} {parts : List Json} (h : listed value = .ok parts)
    (hpart : part ∈ parts) : part.count ≤ value.count := by
  unfold listed at h
  split at h
  · cases h
    cases hpart
  · split at h
    · cases h
      exact Nat.le_of_lt (count_lt_of_mem hpart)
    · cases h
      obtain ⟨member, -, rfl⟩ := List.mem_map.mp hpart
      exact count_pos _
    · cases h
      obtain ⟨character, -, rfl⟩ := List.mem_map.mp hpart
      exact count_pos _
    · cases h

theorem count_fields {value part : Json} {key : String} {members : List (String × Json)}
    (h : fields value = .ok members) (hpart : (key, part) ∈ members) :
    part.count < value.count := by
  unfold fields at h
  split at h
  · cases h
    cases hpart
  · split at h
    · cases h
      exact count_lt_of_member hpart
    · cases h

theorem count_membersOf {value : Json} {members : List (String × Json)}
    (h : membersOf value = .ok members) : value = .obj members := by
  unfold membersOf at h
  split at h
  · cases h
    rfl
  · cases h

/-! ### References -/

theorem count_follow (value : Json) (segments : List String) :
    (follow value segments).count ≤ value.count := by
  induction segments generalizing value with
  | nil => cases value <;> exact Nat.le_refl _
  | cons segment rest ih =>
    cases value with
    | obj members => exact Nat.le_trans (ih _) (count_field_le _ _)
    | _ => exact count_pos _

theorem count_target (document : Json) (ref : String) :
    (target document ref).count ≤ document.count := by
  unfold target
  dsimp only
  split
  · exact count_follow _ _
  · exact count_pos _

theorem count_dereference {document value found : Json} (hvalue : value.count ≤ document.count)
    (h : dereference document value = .ok found) : found.count ≤ document.count := by
  unfold dereference at h
  split at h
  · split at h
    · cases h
      exact hvalue
    · cases h
      exact count_target _ _
    · cases h
  · cases h
    exact hvalue

/-! ### Definitions -/

theorem pair_arr_ok {index : Nat} {items : List Json} {key part : Json}
    (h : pair index (.arr items) = .ok (key, part)) : items = [key, part] := by
  rcases items with _ | ⟨first, _ | ⟨second, _ | ⟨third, rest⟩⟩⟩
  · cases h
  · cases h
  · change (if first.isKey then _ else _) = _ at h
    split at h <;> cases h
    rfl
  · cases h

theorem count_pair {index : Nat} {value key part : Json} (h : pair index value = .ok (key, part)) :
    part.count ≤ value.count := by
  have hlast : part ∈ [key, part] := List.mem_cons_of_mem _ List.mem_cons_self
  -- whatever can be listed is a pair as the array of its parts is
  cases value with
  | arr items => exact Nat.le_of_lt (count_lt_of_mem (pair_arr_ok h ▸ hlast))
  | obj members =>
    obtain ⟨member, -, rfl⟩ := List.mem_map.mp ((@pair_arr_ok _ (members.map _) _ _ h).symm ▸ hlast)
    exact count_pos _
  | str s =>
    obtain ⟨character, -, rfl⟩ :=
      List.mem_map.mp ((@pair_arr_ok _ (s.toList.map _) _ _ h).symm ▸ hlast)
    exact count_pos _
  | _ => cases h

theorem count_pairs {items : List Json} {index : Nat} {entries found : List (Json × Json)}
    (h : pairs index entries items = .ok found) {entry : Json × Json} (hentry : entry ∈ found) :
    entry ∈ entries ∨ ∃ item ∈ items, entry.2.count ≤ item.count := by
  induction items generalizing index entries with
  | nil =>
    cases h
    exact Or.inl hentry
  | cons item items ih =>
    rw [pairs] at h
    cases hpair : pair index item with
    | error e =>
      rw [hpair] at h
      cases h
    | ok taken =>
      rw [hpair] at h
      rcases ih h with hput | ⟨other, hother, hcount⟩
      · rcases Reading.mem_putAlike hput with hnew | hold
        · exact Or.inr ⟨item, List.mem_cons_self, hnew ▸ count_pair hpair⟩
        · exact Or.inl hold
      · exact Or.inr ⟨other, List.mem_cons_of_mem _ hother, hcount⟩

theorem count_mapping {value : Json} {found : List (Json × Json)} (h : mapping value = .ok found)
    {entry : Json × Json} (hentry : entry ∈ found) : entry.2.count ≤ value.count := by
  unfold mapping at h
  split at h
  · cases h
    cases hentry
  · split at h
    · cases h
      obtain ⟨member, hmember, rfl⟩ := List.mem_map.mp hentry
      exact Nat.le_of_lt (count_lt_of_member hmember)
    · rcases count_pairs h hentry with hnone | ⟨item, hitem, hcount⟩
      · cases hnone
      · exact Nat.le_of_lt (Nat.lt_of_le_of_lt hcount (count_lt_of_mem hitem))
    · rcases count_pairs h hentry with hnone | ⟨item, hitem, hcount⟩
      · cases hnone
      · obtain ⟨character, -, rfl⟩ := List.mem_map.mp hitem
        exact Nat.le_trans hcount (count_pos _)
    · cases h

/-- The definitions of a document are a map in it. -/
theorem mapping_of_definitions {document : Json} {defs : List (Json × Json)}
    (h : definitions document = .ok defs) :
    ∃ value, mapping value = .ok defs ∧ value.count ≤ document.count := by
  unfold definitions at h
  cases hmembers : membersOf document with
  | error e =>
    rw [hmembers] at h
    cases h
  | ok members =>
    obtain rfl := count_membersOf hmembers
    rw [hmembers] at h
    change (if _ then _ else _) = Except.ok defs at h
    split at h
    · exact ⟨_, h, count_field_le _ _⟩
    · split at h
      · exact ⟨.null, h, count_pos _⟩
      · rename_i components hcomponents
        cases hinner : membersOf components with
        | error e =>
          rw [hinner] at h
          cases h
        | ok inner =>
          obtain rfl := count_membersOf hinner
          rw [hinner] at h
          exact ⟨_, h, Nat.le_trans (count_field_le _ _)
            (Nat.le_of_lt (count_lt_of_get? hcomponents))⟩

/-- A definition is no larger than the document. -/
theorem count_definition {document : Json} {defs : List (Json × Json)}
    (h : definitions document = .ok defs) {entry : Json × Json} (hentry : entry ∈ defs) :
    entry.2.count ≤ document.count := by
  obtain ⟨value, hmapping, hcount⟩ := mapping_of_definitions h
  exact Nat.le_trans (count_mapping hmapping hentry) hcount

end Json

namespace Reading

/-! ### Schemas in schemas -/

section

variable {members inner : List (String × Json)} {shape : Json} {entry : Role × Json}

theorem count_nested (h : entry ∈ nested members) : entry.2.count < (Json.obj members).count := by
  simp only [nested, List.mem_append] at h
  rcases h with ((hitems | hadditional) | hproperty) | hpart
  · unfold nestedItems at hitems
    split at hitems
    · rename_i hhas
      rw [List.mem_singleton.mp hitems]
      obtain ⟨value, hvalue⟩ := Entries.has_iff_get?.mp hhas
      simp only [Json.field, hvalue, Option.getD_some]
      exact Json.count_lt_of_get? hvalue
    · cases hitems
  · unfold nestedAdditional at hadditional
    split at hadditional
    · rename_i shape hshape
      rw [List.mem_singleton.mp hadditional]
      have hget : Entries.get? members "additionalProperties"
          = some (Json.field members "additionalProperties") :=
        Json.get?_of_field_ne (by rw [hshape]; simp)
      rw [hshape] at hget
      exact Json.count_lt_of_get? hget
    · cases hadditional
  · unfold nestedProperties at hproperty
    obtain ⟨property, hmem, rfl⟩ := List.mem_map.mp hproperty
    cases hfields : Json.fields (Json.field members "properties") with
    | error e =>
      rw [hfields] at hmem
      cases hmem
    | ok properties =>
      rw [hfields] at hmem
      exact Nat.lt_of_lt_of_le (Json.count_fields hfields hmem) (Json.count_field_le _ _)
  · unfold nestedParts at hpart
    obtain ⟨part, hmem, rfl⟩ := List.mem_map.mp hpart
    cases hlisted : Json.listed (Json.field members "allOf") with
    | error e =>
      rw [hlisted] at hmem
      cases hmem
    | ok parts =>
      rw [hlisted] at hmem
      have hne : Json.field members "allOf" ≠ .null := by
        intro hnull
        rw [hnull] at hlisted
        cases hlisted
        cases hmem
      exact Nat.lt_of_le_of_lt (Json.count_listed hlisted hmem)
        (Json.count_lt_of_get? (Json.get?_of_field_ne hne))

theorem count_variant (h : Variant members shape) : shape.count < (Json.obj members).count := by
  obtain ⟨-, variants, hvariants, hshape⟩ := h
  have hmem : shape ∈ variants := List.mem_of_mem_filter (hshape ▸ List.mem_singleton.mpr rfl)
  have hcount := Json.count_lt_of_mem hmem
  unfold variants? at hvariants
  split at hvariants
  · rename_i hget
    cases hvariants
    exact Nat.lt_trans hcount (Json.count_lt_of_get? hget)
  · rename_i hget _
    cases hvariants
    exact Nat.lt_trans hcount (Json.count_lt_of_get? hget)
  · cases hvariants

end

/-! ### What operations ask for -/

section

variable {document : Json} {operation members : List (String × Json)} {shared data content media :
  Json} {code : String}

theorem count_operation (h : Declares document operation shared) :
    (Json.obj operation).count ≤ document.count ∧ shared.count ≤ document.count := by
  obtain ⟨hmembers, hpaths, hitem, -, hoperation⟩ := h
  rename_i members item paths path method
  obtain rfl := Json.count_membersOf hmembers
  have hcount : (Json.obj item).count ≤ (Json.obj members).count :=
    Nat.le_trans (Nat.le_of_lt (Json.count_fields hpaths hitem)) (Json.count_field_le _ _)
  refine ⟨?_, Nat.le_trans (Json.count_field_le _ _) hcount⟩
  rw [← hoperation]
  exact Nat.le_trans (Json.count_field_le _ _) hcount

theorem count_parameter (h : HasParameter document members) :
    (Json.obj members).count ≤ document.count := by
  obtain ⟨hoperation, hown, hshared, hentry, hmembers⟩ := h
  rename_i operation shared entry own inherited
  obtain ⟨hcount, hcount'⟩ := count_operation hoperation
  refine Json.count_dereference ?_ hmembers
  rcases List.mem_append.mp hentry with hinherited | hlisted
  · exact Nat.le_trans (Json.count_listed hshared hinherited) hcount'
  · cases hget : Entries.get? operation "parameters" with
    | none =>
      rw [hget] at hown
      cases hown
      cases hlisted
    | some value =>
      rw [hget] at hown
      have hvalue : value = .arr own := hown
      subst hvalue
      exact Nat.le_trans (Nat.le_of_lt (Nat.lt_trans (Json.count_lt_of_mem hlisted)
        (Json.count_lt_of_get? hget))) hcount

theorem count_body (h : HasBody document members) :
    (Json.obj members).count ≤ document.count := by
  obtain ⟨hoperation, hmembers⟩ := h
  exact Json.count_dereference (Nat.le_trans (Json.count_field_le _ _)
    (count_operation hoperation).1) hmembers

theorem count_response (h : HasResponse document code members) :
    (Json.obj members).count ≤ document.count := by
  obtain ⟨hoperation, hentries, hentry, hmembers⟩ := h
  refine Json.count_dereference (Nat.le_of_lt (Nat.lt_of_lt_of_le
    (Json.count_lt_of_member hentry) ?_)) hmembers
  rw [← hentries]
  exact Nat.le_trans (Json.count_field_le _ _) (count_operation hoperation).1

theorem count_described {types : List String} (h : described? content types = .ok (some media)) :
    media.count ≤ content.count := by
  unfold described? at h
  split at h
  · cases h
  · split at h
    · rename_i members _
      have hfound := Except.ok.inj h
      obtain ⟨type, -, htype⟩ := List.exists_of_findSome?_eq_some hfound
      exact Nat.le_of_lt (Json.count_lt_of_get? htype)
    · split at h <;> cases h
    · cases h

theorem mem_of_itemAt? {items : List Json} {place : Int} {item : Json}
    (h : itemAt? items place = some item) : item ∈ items := by
  unfold itemAt? at h
  generalize (if place < 0 then items.length + place else place) = index at h
  dsimp only at h
  by_cases hindex : index < 0
  · rw [if_pos hindex] at h
    cases h
  · rw [if_neg hindex] at h
    exact List.mem_of_getElem? h

theorem count_representative (h : representative? content = .ok (some media)) :
    media.count ≤ content.count := by
  unfold representative? at h
  cases hdescribed : described? content preferredTypes with
  | error e =>
    rw [hdescribed] at h
    cases h
  | ok found =>
    rw [hdescribed] at h
    cases found with
    | some description =>
      cases h
      exact count_described hdescribed
    | none =>
      change firstDescription? content = .ok (some media) at h
      unfold firstDescription? at h
      split at h
      · cases h
      · split at h
        · rename_i members _
          obtain ⟨member, hmember, rfl⟩ := Option.map_eq_some_iff.mp (Except.ok.inj h)
          exact Nat.le_of_lt (Json.count_lt_of_member (List.mem_of_head? hmember))
        · rename_i items _
          dsimp only at h
          split at h
          · rename_i description hfound
            cases h
            have hmem : ∃ place, itemAt? items place = some media := by
              split at hfound
              · exact ⟨_, hfound⟩
              · exact ⟨_, hfound⟩
              · cases hfound
            obtain ⟨place, hplace⟩ := hmem
            exact Nat.le_of_lt (Json.count_lt_of_mem (mem_of_itemAt? hplace))
          · cases h
        · cases h

theorem count_mediaSchema (h : mediaSchema media = .ok data) : data.count ≤ media.count := by
  unfold mediaSchema at h
  cases hmembers : Json.membersOf media with
  | error e =>
    rw [hmembers] at h
    cases h
  | ok members =>
    rw [hmembers] at h
    cases h
    obtain rfl := Json.count_membersOf hmembers
    exact Json.count_field_le _ _

theorem count_responds (h : Responds document code data) : data.count ≤ document.count := by
  cases h with
  | schema hhas hdata =>
    exact Nat.le_trans (Nat.le_of_lt (Json.count_lt_of_get? hdata)) (count_response hhas)
  | content hhas hmedia hdata =>
    exact Nat.le_trans (count_mediaSchema hdata) (Nat.le_trans (count_representative hmedia)
      (Nat.le_trans (Json.count_field_le _ _) (count_response hhas)))

theorem count_inline (members : List (String × Json)) :
    (Json.obj (inlineMembers members)).count ≤ (Json.obj members).count := by
  rw [Json.count, Json.count]
  exact Nat.succ_le_succ (Json.countMembers_pick (by decide) members)

/-- What operations ask for is no larger than the document. -/
theorem count_asked (h : Asks document data) : data.count ≤ document.count := by
  cases h with
  | nothing => exact Json.count_pos _
  | parameter hhas hdata =>
    exact Nat.le_trans (Nat.le_of_lt (Json.count_lt_of_get? hdata)) (count_parameter hhas)
  | inline hhas _ => exact Nat.le_trans (count_inline _) (count_parameter hhas)
  | form hhas hmedia hdata =>
    exact Nat.le_trans (count_mediaSchema hdata) (Nat.le_trans (count_described hmedia)
      (Nat.le_trans (Json.count_field_le _ _) (count_body hhas)))
  | body hhas hmedia hdata =>
    exact Nat.le_trans (count_mediaSchema hdata) (Nat.le_trans (count_representative hmedia)
      (Nat.le_trans (Json.count_field_le _ _) (count_body hhas)))
  | response hresponds => exact count_responds hresponds

end

end Reading

end ApiClients
