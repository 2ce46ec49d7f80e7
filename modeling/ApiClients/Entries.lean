/-!
# Entries in order

Maps that keep the order in which their keys were first put in, as lists of keys with values.
-/

namespace ApiClients.Entries

variable {κ α : Type}

/-- The entries with a value put under a key where some keys are alike: under the first key that is
like it, which stays, and at the end if there is none. -/
def putAlike (alike : κ → κ → Bool) (key : κ) (value : α) : List (κ × α) → List (κ × α)
  | [] => [(key, value)]
  | (k, v) :: rest =>
    if alike k key then (k, value) :: rest else (k, v) :: putAlike alike key value rest

variable [DecidableEq κ]

/-- The value under a key. -/
def get? (entries : List (κ × α)) (key : κ) : Option α :=
  (entries.find? fun e => e.1 == key).map (·.2)

/-- Whether there is a value under a key. -/
def has (entries : List (κ × α)) (key : κ) : Bool := entries.any fun e => e.1 == key

/-- The entries with a value put under a key: in the key's place if it is there, and at the end
otherwise. -/
def put (key : κ) (value : α) (entries : List (κ × α)) : List (κ × α) :=
  putAlike (fun k l => decide (k = l)) key value entries

/-- The entries with a value put under a key unless there is one. -/
def putNew (entries : List (κ × α)) (key : κ) (value : α) : List (κ × α) :=
  if has entries key then entries else entries ++ [(key, value)]

/-- What is put under a key is found there. -/
theorem get?_put (key : κ) (value : α) (entries : List (κ × α)) :
    get? (put key value entries) key = some value := by
  induction entries with
  | nil => simp [put, putAlike, get?]
  | cons e rest ih =>
    obtain ⟨k, v⟩ := e
    by_cases h : k = key
    · simp [put, putAlike, get?, h]
    · simpa [put, putAlike, get?, h] using ih

/-- What is put under a key changes nothing under the others. -/
theorem get?_put_of_ne {key other : κ} (h : other ≠ key) (value : α) (entries : List (κ × α)) :
    get? (put key value entries) other = get? entries other := by
  induction entries with
  | nil => simp [put, putAlike, get?, Ne.symm h]
  | cons e rest ih =>
    obtain ⟨k, v⟩ := e
    by_cases same : k = key
    · simp [put, putAlike, get?, same, Ne.symm h]
    · by_cases found : k = other
      · subst found
        simp [put, putAlike, get?, same]
      · simpa [put, putAlike, get?, same, found] using ih

theorem get?_append (entries more : List (κ × α)) (key : κ) :
    get? (entries ++ more) key = (get? entries key).or (get? more key) := by
  simp only [get?, List.find?_append]
  cases entries.find? fun e => e.1 == key <;> simp

theorem has_iff {entries : List (κ × α)} {key : κ} :
    has entries key = true ↔ key ∈ entries.map (·.1) := by
  simp [has]

theorem has_iff_get? {entries : List (κ × α)} {key : κ} :
    has entries key = true ↔ ∃ value, get? entries key = some value := by
  simp only [has, get?, Option.map_eq_some_iff, List.any_eq_true]
  constructor
  · rintro ⟨e, he, hkey⟩
    cases hfind : entries.find? fun e => e.1 == key with
    | none => exact absurd hkey (by simpa using List.find?_eq_none.mp hfind e he)
    | some found => exact ⟨found.2, found, rfl, rfl⟩
  · rintro ⟨_, e, hfind, _⟩
    exact ⟨e, List.mem_of_find?_eq_some hfind, by simpa using List.find?_some hfind⟩

theorem mem_of_get? {entries : List (κ × α)} {key : κ} {value : α}
    (h : get? entries key = some value) : (key, value) ∈ entries := by
  obtain ⟨e, hfind, rfl⟩ := Option.map_eq_some_iff.mp h
  have hkey : e.1 = key := by simpa using List.find?_some hfind
  rw [← hkey]
  exact List.mem_of_find?_eq_some hfind

theorem get?_of_mem {entries : List (κ × α)} (hkeys : (entries.map (·.1)).Nodup) {key : κ}
    {value : α} (h : (key, value) ∈ entries) : get? entries key = some value := by
  induction entries with
  | nil => cases h
  | cons e rest ih =>
    rw [List.map_cons, List.nodup_cons] at hkeys
    rcases List.mem_cons.mp h with rfl | hrest
    · simp [get?]
    · have hother : e.1 ≠ key := fun same =>
        hkeys.1 (same ▸ List.mem_map_of_mem (f := (·.1)) hrest)
      simpa [get?, hother] using ih hkeys.2 hrest

/-- What is put under a new key comes at the end. -/
theorem put_of_not_mem {key : κ} {entries : List (κ × α)} (h : key ∉ entries.map (·.1))
    (value : α) : put key value entries = entries ++ [(key, value)] := by
  induction entries with
  | nil => rfl
  | cons e rest ih =>
    obtain ⟨k, v⟩ := e
    rw [List.map_cons, List.mem_cons, not_or] at h
    have hrest := ih h.2
    unfold put at hrest ⊢
    simp [putAlike, Ne.symm h.1, hrest]

theorem mem_put {key : κ} {value : α} {entries : List (κ × α)} {entry : κ × α}
    (h : entry ∈ put key value entries) : entry = (key, value) ∨ entry ∈ entries := by
  induction entries with
  | nil => exact .inl (by simpa [put, putAlike] using h)
  | cons e rest ih =>
    obtain ⟨k, v⟩ := e
    by_cases same : k = key
    · rcases List.mem_cons.mp (by simpa [put, putAlike, same] using h) with rfl | hrest
      · exact .inl rfl
      · exact .inr (List.mem_cons_of_mem _ hrest)
    · have hput : entry = (k, v) ∨ entry ∈ put key value rest := by
        simpa [put, putAlike, same] using h
      rcases hput with rfl | hrest
      · exact .inr List.mem_cons_self
      · exact (ih hrest).imp id (List.mem_cons_of_mem _)

theorem mem_keys_put {key other : κ} {value : α} {entries : List (κ × α)} :
    other ∈ (put key value entries).map (·.1) ↔ other = key ∨ other ∈ entries.map (·.1) := by
  induction entries with
  | nil => simp [put, putAlike]
  | cons e rest ih =>
    obtain ⟨k, v⟩ := e
    by_cases same : k = key
    · simp [put, putAlike, same]
    · unfold put at ih ⊢
      simp only [putAlike, same, decide_false, Bool.false_eq_true, if_false, List.map_cons,
        List.mem_cons, ih]
      exact or_left_comm

theorem mem_keys_putNew {key other : κ} {value : α} {entries : List (κ × α)} :
    other ∈ (putNew entries key value).map (·.1) ↔ other = key ∨ other ∈ entries.map (·.1) := by
  unfold putNew
  split
  · rename_i hkey
    constructor
    · exact Or.inr
    · rintro (rfl | hother)
      · exact has_iff.mp hkey
      · exact hother
  · simp [or_comm]

/-- Of two values put under one key the second stays. -/
theorem put_put (key : κ) (value earlier : α) (entries : List (κ × α)) :
    put key value (put key earlier entries) = put key value entries := by
  induction entries with
  | nil => simp [put, putAlike]
  | cons e rest ih =>
    obtain ⟨k, v⟩ := e
    by_cases h : k = key <;> simp_all [put, putAlike]

/-- A value put under a key that is there and one put under another key do not meet. -/
theorem put_comm {key other : κ} {entries : List (κ × α)} (hother : key ≠ other)
    (hkey : key ∈ entries.map (·.1)) (value more : α) :
    put key value (put other more entries) = put other more (put key value entries) := by
  induction entries with
  | nil => cases hkey
  | cons e rest ih =>
    obtain ⟨k, v⟩ := e
    by_cases same : k = key
    · subst same
      simp [put, putAlike, hother]
    · have hrest : key ∈ rest.map (·.1) := by
        simpa [Ne.symm same] using hkey
      by_cases found : k = other
      · subst found
        simp [put, putAlike, same]
      · have hput := ih hrest
        unfold put at hput ⊢
        simp [putAlike, same, found, hput]

/-- Putting a value where it is already changes nothing. -/
theorem put_get? {key : κ} {value : α} {entries : List (κ × α)}
    (h : get? entries key = some value) : put key value entries = entries := by
  induction entries with
  | nil => simp [get?] at h
  | cons e rest ih =>
    obtain ⟨k, v⟩ := e
    by_cases same : k = key
    · simp [get?, same] at h
      simp [put, putAlike, same, h]
    · have : get? rest key = some value := by simpa [get?, same] using h
      simpa [put, putAlike, same] using ih this

/-- An entry put in front of the first one whose key is not below its own. -/
def insertByKey (entry : String × α) : List (String × α) → List (String × α)
  | [] => [entry]
  | e :: rest => if e.1 < entry.1 then e :: insertByKey entry rest else entry :: e :: rest

/-- The entries in the order of their keys; entries with one key keep their order. -/
def sortByKey (entries : List (String × α)) : List (String × α) := entries.foldr insertByKey []

end ApiClients.Entries
