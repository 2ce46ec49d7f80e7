import ApiClients.Entries
import Mathlib.Data.List.Induction
import Mathlib.Data.List.Nodup
import Mathlib.Data.String.Basic

/-!
# The order of entries

Entries that are put in one after the other stand in the order in which their keys are first used
(`keys_putAll`), and each key has the last value that was put under it (`get?_putAll`).  Sorting
entries by their keys leaves out none and adds none (`sortByKey_perm`); it changes the order of two
entries only if their keys are in the wrong order, so entries of one key stay as they stood
(`sortByKey_pairwise`).
-/

namespace ApiClients.Entries

/-! ### Keys in the order of first use -/

section

variable {κ : Type} [DecidableEq κ]

theorem eraseDups_concat (keys : List κ) (k : κ) :
    (keys ++ [k]).eraseDups = if k ∈ keys then keys.eraseDups else keys.eraseDups ++ [k] := by
  rw [List.eraseDups_append, List.removeAll, List.filter_cons]
  by_cases hmem : k ∈ keys <;> simp [hmem, List.eraseDups_cons]

theorem nodup_eraseDups (keys : List κ) : keys.eraseDups.Nodup := by
  induction keys using List.reverseRecOn with
  | nil => exact List.nodup_nil
  | append_singleton keys k ih =>
    rw [eraseDups_concat]
    split
    · exact ih
    · rename_i hnew
      refine List.nodup_append.mpr ⟨ih, List.nodup_singleton k, ?_⟩
      rintro other hother _ hk rfl
      rw [List.mem_singleton.mp hk, List.mem_eraseDups] at hother
      exact hnew hother

/-- Of two keys the one that is used first comes first. -/
theorem eraseDups_firstUse (keys : List κ) :
    keys.eraseDups.Pairwise fun a b => keys.idxOf a < keys.idxOf b := by
  induction keys using List.reverseRecOn with
  | nil => exact List.Pairwise.nil
  | append_singleton keys k ih =>
    have hkept : keys.eraseDups.Pairwise fun a b => (keys ++ [k]).idxOf a < (keys ++ [k]).idxOf b := by
      refine ih.imp_of_mem ?_
      intro a b ha hb hlt
      rwa [List.idxOf_append_of_mem (List.mem_eraseDups.mp ha),
        List.idxOf_append_of_mem (List.mem_eraseDups.mp hb)]
    rw [eraseDups_concat]
    split
    · exact hkept
    · rename_i hnew
      refine List.pairwise_append.mpr ⟨hkept, List.pairwise_singleton _ _, ?_⟩
      intro a ha b hb
      rw [List.mem_singleton.mp hb, List.idxOf_append_of_notMem hnew,
        List.idxOf_append_of_mem (List.mem_eraseDups.mp ha)]
      have hbefore := List.idxOf_lt_length_iff.mpr (List.mem_eraseDups.mp ha)
      omega

end

/-! ### Entries put in one after the other -/

section

variable {κ α : Type} [DecidableEq κ] {key : α → κ}

/-- Values put under their keys one after the other. -/
def putAll (key : α → κ) (values : List α) : List (κ × α) :=
  values.foldl (fun entries value => put (key value) value entries) []

theorem putAll_concat (values : List α) (value : α) :
    putAll key (values ++ [value]) = put (key value) value (putAll key values) := by
  rw [putAll, List.foldl_append]
  rfl

theorem keys_put_of_mem {k : κ} {entries : List (κ × α)} (h : k ∈ entries.map (·.1)) (value : α) :
    (put k value entries).map (·.1) = entries.map (·.1) := by
  induction entries with
  | nil => cases h
  | cons first rest ih =>
    by_cases hfirst : first.1 = k
    · simp [put, putAlike, hfirst]
    · have hrest : k ∈ rest.map (·.1) := by
        rcases List.mem_cons.mp h with heq | hrest
        · exact absurd heq.symm hfirst
        · exact hrest
      unfold put at ih ⊢
      simp [putAlike, hfirst, ih hrest]

/-- The keys stand in the order in which they have first been used. -/
theorem keys_putAll (key : α → κ) (values : List α) :
    (putAll key values).map (·.1) = (values.map key).eraseDups := by
  induction values using List.reverseRecOn with
  | nil => rfl
  | append_singleton values value ih =>
    rw [putAll_concat, List.map_append, List.map_singleton, eraseDups_concat, ← ih]
    have hold : key value ∈ values.map key ↔ key value ∈ (putAll key values).map (·.1) := by
      rw [ih, List.mem_eraseDups]
    by_cases hmem : key value ∈ (putAll key values).map (·.1)
    · rw [keys_put_of_mem hmem, if_pos (hold.mpr hmem)]
    · rw [put_of_not_mem hmem, if_neg (mt hold.mp hmem), List.map_append, List.map_singleton]

theorem nodup_keys_putAll (key : α → κ) (values : List α) :
    ((putAll key values).map (·.1)).Nodup := by
  rw [keys_putAll]
  exact nodup_eraseDups _

/-- Under each key stands the last value that has it. -/
theorem get?_putAll (key : α → κ) (values : List α) (k : κ) :
    get? (putAll key values) k = values.reverse.find? fun value => key value = k := by
  induction values using List.reverseRecOn with
  | nil => rfl
  | append_singleton values value ih =>
    rw [putAll_concat, List.reverse_concat, List.find?_cons]
    by_cases hkey : key value = k
    · subst hkey
      simp [get?_put]
    · rw [get?_put_of_ne (Ne.symm hkey), ih]
      simp [hkey]

end

/-! ### Sorted entries -/

section

variable {α : Type}

theorem insertByKey_perm (entry : String × α) (entries : List (String × α)) :
    (insertByKey entry entries).Perm (entry :: entries) := by
  induction entries with
  | nil => exact List.Perm.refl _
  | cons first rest ih =>
    unfold insertByKey
    split
    · exact (ih.cons first).trans (List.Perm.swap entry first rest)
    · exact List.Perm.refl _

theorem sortByKey_perm (entries : List (String × α)) : (sortByKey entries).Perm entries := by
  induction entries with
  | nil => exact List.Perm.refl _
  | cons first rest ih => exact (insertByKey_perm first _).trans (ih.cons first)

theorem mem_sortByKey {entry : String × α} {entries : List (String × α)} :
    entry ∈ sortByKey entries ↔ entry ∈ entries :=
  (sortByKey_perm entries).mem_iff

/-- An entry goes in front of all that have its key, so it may stand before them in any order `R`. -/
theorem insertByKey_pairwise {R : String × α → String × α → Prop} {entry : String × α}
    {entries : List (String × α)} (hentry : ∀ other ∈ entries, R entry other)
    (h : entries.Pairwise fun a b => a.1 ≤ b.1 ∧ (a.1 = b.1 → R a b)) :
    (insertByKey entry entries).Pairwise fun a b => a.1 ≤ b.1 ∧ (a.1 = b.1 → R a b) := by
  induction entries with
  | nil => exact List.pairwise_singleton _ _
  | cons first rest ih =>
    have hrest := List.pairwise_cons.mp h
    unfold insertByKey
    split
    · rename_i hbelow
      refine List.pairwise_cons.mpr
        ⟨?_, ih (fun other hother => hentry other (List.mem_cons_of_mem _ hother)) hrest.2⟩
      intro other hother
      rcases List.mem_cons.mp ((insertByKey_perm entry rest).mem_iff.mp hother) with rfl | hother
      · exact ⟨le_of_lt hbelow, fun hsame => absurd hbelow (hsame ▸ lt_irrefl _)⟩
      · exact hrest.1 other hother
    · rename_i hnot
      refine List.pairwise_cons.mpr ⟨?_, h⟩
      intro other hother
      refine ⟨?_, fun _ => hentry other hother⟩
      have habove : entry.1 ≤ first.1 := not_lt.mp hnot
      rcases List.mem_cons.mp hother with rfl | hother
      · exact habove
      · exact habove.trans (hrest.1 other hother).1

/-- Sorted entries have their keys in order, and those of one key stand in the order `R` in which
all of them stood. -/
theorem sortByKey_pairwise {R : String × α → String × α → Prop} {entries : List (String × α)}
    (h : entries.Pairwise R) :
    (sortByKey entries).Pairwise fun a b => a.1 ≤ b.1 ∧ (a.1 = b.1 → R a b) := by
  induction entries with
  | nil => exact List.Pairwise.nil
  | cons first rest ih =>
    have hrest := List.pairwise_cons.mp h
    exact insertByKey_pairwise (fun other hother => hrest.1 other (mem_sortByKey.mp hother))
      (ih hrest.2)

theorem get?_insertByKey (key other : String) (value : α) (entries : List (String × α)) :
    get? (insertByKey (key, value) entries) other =
      if key = other then some value else get? entries other := by
  induction entries with
  | nil => by_cases h : key = other <;> simp [insertByKey, get?, h]
  | cons entry rest ih =>
    unfold insertByKey
    split
    · rename_i hbelow
      unfold get? at ih ⊢
      by_cases hentry : entry.1 = other
      · have hkey : key ≠ other := by
          rintro rfl
          exact absurd (hentry ▸ hbelow) (String.lt_irrefl _)
        simp [hentry, hkey]
      · simpa [hentry] using ih
    · by_cases h : key = other <;> simp [get?, h]

theorem get?_sortByKey (entries : List (String × α)) (key : String) :
    get? (sortByKey entries) key = get? entries key := by
  induction entries with
  | nil => rfl
  | cons entry rest ih =>
    show get? (insertByKey (entry.1, entry.2) (sortByKey rest)) key = _
    rw [get?_insertByKey, ih]
    by_cases h : entry.1 = key <;> simp [get?, h]

end

end ApiClients.Entries
