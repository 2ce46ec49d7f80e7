import ApiClients.Types.Registry
import Mathlib.Data.List.Nodup
import Mathlib.Data.List.Perm.Subperm

/-!
# Numbered names

`freeName` tries the spellings of a name one after the other: the name itself, then with 2, 3, …
behind it.  It is bounded by the number of names that are taken, and this file proves that the bound
is never the reason to stop: the spellings are all different, so among one more than there are taken
names one is free (`freeName_firstFree`).

"Taken" may be decided on a folded form of the names, such as their lower case.  What is needed of
the folding is that it keeps the spellings apart.
-/

namespace ApiClients

/-- `name` is the spelling of `base` that a search through all of them ends with: it is not taken,
and every spelling before it is. -/
def FirstFree (taken : String → Bool) (base name : String) : Prop :=
  ∃ n, name = numbered base n ∧ taken name = false ∧ ∀ m < n, taken (numbered base m) = true

theorem FirstFree.free {taken : String → Bool} {base name : String}
    (h : FirstFree taken base name) : taken name = false := by
  obtain ⟨_, _, hfree, _⟩ := h
  exact hfree

/-! ### The spellings are different -/

/-- A number can be read back from its digits. -/
theorem toString_nat_injective : Function.Injective fun n : Nat => toString n := by
  have hread : Function.LeftInverse (fun text : String => Nat.ofDigitChars 10 text.toList 0)
      fun n : Nat => toString n := by
    intro n
    simp
  exact hread.injective

theorem toString_nat_ne_empty (n : Nat) : toString n ≠ "" := by
  intro h
  have hdigits : (toString n).toList = [] := by rw [h]; rfl
  simp [Nat.toString_eq_repr] at hdigits

theorem numbered_injective (base : String) : Function.Injective (numbered base) := by
  intro a b h
  cases a with
  | zero =>
    cases b with
    | zero => rfl
    | succ b => exact absurd (String.append_eq_left_iff.mp h.symm) (toString_nat_ne_empty _)
  | succ a =>
    cases b with
    | zero => exact absurd (String.append_eq_left_iff.mp h) (toString_nat_ne_empty _)
    | succ b =>
      have hnumber := toString_nat_injective ((String.append_right_inj base).mp h)
      omega

/-! ### The search -/

section Search

variable {κ : Type} {taken : String → Bool} {used : List κ} {fold : String → κ} {base : String}

/-- One more spellings than there are taken names cannot all be taken. -/
theorem exists_not_taken (htaken : ∀ name, taken name = true → fold name ∈ used)
    (hfold : Function.Injective fun n => fold (numbered base n)) :
    ∃ n ∈ List.range (used.length + 1), taken (numbered base n) = false := by
  by_contra hnone
  push Not at hnone
  have hnodup : ((List.range (used.length + 1)).map fun n => fold (numbered base n)).Nodup :=
    List.nodup_range.map hfold
  have hsubset : (List.range (used.length + 1)).map (fun n => fold (numbered base n)) ⊆ used := by
    intro key hkey
    obtain ⟨n, hn, rfl⟩ := List.mem_map.mp hkey
    exact htaken _ (by simpa using hnone n hn)
  have hlength := (hnodup.subperm hsubset).length_le
  simp only [List.length_map, List.length_range] at hlength
  omega

/-- The bounded search of `freeName` ends with the spelling that the unbounded one ends with. -/
theorem freeName_firstFree (fold : String → κ)
    (htaken : ∀ name, taken name = true → fold name ∈ used)
    (hfold : Function.Injective fun n => fold (numbered base n)) :
    FirstFree taken base (freeName taken used.length base) := by
  unfold freeName
  cases hfind : (List.range (used.length + 1)).find? fun n => !taken (numbered base n) with
  | none =>
    obtain ⟨n, hn, hfree⟩ := exists_not_taken htaken hfold
    have := List.find?_eq_none.mp hfind n hn
    simp [hfree] at this
  | some n =>
    have hfree : taken (numbered base n) = false := by
      have := List.find?_some hfind
      simpa using this
    refine ⟨n, rfl, hfree, ?_⟩
    intro m hm
    have hbefore := (List.find?_range_eq_some.mp hfind).2.2 m hm
    simpa using hbefore

end Search

end ApiClients
