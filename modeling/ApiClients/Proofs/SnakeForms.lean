import ApiClients.Proofs.Casing
import Mathlib.Data.List.Chain

/-!
# What casings keep, and what a snake form looks like

Underscores, hyphens, full stops and blanks separate words.  In an ASCII text every other character
survives each casing, in its place and with at most its case changed (`without_casing`): the two
splits put nothing in but underscores, and nothing is taken out but separators.

The snake form has no other separator than single underscores and no capital (`SnakeFormed`).  The
capitals are gone because lower case comes last, the other separators because they become underscores
first, and two underscores never stand side by side because the run they are in is collapsed after
the splits.  A text of this form is left alone by every pass, so it is its own snake form
(`SnakeFormed.snakeChars_eq`).
-/

namespace ApiClients.Identifier

open ApiClients.Text

/-! ### Separators -/

/-- Whether a character separates words. -/
def isSeparator (c : Char) : Bool := c == '_' || c == '-' || c == '.' || isBlank c

/-- A text without the characters of a kind. -/
def without (kind : Char → Bool) (text : String) : String :=
  String.ofList (text.toList.filter (! kind ·))

theorem separatorToUnderscore_of_separator {c : Char} (h : isSeparator c = true) :
    separatorToUnderscore c = '_' := by
  simp only [isSeparator, Bool.or_eq_true, beq_iff_eq] at h
  simp only [separatorToUnderscore, Bool.or_eq_true, decide_eq_true_eq]
  grind

theorem separatorToUnderscore_of_not {c : Char} (h : isSeparator c = false) :
    c ≠ '_' ∧ separatorToUnderscore c = c := by
  simp only [isSeparator, Bool.or_eq_false_iff, beq_eq_false_iff_ne] at h
  simp only [separatorToUnderscore, Bool.or_eq_true, decide_eq_true_eq]
  grind

/-- A character behind the first pass is an underscore or separates nothing. -/
theorem separates_separatorToUnderscore (c : Char) :
    separatorToUnderscore c = '_' ∨ isSeparator (separatorToUnderscore c) = false := by
  cases hc : isSeparator c with
  | true => exact Or.inl (separatorToUnderscore_of_separator hc)
  | false =>
    rw [(separatorToUnderscore_of_not hc).2]
    exact Or.inr hc

theorem isSeparator_lowerAscii (c : Char) (h : c.toNat < 128) :
    isSeparator (lowerAscii c) = isSeparator c :=
  forall_ascii (P := fun c => isSeparator (lowerAscii c) = isSeparator c) (by decide) c h

theorem isUpperAscii_lowerAscii (c : Char) : isUpperAscii (lowerAscii c) = false := by
  cases hc : isUpperAscii c with
  | false => simp [lowerAscii, hc]
  | true =>
    have hascii : c.toNat < 128 := isWordChar_lt (by simp [isWordChar, hc])
    exact forall_ascii (P := fun c => isUpperAscii (lowerAscii c) = false) (by decide) c hascii

theorem lowerAscii_eq_self {c : Char} : lowerAscii c = c ↔ isUpperAscii c = false := by
  constructor
  · intro hsame
    rw [← hsame]
    exact isUpperAscii_lowerAscii c
  · intro hsmall
    simp [lowerAscii, hsmall]

/-! ### What casings keep -/

theorem bare_separators (cs : List Char) :
    bare (cs.map separatorToUnderscore) = (cs.filter (! isSeparator ·)).map lowerAscii := by
  induction cs with
  | nil => rfl
  | cons c cs ih =>
    unfold bare at ih ⊢
    cases hc : isSeparator c with
    | true => simp [separatorToUnderscore_of_separator hc, hc, ih]
    | false =>
      obtain ⟨hunderscore, hsame⟩ := separatorToUnderscore_of_not hc
      simp [hsame, hunderscore, hc, ih]

/-- Where lower case does not change the kind, the characters of a kind can be left out before or
after it. -/
theorem filter_lowerChars {kind : Char → Bool} {cs : List Char} (hascii : Ascii cs)
    (hkind : ∀ c : Char, c.toNat < 128 → kind (lowerAscii c) = kind c) :
    (lowerChars cs).filter (! kind ·) = (cs.filter (! kind ·)).map lowerAscii := by
  rw [lowerChars_of_ascii hascii, List.filter_map]
  refine congrArg _ (List.filter_congr fun c hc => ?_)
  simp [hkind c (hascii c hc)]

/-- Underscores and case apart, a casing takes the separators out of an ASCII text and leaves
everything else where it is. -/
theorem without_casing (casing : Casing) {text : String} (h : Ascii text.toList) :
    without (· == '_') (lower (casing.apply text)) = without isSeparator (lower text) := by
  have hunderscore : ∀ c : Char, c.toNat < 128 → (lowerAscii c == '_') = (c == '_') := by
    intro c hc
    rw [Bool.eq_iff_iff, beq_iff_eq, beq_iff_eq]
    exact lowerAscii_eq_underscore c hc
  have hchars : (lowerChars (casing.applyChars text.toList)).filter (! · == '_') =
      (lowerChars text.toList).filter (! isSeparator ·) :=
    calc (lowerChars (casing.applyChars text.toList)).filter (! · == '_')
        = bare (casing.applyChars text.toList) :=
          filter_lowerChars (casing.ascii_applyChars h) hunderscore
      _ = bare (text.toList.map separatorToUnderscore) := bare_casing casing h
      _ = (text.toList.filter (! isSeparator ·)).map lowerAscii := bare_separators text.toList
      _ = (lowerChars text.toList).filter (! isSeparator ·) :=
          (filter_lowerChars h isSeparator_lowerAscii).symm
  rw [without, without, lower, lower, String.toList_ofList, String.toList_ofList,
    casing.toList_apply, hchars]

/-! ### Snake forms -/

/-- Words without capitals, separated by nothing but single underscores. -/
structure SnakeFormed (cs : List Char) : Prop where
  noCapital : ∀ c ∈ cs, isUpperAscii c = false
  noOther : ∀ c ∈ cs, c ≠ '-' ∧ c ≠ '.' ∧ isBlank c = false
  single : cs.IsChain fun a b => ¬ (a = '_' ∧ b = '_')

theorem isChain_collapseUnderscores (cs : List Char) :
    (collapseUnderscores cs).IsChain fun a b => ¬ (a = '_' ∧ b = '_') := by
  induction cs with
  | nil => exact List.isChain_nil
  | cons a cs ih =>
    rw [collapseUnderscores_cons]
    split
    · exact ih
    · rename_i hsingle
      rw [List.isChain_cons, head?_collapseUnderscores]
      refine ⟨fun b hb => ?_, ih⟩
      rintro ⟨ha, rfl⟩
      exact hsingle ⟨ha, hb⟩

theorem snakeFormed_snakeChars {cs : List Char} (h : Ascii cs) : SnakeFormed (snakeChars cs) := by
  have hascii := ascii_passes h
  rw [snakeChars, lowerChars_of_ascii hascii]
  refine ⟨?noCapital, ?noOther, ?single⟩
  case noCapital =>
    intro c hc
    obtain ⟨d, -, rfl⟩ := List.mem_map.mp hc
    exact isUpperAscii_lowerAscii d
  case noOther =>
    intro c hc
    obtain ⟨d, hd, rfl⟩ := List.mem_map.mp hc
    have hplain : d = '_' ∨ isSeparator d = false := by
      rcases mem_splitCapitals (mem_collapseUnderscores hd) with hsplit | hd
      · rcases mem_splitAcronyms hsplit with hsplit | hd
        · obtain ⟨e, -, rfl⟩ := List.mem_map.mp hsplit
          exact separates_separatorToUnderscore e
        · exact Or.inl hd
      · exact Or.inl hd
    rcases hplain with rfl | hplain
    · decide
    · rw [← isSeparator_lowerAscii d (hascii d hd)] at hplain
      simp only [isSeparator, Bool.or_eq_false_iff, beq_eq_false_iff_ne] at hplain
      exact ⟨hplain.1.1.2, hplain.1.2, hplain.2⟩
  case single =>
    rw [List.isChain_map]
    refine (isChain_collapseUnderscores _).imp_of_mem_imp fun a b ha hb hab => ?_
    rwa [lowerAscii_eq_underscore a (hascii a ha), lowerAscii_eq_underscore b (hascii b hb)]

/-! ### A snake form is its own snake form -/

theorem splitAcronyms_of_noCapital {cs : List Char} (h : ∀ c ∈ cs, isUpperAscii c = false) :
    splitAcronyms cs = cs := by
  induction cs with
  | nil => rfl
  | cons a cs ih =>
    have ha := h a List.mem_cons_self
    rw [splitAcronyms_cons_of_not (by simp [ha]), ih fun c hc => h c (List.mem_cons_of_mem a hc)]

theorem splitCapitals_of_noCapital {cs : List Char} (h : ∀ c ∈ cs, isUpperAscii c = false) :
    splitCapitals cs = cs := by
  induction cs with
  | nil => rfl
  | cons a cs ih =>
    have hstart : startsCapital cs = false := by
      cases cs with
      | nil => rfl
      | cons b cs => exact h b (by simp)
    rw [splitCapitals_cons_of_not (by simp [hstart]), ih fun c hc => h c (List.mem_cons_of_mem a hc)]

theorem collapseUnderscores_of_single {cs : List Char}
    (h : cs.IsChain fun a b => ¬ (a = '_' ∧ b = '_')) : collapseUnderscores cs = cs := by
  induction cs with
  | nil => rfl
  | cons a cs ih =>
    rw [List.isChain_cons] at h
    rw [collapseUnderscores_cons, if_neg, ih h.2]
    rintro ⟨ha, hb⟩
    exact h.1 '_' hb ⟨ha, rfl⟩

theorem SnakeFormed.snakeChars_eq {cs : List Char} (h : SnakeFormed cs) (hascii : Ascii cs) :
    snakeChars cs = cs := by
  have hseparator : ∀ c ∈ cs, separatorToUnderscore c = c := by
    intro c hc
    obtain ⟨hhyphen, hstop, hblank⟩ := h.noOther c hc
    simp [separatorToUnderscore, hhyphen, hstop, hblank]
  have hseparators : cs.map separatorToUnderscore = cs := by
    rw [List.map_congr_left hseparator, List.map_id']
  have hlower : cs.map lowerAscii = cs := by
    rw [List.map_congr_left fun c hc => lowerAscii_eq_self.mpr (h.noCapital c hc), List.map_id']
  rw [snakeChars, hseparators, splitAcronyms_of_noCapital h.noCapital,
    splitCapitals_of_noCapital h.noCapital, collapseUnderscores_of_single h.single,
    lowerChars_of_ascii hascii, hlower]

/-- Every casing keeps the characters of an ASCII text, case and separators apart, in their order;
a snake form has neither capitals nor separators other than single underscores; and it is its own
snake form. -/
theorem casings_conserve (text : String) (h : Ascii text.toList) :
    (∀ casing : Casing,
        without (· == '_') (lower (casing.apply text)) = without isSeparator (lower text))
      ∧ SnakeFormed (snake text).toList
      ∧ snake (snake text) = snake text := by
  have hformed : SnakeFormed (snake text).toList := by
    rw [snake, String.toList_ofList]
    exact snakeFormed_snakeChars h
  have hascii : Ascii (snake text).toList := by
    rw [snake, String.toList_ofList]
    exact ascii_snakeChars h
  refine ⟨fun casing => without_casing casing h, hformed, String.toList_inj.mp ?_⟩
  rw [snake, String.toList_ofList]
  exact hformed.snakeChars_eq hascii

/-- A text with an acronym, separators of all kinds and runs of them. -/
def acronym : String := "_get-HTTPResponse. v2__X"

theorem casings_conserve_acronym :
    Ascii acronym.toList
      ∧ camel acronym = "_getHttpResponseV2X" ∧ pascal acronym = "GetHttpResponseV2X"
      ∧ (∀ casing : Casing,
          without (· == '_') (lower (casing.apply acronym)) = "gethttpresponsev2x")
      ∧ SnakeFormed "_get_http_response_v2_x".toList
      ∧ snake "_get_http_response_v2_x" = "_get_http_response_v2_x" := by
  have hascii : Ascii acronym.toList := ascii_of_all (by decide)
  have hsnake : snake acronym = "_get_http_response_v2_x" := by decide +kernel
  have hkept : without isSeparator (lower acronym) = "gethttpresponsev2x" := by decide +kernel
  obtain ⟨hcasing, hformed, hsame⟩ := casings_conserve acronym hascii
  rw [hsnake] at hformed hsame
  refine ⟨hascii, by decide +kernel, by decide +kernel, fun casing => ?_, hformed, hsame⟩
  rw [hcasing casing, hkept]

end ApiClients.Identifier
