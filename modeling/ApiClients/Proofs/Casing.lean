import ApiClients.Identifier
import Mathlib.Data.List.Basic

/-!
# What casing leaves alone

The casings of identifiers move underscores about and change the case of letters.  On ASCII texts
they do nothing else: a text without its underscores and with its letters in lower case (`bare`) is
the same before and after each pass, and so before and after each casing (`bare_casing`).  Two texts
that differ in more than case and underscores therefore stay apart, whatever the casing.

The names that the naming policies make have letters and digits only (`Word`), so for them "more
than case and underscores" is "more than case" (`lower_casing_inj`).
-/

namespace ApiClients.Text

/-! ### ASCII texts -/

/-- All characters are ASCII ones. -/
def Ascii (cs : List Char) : Prop := ∀ c ∈ cs, c.toNat < 128

theorem Ascii.tail {c : Char} {cs : List Char} (h : Ascii (c :: cs)) : Ascii cs :=
  fun d hd => h d (List.mem_cons_of_mem c hd)

theorem Ascii.head {c : Char} {cs : List Char} (h : Ascii (c :: cs)) : c.toNat < 128 :=
  h c List.mem_cons_self

theorem ascii_of_all {text : String} (h : (text.toList.all fun c => c.toNat < 128) = true) :
    Ascii text.toList := by
  simpa [Ascii] using h

/-- What holds of the first 128 code points holds of every ASCII character. -/
theorem forall_ascii {P : Char → Prop} (h : ∀ n < 128, P (Char.ofNat n)) (c : Char)
    (hc : c.toNat < 128) : P c := by
  have hn := h c.toNat hc
  rwa [Char.ofNat_toNat] at hn

theorem lowerAscii_lt (c : Char) (h : c.toNat < 128) : (lowerAscii c).toNat < 128 :=
  forall_ascii (P := fun c => (lowerAscii c).toNat < 128) (by decide) c h

theorem upperAscii_lt (c : Char) (h : c.toNat < 128) : (upperAscii c).toNat < 128 :=
  forall_ascii (P := fun c => (upperAscii c).toNat < 128) (by decide) c h

theorem lowerAscii_lowerAscii (c : Char) (h : c.toNat < 128) :
    lowerAscii (lowerAscii c) = lowerAscii c :=
  forall_ascii (P := fun c => lowerAscii (lowerAscii c) = lowerAscii c) (by decide) c h

theorem lowerAscii_upperAscii (c : Char) (h : c.toNat < 128) :
    lowerAscii (upperAscii c) = lowerAscii c :=
  forall_ascii (P := fun c => lowerAscii (upperAscii c) = lowerAscii c) (by decide) c h

theorem lowerAscii_eq_underscore (c : Char) (h : c.toNat < 128) :
    lowerAscii c = '_' ↔ c = '_' :=
  forall_ascii (P := fun c => lowerAscii c = '_' ↔ c = '_') (by decide) c h

theorem upperAscii_eq_underscore (c : Char) (h : c.toNat < 128) :
    upperAscii c = '_' ↔ c = '_' :=
  forall_ascii (P := fun c => upperAscii c = '_' ↔ c = '_') (by decide) c h

/-- The one letter whose lower case depends on its neighbours is not an ASCII one. -/
theorem lowerFrom_of_ascii (before : List Char) {cs : List Char} (h : Ascii cs) :
    lowerFrom before cs = cs.map lowerAscii := by
  induction cs generalizing before with
  | nil => rfl
  | cons c cs ih =>
    have hsigma : c ≠ 'Σ' := by
      intro heq
      have := h.head
      rw [heq] at this
      exact absurd this (by decide)
    rw [lowerFrom, if_neg hsigma, ih (c :: before) h.tail]
    simp [lowerOf, h.head]

theorem lowerChars_of_ascii {cs : List Char} (h : Ascii cs) :
    lowerChars cs = cs.map lowerAscii :=
  lowerFrom_of_ascii [] h

theorem capitalizeChars_of_ascii {c : Char} {cs : List Char} (h : Ascii (c :: cs)) :
    capitalizeChars (c :: cs) = upperAscii c :: cs.map lowerAscii := by
  rw [capitalizeChars, lowerFrom_of_ascii [c] h.tail]
  simp [titleOf, h.head]

theorem Ascii.lowerChars {cs : List Char} (h : Ascii cs) : Ascii (lowerChars cs) := by
  rw [lowerChars_of_ascii h]
  intro c hc
  obtain ⟨d, hd, rfl⟩ := List.mem_map.mp hc
  exact lowerAscii_lt d (h d hd)

theorem Ascii.capitalizeChars {cs : List Char} (h : Ascii cs) : Ascii (capitalizeChars cs) := by
  cases cs with
  | nil => exact h
  | cons c cs =>
    rw [capitalizeChars_of_ascii h]
    intro d hd
    rcases List.mem_cons.mp hd with rfl | hd
    · exact upperAscii_lt c h.head
    · obtain ⟨e, he, rfl⟩ := List.mem_map.mp hd
      exact lowerAscii_lt e (h.tail e he)

/-! ### Pieces between separators -/

theorem flatten_splitOn (separator : Char) (cs : List Char) :
    (cs.splitOn separator).flatten = cs.filter (· != separator) := by
  induction cs with
  | nil => rfl
  | cons c cs ih =>
    rw [List.splitOn_cons_eq_if_modifyHead]
    by_cases hc : c = separator
    · simp [hc, ih]
    · have hkept : (c :: cs).filter (· != separator) = c :: cs.filter (· != separator) := by
        simp [hc]
      rw [if_neg (by simpa using hc), hkept, ← ih]
      cases hpieces : cs.splitOn separator with
      | nil => exact absurd hpieces (List.splitOn_ne_nil separator cs)
      | cons piece others => rfl

theorem mem_of_mem_splitOn {separator c : Char} {cs piece : List Char}
    (hpiece : piece ∈ cs.splitOn separator) (hc : c ∈ piece) : c ∈ cs ∧ c ≠ separator := by
  have hflat : c ∈ (cs.splitOn separator).flatten := List.mem_flatten.mpr ⟨piece, hpiece, hc⟩
  rw [flatten_splitOn] at hflat
  simpa using hflat

end ApiClients.Text

namespace ApiClients.Identifier

open ApiClients.Text

/-! ### The passes, a character at a time

A split looks at two or three characters at once and goes on behind them.  What is left out that way
is never the place of another split, since no character is a capital and a small letter or digit at
once; so each pass comes down to one decision behind each character. -/

/-- The first character is a small letter. -/
def startsSmall (cs : List Char) : Bool := cs.head?.any isLowerAscii

/-- The first character is a capital. -/
def startsCapital (cs : List Char) : Bool := cs.head?.any isUpperAscii

/-- The first character is a capital and the second a small letter. -/
def startsCapitalized (cs : List Char) : Bool := startsCapital cs && startsSmall cs.tail

theorem isUpperAscii_of_small {c : Char} (h : isLowerAscii c = true) : isUpperAscii c = false := by
  simp only [isLowerAscii, isUpperAscii, Bool.and_eq_true, Bool.and_eq_false_iff,
    decide_eq_true_eq, decide_eq_false_iff_not] at h ⊢
  exact Or.inr fun hle => absurd (Char.le_trans h.1 hle) (by decide)

theorem isUpperAscii_of_digit {c : Char} (h : isDigitAscii c = true) : isUpperAscii c = false := by
  simp only [isDigitAscii, isUpperAscii, Bool.and_eq_true, Bool.and_eq_false_iff,
    decide_eq_true_eq, decide_eq_false_iff_not] at h ⊢
  exact Or.inl fun hle => absurd (Char.le_trans hle h.2) (by decide)

theorem smallOrDigit_of_capital {c : Char} (h : isUpperAscii c = true) :
    (isLowerAscii c || isDigitAscii c) = false := by
  by_contra hother
  rw [Bool.not_eq_false, Bool.or_eq_true] at hother
  rw [hother.elim isUpperAscii_of_small isUpperAscii_of_digit] at h
  cases h

theorem splitAcronyms_cons_of_not {a : Char} {cs : List Char}
    (h : (isUpperAscii a && startsCapitalized cs) = false) :
    splitAcronyms (a :: cs) = a :: splitAcronyms cs := by
  match cs with
  | [] => rfl
  | [b] => rfl
  | b :: c :: rest =>
    have hsplit : (isUpperAscii a && isUpperAscii b && isLowerAscii c) = false := by
      simpa [startsCapitalized, startsCapital, startsSmall, Bool.and_assoc] using h
    rw [splitAcronyms, hsplit]
    rfl

theorem splitAcronyms_cons (a : Char) (cs : List Char) :
    splitAcronyms (a :: cs) =
      a :: if isUpperAscii a && startsCapitalized cs then '_' :: splitAcronyms cs
        else splitAcronyms cs := by
  by_cases h : (isUpperAscii a && startsCapitalized cs) = true
  · rw [if_pos h]
    match cs with
    | [] => simp [startsCapitalized, startsCapital] at h
    | [b] => simp [startsCapitalized, startsSmall] at h
    | b :: c :: rest =>
      have hsplit : (isUpperAscii a && isUpperAscii b && isLowerAscii c) = true := by
        simpa [startsCapitalized, startsCapital, startsSmall, Bool.and_assoc] using h
      have hc : isUpperAscii c = false := by
        rw [Bool.and_eq_true] at hsplit
        exact isUpperAscii_of_small hsplit.2
      -- neither the capital nor the small letter behind it is in front of another split
      rw [splitAcronyms, if_pos hsplit, splitAcronyms_cons_of_not, splitAcronyms_cons_of_not]
      · simp [hc]
      · simp [startsCapitalized, startsCapital, hc]
  · rw [if_neg h]
    exact splitAcronyms_cons_of_not (by simpa using h)

theorem splitCapitals_cons_of_not {a : Char} {cs : List Char}
    (h : ((isLowerAscii a || isDigitAscii a) && startsCapital cs) = false) :
    splitCapitals (a :: cs) = a :: splitCapitals cs := by
  match cs with
  | [] => rfl
  | b :: rest =>
    have hsplit : ((isLowerAscii a || isDigitAscii a) && isUpperAscii b) = false := by
      simpa [startsCapital] using h
    rw [splitCapitals, hsplit]
    rfl

theorem splitCapitals_cons (a : Char) (cs : List Char) :
    splitCapitals (a :: cs) =
      a :: if (isLowerAscii a || isDigitAscii a) && startsCapital cs then '_' :: splitCapitals cs
        else splitCapitals cs := by
  by_cases h : ((isLowerAscii a || isDigitAscii a) && startsCapital cs) = true
  · rw [if_pos h]
    match cs with
    | [] => simp [startsCapital] at h
    | b :: rest =>
      have hsplit : ((isLowerAscii a || isDigitAscii a) && isUpperAscii b) = true := by
        simpa [startsCapital] using h
      have hb : isUpperAscii b = true := by
        rw [Bool.and_eq_true] at hsplit
        exact hsplit.2
      rw [splitCapitals, if_pos hsplit, splitCapitals_cons_of_not]
      rw [smallOrDigit_of_capital hb, Bool.false_and]
  · rw [if_neg h]
    exact splitCapitals_cons_of_not (by simpa using h)

theorem collapseUnderscores_cons (a : Char) (cs : List Char) :
    collapseUnderscores (a :: cs) =
      if a = '_' ∧ cs.head? = some '_' then collapseUnderscores cs
      else a :: collapseUnderscores cs := by
  cases cs with
  | nil => simp [collapseUnderscores]
  | cons b rest => simp [collapseUnderscores]

@[simp] theorem head?_splitAcronyms (cs : List Char) : (splitAcronyms cs).head? = cs.head? := by
  cases cs with
  | nil => rfl
  | cons a cs => rw [splitAcronyms_cons, List.head?_cons, List.head?_cons]

@[simp] theorem head?_splitCapitals (cs : List Char) : (splitCapitals cs).head? = cs.head? := by
  cases cs with
  | nil => rfl
  | cons a cs => rw [splitCapitals_cons, List.head?_cons, List.head?_cons]

@[simp] theorem head?_collapseUnderscores (cs : List Char) :
    (collapseUnderscores cs).head? = cs.head? := by
  induction cs with
  | nil => rfl
  | cons a cs ih =>
    rw [collapseUnderscores_cons]
    split
    · rename_i hrun
      rw [ih, hrun.1, hrun.2, List.head?_cons]
    · rfl

/-! ### The passes only move underscores -/

/-- The characters but for underscores, letters in lower case. -/
def bare (cs : List Char) : List Char := (cs.filter (· != '_')).map lowerAscii

theorem mem_splitAcronyms {c : Char} {cs : List Char} (h : c ∈ splitAcronyms cs) :
    c ∈ cs ∨ c = '_' := by
  induction cs with
  | nil => exact Or.inl h
  | cons a cs ih =>
    rw [splitAcronyms_cons] at h
    grind

theorem mem_splitCapitals {c : Char} {cs : List Char} (h : c ∈ splitCapitals cs) :
    c ∈ cs ∨ c = '_' := by
  induction cs with
  | nil => exact Or.inl h
  | cons a cs ih =>
    rw [splitCapitals_cons] at h
    grind

theorem mem_collapseUnderscores {c : Char} {cs : List Char} (h : c ∈ collapseUnderscores cs) :
    c ∈ cs := by
  induction cs with
  | nil => exact h
  | cons a cs ih =>
    rw [collapseUnderscores_cons] at h
    grind

theorem filter_splitAcronyms (cs : List Char) :
    (splitAcronyms cs).filter (· != '_') = cs.filter (· != '_') := by
  induction cs with
  | nil => rfl
  | cons a cs ih =>
    rw [splitAcronyms_cons]
    split <;> simp [List.filter_cons, ih]

theorem filter_splitCapitals (cs : List Char) :
    (splitCapitals cs).filter (· != '_') = cs.filter (· != '_') := by
  induction cs with
  | nil => rfl
  | cons a cs ih =>
    rw [splitCapitals_cons]
    split <;> simp [List.filter_cons, ih]

theorem filter_collapseUnderscores (cs : List Char) :
    (collapseUnderscores cs).filter (· != '_') = cs.filter (· != '_') := by
  induction cs with
  | nil => rfl
  | cons a cs ih =>
    rw [collapseUnderscores_cons]
    split
    · rename_i hrun
      simp [ih, hrun.1]
    · rw [List.filter_cons, List.filter_cons, ih]

/-! ### The casings only move underscores and change case -/

theorem separatorToUnderscore_lt (c : Char) (h : c.toNat < 128) :
    (separatorToUnderscore c).toNat < 128 :=
  forall_ascii (P := fun c => (separatorToUnderscore c).toNat < 128) (by decide) c h

/-- The characters between the passes that move underscores and the lower casing are ASCII. -/
theorem ascii_passes {cs : List Char} (h : Ascii cs) :
    Ascii (collapseUnderscores (splitCapitals (splitAcronyms (cs.map separatorToUnderscore)))) := by
  intro c hc
  rcases mem_splitCapitals (mem_collapseUnderscores hc) with hc | rfl
  · rcases mem_splitAcronyms hc with hc | rfl
    · obtain ⟨d, hd, rfl⟩ := List.mem_map.mp hc
      exact separatorToUnderscore_lt d (h d hd)
    · decide
  · decide

theorem ascii_snakeChars {cs : List Char} (h : Ascii cs) : Ascii (snakeChars cs) :=
  (ascii_passes h).lowerChars

theorem bare_map_lowerAscii {cs : List Char} (h : Ascii cs) :
    bare (cs.map lowerAscii) = bare cs := by
  induction cs with
  | nil => rfl
  | cons c cs ih =>
    have hunderscore := lowerAscii_eq_underscore c h.head
    have hlower := lowerAscii_lowerAscii c h.head
    have hrest := ih h.tail
    unfold bare at hrest ⊢
    by_cases hc : c = '_'
    · simp [hc, hrest, show lowerAscii '_' = '_' by decide]
    · simp [hc, hunderscore, hlower, hrest]

theorem bare_snakeChars {cs : List Char} (h : Ascii cs) :
    bare (snakeChars cs) = bare (cs.map separatorToUnderscore) := by
  rw [snakeChars, lowerChars_of_ascii (ascii_passes h), bare_map_lowerAscii (ascii_passes h)]
  rw [bare, filter_collapseUnderscores, filter_splitCapitals, filter_splitAcronyms, bare]

theorem bare_capitalizeChars {cs : List Char} (h : Ascii cs) :
    bare (capitalizeChars cs) = bare cs := by
  cases cs with
  | nil => rfl
  | cons c cs =>
    have hrest := bare_map_lowerAscii h.tail
    have hunderscore := upperAscii_eq_underscore c h.head
    have hupper := lowerAscii_upperAscii c h.head
    rw [capitalizeChars_of_ascii h]
    unfold bare at hrest ⊢
    by_cases hc : c = '_'
    · simp [hc, hrest, show upperAscii '_' = '_' by decide]
    · simp [hc, hunderscore, hupper, hrest]

theorem bare_append (cs ds : List Char) : bare (cs ++ ds) = bare cs ++ bare ds := by
  simp [bare]

/-- Capitalizing words and closing them up keeps their characters. -/
theorem bare_flatMap_capitalizeChars {words : List (List Char)} (h : ∀ word ∈ words, Ascii word) :
    bare (words.flatMap capitalizeChars) = bare words.flatten := by
  induction words with
  | nil => rfl
  | cons word words ih =>
    have hword := bare_capitalizeChars (h word List.mem_cons_self)
    have hrest := ih fun other hother => h other (List.mem_cons_of_mem word hother)
    rw [List.flatMap_cons, List.flatten_cons, bare_append, bare_append, hword, hrest]

theorem ascii_wordChars {cs : List Char} (h : Ascii cs) : ∀ word ∈ wordChars cs, Ascii word :=
  fun _ hword c hc => ascii_snakeChars h c (mem_of_mem_splitOn hword hc).1

theorem bare_flatten_wordChars (cs : List Char) :
    bare (wordChars cs).flatten = bare (snakeChars cs) := by
  rw [wordChars, flatten_splitOn]
  simp [bare]

theorem bare_pascalChars {cs : List Char} (h : Ascii cs) :
    bare (pascalChars cs) = bare (cs.map separatorToUnderscore) := by
  rw [pascalChars, bare_flatMap_capitalizeChars (ascii_wordChars h), bare_flatten_wordChars,
    bare_snakeChars h]

theorem bare_camelChars {cs : List Char} (h : Ascii cs) :
    bare (camelChars cs) = bare (cs.map separatorToUnderscore) := by
  have hlead : bare ((snakeChars cs).takeWhile (· == '_')) = [] := by
    have hall := List.all_takeWhile (p := (· == '_')) (l := snakeChars cs)
    rw [List.all_eq_true] at hall
    have hempty : ((snakeChars cs).takeWhile (· == '_')).filter (· != '_') = [] := by
      rw [List.filter_eq_nil_iff]
      intro c hc
      simpa using hall c hc
    rw [bare, hempty, List.map_nil]
  have hwords : bare ((wordChars cs).filter (! ·.isEmpty)).flatten = bare (snakeChars cs) := by
    rw [← bare_flatten_wordChars]
    congr 1
    induction wordChars cs with
    | nil => rfl
    | cons word words ih => cases word <;> simp_all
  rw [← bare_snakeChars h, ← hwords, camelChars]
  cases hnonempty : (wordChars cs).filter (! ·.isEmpty) with
  | nil => exact hlead
  | cons first others =>
    have hothers : ∀ word ∈ others, Ascii word := by
      intro word hword
      have hmem : word ∈ (wordChars cs).filter (! ·.isEmpty) := by
        rw [hnonempty]
        exact List.mem_cons_of_mem first hword
      exact ascii_wordChars h word (List.mem_filter.mp hmem).1
    simp only [bare_append, hlead, List.nil_append, List.flatten_cons]
    rw [bare_flatMap_capitalizeChars hothers]

theorem ascii_flatMap_capitalizeChars {words : List (List Char)} (h : ∀ word ∈ words, Ascii word) :
    Ascii (words.flatMap capitalizeChars) := by
  intro c hc
  obtain ⟨word, hword, hc⟩ := List.mem_flatMap.mp hc
  exact (h word hword).capitalizeChars c hc

theorem ascii_pascalChars {cs : List Char} (h : Ascii cs) : Ascii (pascalChars cs) :=
  ascii_flatMap_capitalizeChars (ascii_wordChars h)

theorem ascii_camelChars {cs : List Char} (h : Ascii cs) : Ascii (camelChars cs) := by
  have hlead : Ascii ((snakeChars cs).takeWhile (· == '_')) :=
    fun c hc => ascii_snakeChars h c (List.takeWhile_subset _ hc)
  have hwords : ∀ word ∈ (wordChars cs).filter (! ·.isEmpty), Ascii word :=
    fun word hword => ascii_wordChars h word (List.mem_filter.mp hword).1
  rw [camelChars]
  cases hnonempty : (wordChars cs).filter (! ·.isEmpty) with
  | nil => exact hlead
  | cons first others =>
    rw [hnonempty] at hwords
    intro c hc
    rcases List.mem_append.mp hc with hc | hc
    · rcases List.mem_append.mp hc with hc | hc
      · exact hlead c hc
      · exact hwords first List.mem_cons_self c hc
    · exact ascii_flatMap_capitalizeChars
        (fun word hword => hwords word (List.mem_cons_of_mem first hword)) c hc

/-- A casing on characters. -/
def Casing.applyChars : Casing → List Char → List Char
  | .camel => camelChars
  | .pascal => pascalChars
  | .snake => snakeChars

theorem Casing.toList_apply (casing : Casing) (text : String) :
    (casing.apply text).toList = casing.applyChars text.toList := by
  cases casing <;> exact String.toList_ofList

theorem Casing.ascii_applyChars (casing : Casing) {cs : List Char} (h : Ascii cs) :
    Ascii (casing.applyChars cs) := by
  cases casing with
  | camel => exact ascii_camelChars h
  | pascal => exact ascii_pascalChars h
  | snake => exact ascii_snakeChars h

/-- No casing touches more than underscores, separators and case. -/
theorem bare_casing (casing : Casing) {cs : List Char} (h : Ascii cs) :
    bare (casing.applyChars cs) = bare (cs.map separatorToUnderscore) := by
  cases casing with
  | camel => exact bare_camelChars h
  | pascal => exact bare_pascalChars h
  | snake => exact bare_snakeChars h

/-! ### Words of letters and digits -/

/-- Whether a character is an ASCII letter or digit. -/
def isWordChar (c : Char) : Bool := isLowerAscii c || isUpperAscii c || isDigitAscii c

/-- All characters are ASCII letters or digits. -/
def Word (cs : List Char) : Prop := ∀ c ∈ cs, isWordChar c = true

theorem isWordChar_lt {c : Char} (h : isWordChar c = true) : c.toNat < 128 := by
  have hle : ∀ d : Char, d.toNat < 128 → c ≤ d → c.toNat < 128 := by
    intro d hd hcd
    exact Nat.lt_of_le_of_lt hcd hd
  simp only [isWordChar, isLowerAscii, isUpperAscii, isDigitAscii, Bool.or_eq_true,
    Bool.and_eq_true, decide_eq_true_eq] at h
  rcases h with (⟨_, h⟩ | ⟨_, h⟩) | ⟨_, h⟩
  · exact hle 'z' (by decide) h
  · exact hle 'Z' (by decide) h
  · exact hle '9' (by decide) h

theorem Word.ascii {cs : List Char} (h : Word cs) : Ascii cs := fun c hc => isWordChar_lt (h c hc)

theorem Word.append {cs ds : List Char} (hcs : Word cs) (hds : Word ds) : Word (cs ++ ds) := by
  intro c hc
  rcases List.mem_append.mp hc with hc | hc
  · exact hcs c hc
  · exact hds c hc

theorem isWordChar_ne_separator {c : Char} (h : isWordChar c = true) :
    c ≠ '_' ∧ separatorToUnderscore c = c :=
  forall_ascii (P := fun c => isWordChar c = true → c ≠ '_' ∧ separatorToUnderscore c = c)
    (by decide) c (isWordChar_lt h) h

theorem filter_of_word {cs : List Char} (h : Word cs) : cs.filter (· != '_') = cs := by
  rw [List.filter_eq_self]
  intro c hc
  simpa using (isWordChar_ne_separator (h c hc)).1

/-- Of a word without underscores only the case is left out. -/
theorem bare_of_word {cs : List Char} (h : Word cs) :
    bare (cs.map separatorToUnderscore) = cs.map lowerAscii := by
  have hsame : cs.map separatorToUnderscore = cs := by
    rw [List.map_congr_left fun c hc => (isWordChar_ne_separator (h c hc)).2, List.map_id']
  rw [hsame, bare, filter_of_word h]

/-! ### Pascal names are words -/

theorem isIdentifierChar_iff {c : Char} :
    isIdentifierChar c = true ↔ isWordChar c = true ∨ c = '_' := by
  simp [isIdentifierChar, isWordChar]

theorem separator_of_isIdentifierChar {c : Char} (h : isIdentifierChar c = true) :
    separatorToUnderscore c = c := by
  rcases isIdentifierChar_iff.mp h with hword | rfl
  · exact (isWordChar_ne_separator hword).2
  · decide

theorem isWordChar_lowerAscii {c : Char} (h : isWordChar c = true) :
    isWordChar (lowerAscii c) = true :=
  forall_ascii (P := fun c => isWordChar c = true → isWordChar (lowerAscii c) = true)
    (by decide) c (isWordChar_lt h) h

theorem isWordChar_upperAscii {c : Char} (h : isWordChar c = true) :
    isWordChar (upperAscii c) = true :=
  forall_ascii (P := fun c => isWordChar c = true → isWordChar (upperAscii c) = true)
    (by decide) c (isWordChar_lt h) h

theorem ascii_of_isIdentifierChar {cs : List Char} (h : ∀ c ∈ cs, isIdentifierChar c = true) :
    Ascii cs := by
  intro c hc
  rcases isIdentifierChar_iff.mp (h c hc) with hword | rfl
  · exact isWordChar_lt hword
  · decide

/-- The snake form of identifier characters has identifier characters only. -/
theorem isIdentifierChar_snakeChars {cs : List Char} (h : ∀ c ∈ cs, isIdentifierChar c = true) :
    ∀ c ∈ snakeChars cs, isIdentifierChar c = true := by
  have hseparator : ∀ c ∈ cs, separatorToUnderscore c = c :=
    fun c hc => separator_of_isIdentifierChar (h c hc)
  have hascii := ascii_of_isIdentifierChar h
  intro c hc
  rw [snakeChars, lowerChars_of_ascii (ascii_passes hascii)] at hc
  obtain ⟨d, hd, rfl⟩ := List.mem_map.mp hc
  have hd' : isIdentifierChar d = true := by
    rcases mem_splitCapitals (mem_collapseUnderscores hd) with hd | rfl
    · rcases mem_splitAcronyms hd with hd | rfl
      · obtain ⟨e, he, rfl⟩ := List.mem_map.mp hd
        rw [hseparator e he]
        exact h e he
      · decide
    · decide
  rcases isIdentifierChar_iff.mp hd' with hword | rfl
  · exact isIdentifierChar_iff.mpr (Or.inl (isWordChar_lowerAscii hword))
  · decide

theorem word_capitalizeChars {cs : List Char} (h : Word cs) : Word (capitalizeChars cs) := by
  cases cs with
  | nil => exact h
  | cons c cs =>
    rw [capitalizeChars_of_ascii h.ascii]
    intro d hd
    rcases List.mem_cons.mp hd with rfl | hd
    · exact isWordChar_upperAscii (h c List.mem_cons_self)
    · obtain ⟨e, he, rfl⟩ := List.mem_map.mp hd
      exact isWordChar_lowerAscii (h e (List.mem_cons_of_mem c he))

theorem word_pascalChars {cs : List Char} (h : ∀ c ∈ cs, isIdentifierChar c = true) :
    Word (pascalChars cs) := by
  intro c hc
  obtain ⟨word, hword, hc⟩ := List.mem_flatMap.mp hc
  have hpiece : Word word := by
    intro d hd
    obtain ⟨hsnake, hunderscore⟩ := mem_of_mem_splitOn hword hd
    rcases isIdentifierChar_iff.mp (isIdentifierChar_snakeChars h d hsnake) with hd | hd
    · exact hd
    · exact absurd hd hunderscore
  exact word_capitalizeChars hpiece c hc

theorem isIdentifierChar_normalizeChars (cs : List Char) :
    ∀ c ∈ normalizeChars cs, isIdentifierChar c = true := by
  have hmapped : ∀ c ∈ cs.map (fun c => if isIdentifierChar c then c else '_'),
      isIdentifierChar c = true := by
    intro c hc
    obtain ⟨d, _, rfl⟩ := List.mem_map.mp hc
    by_cases hd : isIdentifierChar d = true
    · rwa [if_pos hd]
    · rw [if_neg hd]
      decide
  intro c hc
  rw [normalizeChars] at hc
  cases hcs : cs.map (fun c => if isIdentifierChar c then c else '_') with
  | nil =>
    rw [hcs] at hc
    cases hc
  | cons d rest =>
    rw [hcs] at hc hmapped
    by_cases hdigit : isDigitAscii d = true
    · simp only [hdigit, if_true] at hc
      rcases List.mem_cons.mp hc with rfl | hc
      · decide
      · exact hmapped c hc
    · simp only [hdigit, Bool.false_eq_true, if_false] at hc
      exact hmapped c hc

/-- The Pascal form of whatever text, made an identifier first, has letters and digits only. -/
theorem word_pascalNormalized (text : String) : Word (pascalNormalized text).toList := by
  rw [pascalNormalized, pascal, String.toList_ofList, normalize, String.toList_ofList]
  exact word_pascalChars (isIdentifierChar_normalizeChars text.toList)

/-! ### Pascal names start with no small letter -/

theorem isLowerAscii_upperAscii (c : Char) (h : c.toNat < 128) :
    isLowerAscii (upperAscii c) = false :=
  forall_ascii (P := fun c => isLowerAscii (upperAscii c) = false) (by decide) c h

theorem startsSmall_append {cs ds : List Char} (hcs : startsSmall cs = false)
    (hds : startsSmall ds = false) : startsSmall (cs ++ ds) = false := by
  cases cs with
  | nil => exact hds
  | cons c cs => exact hcs

theorem startsSmall_flatten {parts : List (List Char)}
    (h : ∀ part ∈ parts, startsSmall part = false) : startsSmall parts.flatten = false := by
  induction parts with
  | nil => rfl
  | cons part parts ih =>
    rw [List.flatten_cons]
    exact startsSmall_append (h part List.mem_cons_self)
      (ih fun other hother => h other (List.mem_cons_of_mem part hother))

theorem startsSmall_capitalizeChars {word : List Char} (h : Ascii word) :
    startsSmall (capitalizeChars word) = false := by
  cases word with
  | nil => rfl
  | cons c word =>
    rw [capitalizeChars_of_ascii h]
    exact isLowerAscii_upperAscii c h.head

theorem startsSmall_pascalChars {cs : List Char} (h : Ascii cs) :
    startsSmall (pascalChars cs) = false := by
  rw [pascalChars, List.flatMap_def]
  refine startsSmall_flatten fun part hpart => ?_
  obtain ⟨word, hword, rfl⟩ := List.mem_map.mp hpart
  exact startsSmall_capitalizeChars (ascii_wordChars h word hword)

theorem startsSmall_pascalNormalized (text : String) :
    startsSmall (pascalNormalized text).toList = false := by
  rw [pascalNormalized, pascal, normalize, String.toList_ofList, String.toList_ofList]
  exact startsSmall_pascalChars
    (ascii_of_isIdentifierChar (isIdentifierChar_normalizeChars text.toList))

/-! ### Casings keep names apart -/

/-- Names of letters and digits that come out of a casing alike, case apart, were alike before. -/
theorem lower_casing_inj (casing : Casing) {a b : String} (ha : Word a.toList) (hb : Word b.toList)
    (h : lower (casing.apply a) = lower (casing.apply b)) : lower a = lower b := by
  have hbare : ∀ text : String, Word text.toList →
      bare (lower (casing.apply text)).toList = (lower text).toList := by
    intro text htext
    have hcased := casing.ascii_applyChars htext.ascii
    rw [lower, String.toList_ofList, casing.toList_apply, lowerChars_of_ascii hcased,
      bare_map_lowerAscii hcased, bare_casing casing htext.ascii, bare_of_word htext, lower,
      String.toList_ofList, lowerChars_of_ascii htext.ascii]
  apply String.toList_inj.mp
  rw [← hbare a ha, ← hbare b hb, h]

end ApiClients.Identifier
