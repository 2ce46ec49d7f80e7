import ApiClients.Proofs.Identifiers
import ApiClients.Proofs.VariableNames

/-!
# Parameters of one name in several places

Where several parameters have one name, each gets its location behind it, before the name is cased
and made an identifier.  On the way underscores come and go, the case of letters changes and other
characters fall away, but the ASCII letters and digits of an ASCII name stay in their order
(`letters_casing`, `bare_normalizeChars`).  So the variable name ends in the word for the location,
case and underscores apart, whatever is left of the name in front of it (`bare_located`).  A reserved
word that is escaped can be told from every other identifier, and from what it has been
(`unescaped_escape`).  Hence the locations tell the parameters apart (`locations_told_apart`).
-/

namespace ApiClients

open ApiClients.Text

namespace Identifier

/-! ### Letters and digits -/

/-- The ASCII letters and digits of a text, case apart. -/
def letters (cs : List Char) : List Char := (cs.filter isWordChar).map lowerAscii

theorem letters_append (cs ds : List Char) : letters (cs ++ ds) = letters cs ++ letters ds := by
  simp [letters]

theorem filter_bare {cs : List Char} (h : Ascii cs) :
    (bare cs).filter isWordChar = letters cs := by
  have hkept : ∀ c ∈ cs, (isWordChar (lowerAscii c) && c != '_') = isWordChar c := by
    intro c hc
    exact forall_ascii (P := fun c => (isWordChar (lowerAscii c) && c != '_') = isWordChar c)
      (by decide) c (h c hc)
  rw [bare, letters, List.filter_map, List.filter_filter]
  exact congrArg _ (List.filter_congr hkept)

theorem letters_separators {cs : List Char} (h : Ascii cs) :
    letters (cs.map separatorToUnderscore) = letters cs := by
  induction cs with
  | nil => rfl
  | cons c cs ih =>
    have hsame : isWordChar (separatorToUnderscore c) = isWordChar c :=
      forall_ascii (P := fun c => isWordChar (separatorToUnderscore c) = isWordChar c) (by decide)
        c h.head
    have hrest := ih h.tail
    unfold letters at hrest ⊢
    by_cases hword : isWordChar c = true
    · simp [hword, (isWordChar_ne_separator hword).2, hrest]
    · simp [hsame, hword, hrest]

/-- No casing touches the ASCII letters and digits of an ASCII text, case apart. -/
theorem letters_casing (casing : Casing) {cs : List Char} (h : Ascii cs) :
    letters (casing.applyChars cs) = letters cs := by
  have hseparated : Ascii (cs.map separatorToUnderscore) := by
    intro c hc
    obtain ⟨d, hd, rfl⟩ := List.mem_map.mp hc
    exact separatorToUnderscore_lt d (h d hd)
  calc letters (casing.applyChars cs)
      = (bare (casing.applyChars cs)).filter isWordChar :=
        (filter_bare (casing.ascii_applyChars h)).symm
    _ = (bare (cs.map separatorToUnderscore)).filter isWordChar := by rw [bare_casing casing h]
    _ = letters (cs.map separatorToUnderscore) := filter_bare hseparated
    _ = letters cs := letters_separators h

/-- An identifier has the ASCII letters and digits of the text that it is close to, and underscores
else. -/
theorem bare_normalizeChars (cs : List Char) : bare (normalizeChars cs) = letters cs := by
  rw [bare, filter_normalizeChars, letters]

end Identifier

/-! ### Escaped words -/

namespace Language

/-- An escaped identifier without the mark in front of it, case and underscores apart. -/
def unescaped (language : Language) (text : String) : List Char :=
  if language.escapeMark.toList <+: text.toList then
    Identifier.bare (text.toList.drop language.escapeMark.toList.length)
  else Identifier.bare text.toList

/-- The mark of a known language cannot stand in an identifier. -/
theorem escapeMark_known {language : Language} (h : language ∈ known) :
    ∃ c ∈ language.escapeMark.toList, Identifier.isIdentifierChar c = false := by
  simp only [known, List.mem_cons, List.not_mem_nil, or_false] at h
  rcases h with rfl | rfl
  · exact ⟨'@', by decide, by decide⟩
  · exact ⟨'#', by decide, by decide⟩

theorem fallbackMark_known {language : Language} (h : language ∈ known) :
    language.fallbackMark = "_" := by
  simp only [known, List.mem_cons, List.not_mem_nil, or_false] at h
  rcases h with rfl | rfl <;> rfl

theorem unescaped_identifier {language : Language} (h : language ∈ known) {text : String}
    (htext : ∀ c ∈ text.toList, Identifier.isIdentifierChar c = true) :
    language.unescaped text = Identifier.bare text.toList := by
  obtain ⟨c, hc, hforeign⟩ := escapeMark_known h
  apply if_neg
  intro hmark
  rw [htext c (hmark.subset hc)] at hforeign
  cases hforeign

/-- Escaping keeps identifiers apart that differ in more than case and underscores. -/
theorem unescaped_escape {language : Language} (h : language ∈ known) {text : String}
    (htext : ∀ c ∈ text.toList, Identifier.isIdentifierChar c = true) :
    language.unescaped (language.escape text) = Identifier.bare text.toList := by
  rw [escape]
  split
  · exact unescaped_identifier h htext
  · split
    · have hmarked : (language.fallbackMark ++ text).toList = '_' :: text.toList := by
        rw [fallbackMark_known h, String.toList_append]
        rfl
      rw [unescaped_identifier h, hmarked]
      · rfl
      · intro c hc
        rw [hmarked] at hc
        rcases List.mem_cons.mp hc with rfl | hc
        · decide
        · exact htext c hc
    · rw [unescaped, String.toList_append, if_pos (List.prefix_append _ _), List.drop_left]

end Language

/-! ### Names with their locations -/

namespace Naming

open ApiClients.Identifier

theorem ascii_clean {name : String} (h : Ascii name.toList) : Ascii (clean name).toList := by
  rw [clean, String.toList_ofList, cleanChars]
  intro c hc
  obtain ⟨d, hd, rfl⟩ := List.mem_map.mp (List.mem_of_mem_filter hc)
  split
  · decide
  · exact h d hd

theorem letters_word_ne_nil (location : Location) : letters location.word.toList ≠ [] := by
  cases location <;> decide

theorem letters_word_injective {location other : Location}
    (h : letters location.word.toList = letters other.word.toList) : location = other := by
  cases location <;> cases other <;> first | rfl | exact absurd h (by decide)

theorem ascii_word (location : Location) : Ascii location.word.toList := by
  apply ascii_of_all
  cases location <;> decide

/-- A shared name with its location, before it is cased. -/
def located (name : String) (location : Location) : String :=
  clean name ++ "_" ++ pascal location.word

theorem ascii_located {name : String} (h : Ascii name.toList) (location : Location) :
    Ascii (located name location).toList := by
  have hpascal : Ascii (pascal location.word).toList := by
    rw [pascal, String.toList_ofList]
    exact ascii_pascalChars (ascii_word location)
  rw [located, String.toList_append, String.toList_append]
  intro c hc
  rcases List.mem_append.mp hc with hc | hc
  · rcases List.mem_append.mp hc with hc | hc
    · exact ascii_clean h c hc
    · rw [List.mem_singleton.mp hc]
      decide
  · exact hpascal c hc

theorem letters_located (name : String) (location : Location) :
    letters (located name location).toList
      = letters (clean name).toList ++ letters location.word.toList := by
  have hpascal : letters (pascal location.word).toList = letters location.word.toList := by
    rw [pascal, String.toList_ofList]
    exact letters_casing .pascal (ascii_word location)
  rw [located, String.toList_append, String.toList_append, letters_append, letters_append, hpascal]
  simp [letters, isWordChar, isLowerAscii, isUpperAscii, isDigitAscii]

theorem bare_located (language : Language) {name : String} (h : Ascii name.toList)
    (location : Location) :
    bare (Identifier.normalize (language.variableName (located name location))).toList
      = letters (clean name).toList ++ letters location.word.toList := by
  rw [Identifier.normalize, String.toList_ofList, bare_normalizeChars, Language.variableName,
    Casing.toList_apply, letters_casing _ (ascii_located h location), letters_located]

/-- The word for the location is left of every name, so no other name has to be put in its place. -/
theorem baseIdentifier_located (language : Language) {name : String} (h : Ascii name.toList)
    (location : Location) :
    baseIdentifier language name location true
      = Identifier.normalize (language.variableName (located name location)) := by
  apply if_neg
  intro hempty
  have hname : Identifier.normalize (language.variableName (located name location)) = "" :=
    String.isEmpty_iff.mp hempty
  have hbare := bare_located language h location
  rw [hname] at hbare
  exact letters_word_ne_nil location (List.append_eq_nil_iff.mp hbare.symm).2

theorem isShared_of_ne {parameters : List Parameter} {p q : Parameter} {name : String}
    (hp : p ∈ parameters) (hq : q ∈ parameters) (hpname : p.name = .str name)
    (hqname : q.name = .str name) (hne : p ≠ q) : isShared (.str name) parameters = true := by
  have hsharing : [p, q] ⊆ parameters.filter fun other => Json.equal other.name (.str name) := by
    intro r hr
    simp only [List.mem_cons, List.not_mem_nil, or_false] at hr
    rcases hr with rfl | rfl
    · simp [hp, hpname, Json.equal]
    · simp [hq, hqname, Json.equal]
  have htwo : [p, q].Nodup := by simpa using hne
  have hlength := (htwo.subperm hsharing).length_le
  rw [isShared, decide_eq_true_eq]
  exact hlength

/-- Parameters of one ASCII name in different places get different variable names in every known
language, whatever the name is. -/
theorem locations_told_apart {language : Language} (hlanguage : language ∈ Language.known)
    {parameters : List Parameter} {p q : Parameter} {name : String} (hp : p ∈ parameters)
    (hq : q ∈ parameters) (hpname : p.name = .str name) (hqname : q.name = .str name)
    (hascii : Ascii name.toList) (hlocation : p.location ≠ q.location) :
    ∃ first second, variableName language parameters p = .ok first
      ∧ variableName language parameters q = .ok second ∧ first ≠ second := by
  have hshared := isShared_of_ne hp hq hpname hqname fun h => hlocation (by rw [h])
  have hnamed : ∀ r : Parameter, r.name = .str name → variableName language parameters r
      = .ok (language.escape (Identifier.normalize (language.variableName (located name r.location)))) := by
    intro r hr
    rw [variableName_of_text hr, escapedName, hr, hshared, Json.plain,
      baseIdentifier_located language hascii]
  have hunescaped : ∀ location, language.unescaped
      (language.escape (Identifier.normalize (language.variableName (located name location))))
      = letters (clean name).toList ++ letters location.word.toList := by
    intro location
    rw [Language.unescaped_escape hlanguage, bare_located language hascii]
    rw [Identifier.normalize, String.toList_ofList]
    exact isIdentifierChar_normalizeChars _
  refine ⟨_, _, hnamed p hpname, hnamed q hqname, ?_⟩
  intro hsame
  have hletters := congrArg language.unescaped hsame
  rw [hunescaped, hunescaped] at hletters
  exact hlocation (letters_word_injective (List.append_cancel_left hletters))

/-- An array of things in the path and in the query, and a name that leaves nothing to show. -/
def twinParameters : List Parameter :=
  [{ name := .str "1st-Item[]", location := .path }, { name := .str "1st-Item[]" },
    { name := .str "$[]", location := .formData }, { name := .str "$[]", location := .header }]

theorem locations_told_apart_items :
    (∃ first second, variableName Language.csharp twinParameters twinParameters[0] = .ok first
      ∧ variableName Language.csharp twinParameters twinParameters[1] = .ok second
      ∧ first ≠ second)
    ∧ (∃ first second, variableName Language.rust twinParameters twinParameters[2] = .ok first
      ∧ variableName Language.rust twinParameters twinParameters[3] = .ok second
      ∧ first ≠ second)
    ∧ twinParameters.map (variableName Language.csharp twinParameters)
      = [.ok "_1stItemPath", .ok "_1stItemQuery", .ok "_formData", .ok "_header"] := by
  constructor
  · exact locations_told_apart (by decide) (by decide) (by decide) rfl rfl
      (ascii_of_all (by decide)) (by decide)
  constructor
  · exact locations_told_apart (by decide) (by decide) (by decide) rfl rfl
      (ascii_of_all (by decide)) (by decide)
  · decide +kernel

end Naming

end ApiClients
