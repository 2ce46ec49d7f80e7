import ApiClients.Proofs.LocationSuffixes

/-!
# Variable names are identifiers

Whatever text names a parameter, its variable name before escaping is an identifier: the last step
puts an underscore for every character that cannot stand in one and another in front of a digit
(`isIdentifier_normalize`), and where nothing is left of the name the word for a parameter takes its
place (`isIdentifier_baseIdentifier`).  Escaping leaves no reserved word: a mark has a character that
no reserved word has, and the words that cannot be marked become names that are not reserved
(`escape_unreserved`).
-/

namespace ApiClients

open ApiClients.Text

namespace Identifier

/-! ### Legal names -/

/-- A text is a letter of ASCII or an underscore, followed by letters and digits of ASCII and
underscores. -/
def Legal (text : String) : Prop :=
  ∃ c rest, text.toList = c :: rest ∧ (c.isAlpha = true ∨ c = '_')
    ∧ ∀ d ∈ rest, d.isAlphanum = true ∨ d = '_'

theorem isIdentifierChar_alphanum {c : Char} :
    isIdentifierChar c = true ↔ c.isAlphanum = true ∨ c = '_' := by
  have hupper : isUpperAscii c = c.isUpper := (Bool.decide_and ('A' ≤ c) (c ≤ 'Z')).symm
  have hsame : isIdentifierChar c = (c.isAlphanum || c == '_') := by
    change (c.isLower || isUpperAscii c || c.isDigit || c == '_') =
      (c.isUpper || c.isLower || c.isDigit || c == '_')
    rw [hupper, Bool.or_comm c.isLower]
  rw [hsame, Bool.or_eq_true_iff, beq_iff_eq]

theorem alpha_of_not_digit {c : Char} (h : isIdentifierChar c = true)
    (hdigit : isDigitAscii c = false) : c.isAlpha = true ∨ c = '_' := by
  rcases isIdentifierChar_alphanum.mp h with halphanum | hunderscore
  · rw [Char.isAlphanum, Bool.or_eq_true_iff] at halphanum
    refine .inl (halphanum.resolve_right fun hc => ?_)
    have hsame : isDigitAscii c = c.isDigit := rfl
    rw [hsame, hc] at hdigit
    cases hdigit
  · exact .inr hunderscore

theorem legal_of_isIdentifier {text : String} (h : isIdentifier text = true) : Legal text := by
  unfold isIdentifier at h
  split at h
  · cases h
  · rename_i c rest htext
    simp only [Bool.and_eq_true, Bool.not_eq_true', List.all_eq_true] at h
    obtain ⟨⟨hc, hdigit⟩, hrest⟩ := h
    exact ⟨c, rest, htext, alpha_of_not_digit hc hdigit,
      fun d hd => isIdentifierChar_alphanum.mp (hrest d hd)⟩

/-- Made an identifier, a text is one unless nothing is left of it. -/
theorem isIdentifier_normalize {text : String} (h : normalize text ≠ "") :
    isIdentifier (normalize text) = true := by
  have hchars := isIdentifierChar_normalizeChars text.toList
  have hlist : (normalize text).toList = normalizeChars text.toList := String.toList_ofList
  unfold isIdentifier
  rw [hlist]
  cases hnormal : normalizeChars text.toList with
  | nil =>
    rw [hnormal] at hlist
    exact absurd (String.toList_inj.mp hlist) h
  | cons c rest =>
    rw [hnormal] at hchars
    -- a digit in front has got an underscore
    have hdigit : isDigitAscii c = false := by
      unfold normalizeChars at hnormal
      split at hnormal
      · cases hnormal
      · split at hnormal
        · cases hnormal
          rfl
        · rename_i hno
          cases hnormal
          exact Bool.eq_false_iff.mpr hno
    have hrest : rest.all isIdentifierChar = true :=
      List.all_eq_true.mpr fun d hd => hchars d (List.mem_cons_of_mem c hd)
    simp [hchars c List.mem_cons_self, hdigit, hrest]

end Identifier

namespace Language

/-! ### Escaping -/

theorem reserved_known {language : Language} (h : language ∈ known) {word : String}
    (hword : word ∈ language.reserved) :
    ∀ c ∈ word.toList, Identifier.isIdentifierChar c = true := by
  have hall : ∀ language ∈ known, ∀ word ∈ language.reserved,
      word.toList.all Identifier.isIdentifierChar = true := by decide +kernel
  exact List.all_eq_true.mp (hall language h word hword)

/-- Whatever is escaped, no reserved word comes out. -/
theorem escape_unreserved {language : Language} (h : language ∈ known) (text : String) :
    language.escape text ∉ language.reserved := by
  rw [escape, isReserved]
  split
  · rename_i hfree
    simpa using hfree
  · split
    · rename_i hraw
      have hall : ∀ language ∈ known, ∀ word ∈ language.unescapable,
          language.fallbackMark ++ word ∉ language.reserved := by decide +kernel
      exact hall language h text (List.contains_iff_mem.mp hraw)
    · intro hmarked
      obtain ⟨c, hc, hforeign⟩ := escapeMark_known h
      have hmem : c ∈ (language.escapeMark ++ text).toList := by
        rw [String.toList_append]
        exact List.mem_append_left _ hc
      rw [reserved_known h hmarked c hmem] at hforeign
      cases hforeign

/-- The words of Rust that cannot be raw identifiers. -/
def rawless : List String := ["self", "Self", "super", "crate"]

/-- The languages have the words that cannot be marked in common with Rust alone. -/
theorem unescapable_known {language : Language} (h : language ∈ known) {word : String} :
    word ∈ language.unescapable ↔ language = rust ∧ word ∈ rawless := by
  simp only [known, List.mem_cons, List.not_mem_nil, or_false] at h
  rcases h with rfl | rfl
  · simp [csharp, rust]
  · simp [rust, rawless]

end Language

namespace Naming

open ApiClients.Identifier

/-! ### The variable name of a parameter -/

/-- Before escaping every variable name is an identifier, whatever the name and the location of the
parameter are. -/
theorem isIdentifier_baseIdentifier {language : Language} (h : language ∈ Language.known)
    (name : String) (location : Location) (shared : Bool) :
    isIdentifier (baseIdentifier language name location shared) = true := by
  have hword : ∀ language ∈ Language.known,
      isIdentifier (language.variableName "parameter") = true := by decide +kernel
  have hsource : ∀ identifier, isIdentifier (if (Identifier.normalize identifier).isEmpty
      then language.variableName "parameter" else Identifier.normalize identifier) = true := by
    intro identifier
    split
    · exact hword language h
    · rename_i hsome
      exact isIdentifier_normalize fun hempty => hsome (String.isEmpty_iff.mpr hempty)
  exact hsource _

/-- The variable name of a parameter of any name, among any others: before escaping it is a legal
one, and it is kept unless it is reserved.  A reserved one has the mark of the language in front of
it, which makes it another one that is not reserved; where Rust has no raw identifier for it there
is an underscore instead. -/
theorem variable_names_legal {language : Language} (h : language ∈ Language.known)
    (all : List Parameter) {parameter : Parameter} {name : String}
    (hname : parameter.name = .str name) :
    ∃ base identifier, baseVariableName language all parameter = .ok base ∧ Legal base
      ∧ variableName language all parameter = .ok identifier ∧ identifier ∉ language.reserved
      ∧ (base ∉ language.reserved → identifier = base)
      ∧ (base ∈ language.reserved → ¬ (language = Language.rust ∧ base ∈ Language.rawless) →
          identifier = language.escapeMark ++ base)
      ∧ (language = Language.rust → base ∈ Language.rawless →
          identifier = "_" ++ base ∧ ¬ "r#".toList <+: identifier.toList) := by
  have hbase : ∃ base, baseVariableName language all parameter = .ok base
      ∧ isIdentifier base = true := by
    rw [baseVariableName, hname]
    exact ⟨_, rfl, isIdentifier_baseIdentifier h name parameter.location _⟩
  obtain ⟨base, hbase, hidentifier⟩ := hbase
  have hescaped : variableName language all parameter = .ok (language.escape base) := by
    rw [variableName, hbase]
    rfl
  refine ⟨base, language.escape base, hbase, legal_of_isIdentifier hidentifier, hescaped,
    Language.escape_unreserved h base, ?_, ?_, ?_⟩
  · intro hfree
    simp [Language.escape, Language.isReserved, hfree]
  · intro hreserved hmarkable
    rw [← Language.unescapable_known h] at hmarkable
    simp [Language.escape, Language.isReserved, hreserved, hmarkable]
  · rintro rfl hraw
    have hall : ∀ word ∈ Language.rawless, Language.rust.escape word = "_" ++ word
        ∧ ¬ "r#".toList <+: (Language.rust.escape word).toList := by decide +kernel
    exact hall base hraw

/-- Two words, one that Rust cannot mark, a name of which nothing is left, and no name. -/
def wordParameters : List Parameter :=
  [{ name := .str "in" }, { name := .str "type" }, { name := .str "self" }, { name := .str "$[]" },
    { name := .str "" }]

theorem variable_names_legal_words :
    Language.rust ∈ Language.known ∧ wordParameters[2].name = .str "self"
    ∧ (∃ base identifier, baseVariableName Language.rust wordParameters wordParameters[2] = .ok base
      ∧ variableName Language.rust wordParameters wordParameters[2] = .ok identifier
      ∧ Legal base ∧ identifier ∉ Language.rust.reserved)
    ∧ wordParameters.map (variableName Language.rust wordParameters)
      = [.ok "r#in", .ok "r#type", .ok "_self", .ok "parameter", .ok "parameter"]
    ∧ wordParameters.map (variableName Language.csharp wordParameters)
      = [.ok "@in", .ok "type", .ok "self", .ok "parameter", .ok "parameter"] := by
  refine ⟨by decide, rfl, ?_, by decide +kernel, by decide +kernel⟩
  obtain ⟨base, identifier, hbase, hlegal, hidentifier, hfree, -⟩ :=
    @variable_names_legal Language.rust (by decide) wordParameters wordParameters[2] "self" rfl
  exact ⟨base, identifier, hbase, hidentifier, hlegal, hfree⟩

end Naming

end ApiClients
