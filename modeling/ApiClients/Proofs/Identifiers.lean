import ApiClients.Proofs.ClientMethods
import ApiClients.Proofs.EmittedNames

/-!
# Which generated names are identifiers

Every name of a report that is not empty is made of ASCII letters, digits and underscores, so what
is left to ask is whether it starts with a digit.  Making a text an identifier puts an underscore in
front of a digit, and the Pascal form, which comes next, takes all underscores out again.  What is
left of a text are its ASCII letters and digits (`lowered_pascalNormalized`): a name that is taken
from a text is an identifier exactly if the first of these is not a digit (`startsWithDigit`), and
a name that is taken from a path starts with the verb.  So for each name of a report it is known when
it is an identifier (`identifiers_of_report`).
-/

namespace ApiClients

open ApiClients.Text

namespace Identifier

/-- Whether a text is an identifier: an ASCII letter or an underscore, followed by ASCII letters,
digits and underscores. -/
def isIdentifier (text : String) : Bool :=
  match text.toList with
  | [] => false
  | c :: rest => isIdentifierChar c && !isDigitAscii c && rest.all isIdentifierChar

/-- Whether the first ASCII letter or digit of a text is a digit. -/
def startsWithDigit (text : String) : Bool := (text.toList.find? isWordChar).any isDigitAscii

/-! ### The first character of a name, case apart -/

/-- The first character of a text, in lower case. -/
def initial (text : String) : Option Char := text.toList.head?.map lowerAscii

theorem isDigitAscii_lowerAscii {c : Char} (h : c.toNat < 128) :
    isDigitAscii (lowerAscii c) = isDigitAscii c :=
  forall_ascii (P := fun c => isDigitAscii (lowerAscii c) = isDigitAscii c) (by decide) c h

theorem isIdentifier_iff {text : String} (h : ∀ c ∈ text.toList, isIdentifierChar c = true) :
    isIdentifier text = true ↔ ∃ c, initial text = some c ∧ isDigitAscii c = false := by
  unfold isIdentifier initial
  cases htext : text.toList with
  | nil => simp
  | cons c rest =>
    rw [htext] at h
    have hfirst := h c List.mem_cons_self
    have hrest : rest.all isIdentifierChar = true :=
      List.all_eq_true.mpr fun d hd => h d (List.mem_cons_of_mem c hd)
    have hdigit := isDigitAscii_lowerAscii (ascii_of_isIdentifierChar h c List.mem_cons_self)
    simp [hfirst, hrest, hdigit]

theorem initial_eq_none {text : String} : initial text = none ↔ text = "" := by
  unfold initial
  rw [Option.map_eq_none_iff, List.head?_eq_none_iff]
  exact ⟨fun h => String.toList_inj.mp h, fun h => by rw [h]; rfl⟩

theorem filter_normalizeChars (cs : List Char) :
    (normalizeChars cs).filter (· != '_') = cs.filter isWordChar := by
  have hmapped : (cs.map fun c => if isIdentifierChar c then c else '_').filter (· != '_') =
      cs.filter isWordChar := by
    induction cs with
    | nil => rfl
    | cons c cs ih =>
      rw [List.map_cons, List.filter_cons, List.filter_cons, ih]
      by_cases hword : isWordChar c = true
      · have hidentifier : isIdentifierChar c = true := isIdentifierChar_iff.mpr (.inl hword)
        simp [hword, hidentifier, (isWordChar_ne_separator hword).1]
      · have hunderscore : (if isIdentifierChar c = true then c else '_') = '_' := by
          split
          · rename_i hidentifier
            exact (isIdentifierChar_iff.mp hidentifier).resolve_left hword
          · rfl
        rw [hunderscore]
        simp [hword]
  rw [← hmapped, normalizeChars]
  split
  · rename_i hnil
    rw [hnil]
  · rename_i c rest hcons
    rw [hcons]
    split <;> rfl

/-- The Pascal form of a text, made an identifier first, has the ASCII letters and digits of the
text and nothing else, case apart. -/
theorem lowered_pascalNormalized (text : String) :
    (pascalNormalized text).toList.map lowerAscii =
      (text.toList.filter isWordChar).map lowerAscii := by
  have hnormal := isIdentifierChar_normalizeChars text.toList
  have hseparator : (normalizeChars text.toList).map separatorToUnderscore =
      normalizeChars text.toList := by
    rw [List.map_congr_left fun c hc => separator_of_isIdentifierChar (hnormal c hc), List.map_id']
  have hbare := bare_pascalChars (ascii_of_isIdentifierChar hnormal)
  rw [hseparator, bare, bare, filter_normalizeChars, filter_of_word (word_pascalChars hnormal)]
    at hbare
  rw [pascalNormalized, pascal, normalize, String.toList_ofList, String.toList_ofList]
  exact hbare

theorem initial_pascalNormalized (text : String) :
    initial (pascalNormalized text) = (text.toList.find? isWordChar).map lowerAscii := by
  rw [initial, ← List.head?_map, lowered_pascalNormalized, List.head?_map, List.head?_filter]

/-- A name that comes from a text is no identifier just if the text starts with a digit. -/
theorem isDigitAscii_initial {text : String} {c : Char}
    (h : initial (pascalNormalized text) = some c) : isDigitAscii c = startsWithDigit text := by
  rw [initial_pascalNormalized, Option.map_eq_some_iff] at h
  obtain ⟨d, hd, rfl⟩ := h
  have hword : isWordChar d = true := by simpa using List.find?_some hd
  rw [isDigitAscii_lowerAscii (isWordChar_lt hword), startsWithDigit, hd, Option.any_some]

theorem startsWithDigit_of_empty {text : String} (h : pascalNormalized text = "") :
    startsWithDigit text = false := by
  have hnone := initial_eq_none.mpr h
  rw [initial_pascalNormalized, Option.map_eq_none_iff] at hnone
  rw [startsWithDigit, hnone, Option.any_none]

theorem isIdentifierChar_of_word {text : String} (h : Word text.toList) :
    ∀ c ∈ text.toList, isIdentifierChar c = true :=
  fun c hc => isIdentifierChar_iff.mpr (.inl (h c hc))

/-- The Pascal form of a text, made an identifier first, is empty or an identifier just if the text
does not start with a digit. -/
theorem pascalNormalized_identifier (text : String) :
    (pascalNormalized text = "" ∨ isIdentifier (pascalNormalized text) = true) ↔
      startsWithDigit text = false := by
  have hchars := isIdentifierChar_of_word (word_pascalNormalized text)
  by_cases hempty : pascalNormalized text = ""
  · simp [hempty, startsWithDigit_of_empty hempty]
  · simp only [hempty, false_or]
    rw [isIdentifier_iff hchars]
    obtain ⟨c, hc⟩ := Option.ne_none_iff_exists'.mp (mt initial_eq_none.mp hempty)
    have hdigit := isDigitAscii_initial hc
    simp [hc, hdigit]

/-! ### Names in another casing, and with a number behind them -/

theorem initial_numbered {base : String} (h : base ≠ "") (n : Nat) :
    initial (numbered base n) = initial base := by
  cases n with
  | zero => rfl
  | succ n =>
    have hlist : base.toList ≠ [] := fun hnil => h (String.toList_inj.mp hnil)
    rw [initial, numbered, String.toList_append, List.head?_append_of_ne_nil _ hlist, initial]

/-- The snake form of a word starts with the first character of the word. -/
theorem head_snakeChars {c : Char} {cs : List Char} (h : Word (c :: cs)) :
    ∃ rest, snakeChars (c :: cs) = lowerAscii c :: rest := by
  have hseparator := (isWordChar_ne_separator (h c List.mem_cons_self)).2
  have hhead : (snakeChars (c :: cs)).head? = some (lowerAscii c) := by
    rw [snakeChars, lowerChars_of_ascii (ascii_passes h.ascii), List.head?_map]
    simp [hseparator]
  exact List.head?_eq_some_iff.mp hhead

theorem head_wordChars {c : Char} {cs : List Char} (h : Word (c :: cs)) :
    ∃ first others, wordChars (c :: cs) = (lowerAscii c :: first) :: others := by
  obtain ⟨rest, hrest⟩ := head_snakeChars h
  have hlower := (isWordChar_ne_separator (isWordChar_lowerAscii (h c List.mem_cons_self))).1
  rw [wordChars, hrest, List.splitOn_cons_eq_if_modifyHead, if_neg (by simpa using hlower)]
  cases hpieces : rest.splitOn '_' with
  | nil => exact absurd hpieces (List.splitOn_ne_nil '_' rest)
  | cons piece others => exact ⟨_, _, rfl⟩

theorem head_applyChars (casing : Casing) {c : Char} {cs : List Char} (h : Word (c :: cs)) :
    ∃ d rest, casing.applyChars (c :: cs) = d :: rest ∧ lowerAscii d = lowerAscii c := by
  have hc := h.ascii c List.mem_cons_self
  obtain ⟨first, others, hwords⟩ := head_wordChars h
  cases casing with
  | snake =>
    obtain ⟨rest, hrest⟩ := head_snakeChars h
    exact ⟨_, rest, hrest, lowerAscii_lowerAscii c hc⟩
  | pascal =>
    have hascii : Ascii (lowerAscii c :: first) :=
      ascii_wordChars h.ascii _ (hwords ▸ List.mem_cons_self)
    refine ⟨upperAscii (lowerAscii c), first.map lowerAscii ++ others.flatMap capitalizeChars, ?_, ?_⟩
    · rw [Casing.applyChars, pascalChars, hwords, List.flatMap_cons,
        capitalizeChars_of_ascii hascii, List.cons_append]
    · rw [lowerAscii_upperAscii _ (lowerAscii_lt c hc), lowerAscii_lowerAscii c hc]
  | camel =>
    obtain ⟨rest, hrest⟩ := head_snakeChars h
    have hlower := (isWordChar_ne_separator (isWordChar_lowerAscii (h c List.mem_cons_self))).1
    refine ⟨lowerAscii c, first ++ (others.filter (! ·.isEmpty)).flatMap capitalizeChars, ?_,
      lowerAscii_lowerAscii c hc⟩
    rw [Casing.applyChars, camelChars, hwords, hrest]
    simp [hlower]

theorem initial_casing (casing : Casing) {name : String} (h : Word name.toList) :
    initial (casing.apply name) = initial name := by
  rw [initial, casing.toList_apply, initial]
  cases hname : name.toList with
  | nil => cases casing <;> rfl
  | cons c cs =>
    rw [hname] at h
    obtain ⟨d, rest, hcased, hlower⟩ := head_applyChars casing h
    simp [hcased, hlower]

theorem isIdentifierChar_applyChars (casing : Casing) {cs : List Char}
    (h : ∀ c ∈ cs, isIdentifierChar c = true) :
    ∀ c ∈ casing.applyChars cs, isIdentifierChar c = true := by
  have hsnake := isIdentifierChar_snakeChars h
  cases casing with
  | snake => exact hsnake
  | pascal => exact fun c hc => isIdentifierChar_iff.mpr (.inl (word_pascalChars h c hc))
  | camel =>
    have hwords : ∀ word ∈ wordChars cs, Word word := by
      intro word hword c hc
      obtain ⟨hin, hunderscore⟩ := mem_of_mem_splitOn hword hc
      exact (isIdentifierChar_iff.mp (hsnake c hin)).resolve_right hunderscore
    intro c hc
    rw [Casing.applyChars, camelChars] at hc
    split at hc
    · exact hsnake c (List.takeWhile_subset _ hc)
    · rename_i first others hfilter
      have hmem : ∀ word ∈ first :: others, Word word :=
        fun word hword => hwords word (List.mem_filter.mp (hfilter ▸ hword)).1
      rcases List.mem_append.mp hc with hc | hc
      · rcases List.mem_append.mp hc with hc | hc
        · exact hsnake c (List.takeWhile_subset _ hc)
        · exact isIdentifierChar_iff.mpr (.inl (hmem first List.mem_cons_self c hc))
      · obtain ⟨word, hword, hc⟩ := List.mem_flatMap.mp hc
        have hcapital := word_capitalizeChars (hmem word (List.mem_cons_of_mem _ hword))
        exact isIdentifierChar_iff.mpr (.inl (hcapital c hc))

/-- A name of letters and digits, numbered and in any casing, is an identifier just if its first
character is no digit. -/
theorem numbered_casing_identifier (casing : Casing) {base : String} (hword : Word base.toList)
    (n : Nat) {c : Char} (hc : initial base = some c) :
    isIdentifier (casing.apply (numbered base n)) = true ↔ isDigitAscii c = false := by
  have hbase : base ≠ "" := fun hempty => by
    rw [initial_eq_none.mpr hempty] at hc
    cases hc
  have hnumbered := word_numbered hword n
  have hchars : ∀ d ∈ (casing.apply (numbered base n)).toList, isIdentifierChar d = true := by
    rw [casing.toList_apply]
    exact isIdentifierChar_applyChars casing (isIdentifierChar_of_word hnumbered)
  rw [isIdentifier_iff hchars, initial_casing casing hnumbered, initial_numbered hbase, hc]
  simp

theorem numbered_identifier {base : String} (hword : Word base.toList) (n : Nat) {c : Char}
    (hc : initial base = some c) :
    isIdentifier (numbered base n) = true ↔ isDigitAscii c = false := by
  have hbase : base ≠ "" := fun hempty => by
    rw [initial_eq_none.mpr hempty] at hc
    cases hc
  rw [isIdentifier_iff (isIdentifierChar_of_word (word_numbered hword n)), initial_numbered hbase,
    hc]
  simp

end Identifier

namespace Naming

open ApiClients.Identifier

/-! ### The texts that names are taken from -/

namespace Policy

/-- The text that the method name of an operation is taken from, if it is not taken from the
path. -/
def methodSource (policy : Policy) (operation : Operation) : Option String :=
  match policy with
  | .firstTag => operation.operationId
  | .operationId =>
    match idParts? (operation.operationId.getD "") with
    | none => operation.operationId
    | some (_, after) => if after.isEmpty then operation.operationId else some after
  | .singleClient => operation.operationId
  | .pathSegments => none

/-- The text that the client of an operation is called after, if it has a name. -/
def clientSource (policy : Policy) (operation : Operation) : Option String :=
  match policy with
  | .firstTag => operation.tags.head?
  | .operationId => (idParts? (operation.operationId.getD "")).map (·.1)
  | .singleClient => none
  | .pathSegments => ((segments operation.path).dropWhile isParameter).head?

end Policy

variable {operation : Operation}

theorem clientName_eq (policy : Policy) (operation : Operation) :
    policy.clientName operation = ((policy.clientSource operation).map pascalNormalized).getD "" := by
  cases policy with
  | firstTag =>
    cases htags : operation.tags <;> simp [Policy.clientName, Policy.clientSource, htags]
  | operationId =>
    cases hparts : idParts? (operation.operationId.getD "") <;>
      simp [Policy.clientName, Policy.clientSource, hparts]
  | singleClient => rfl
  | pathSegments =>
    cases hsegments : (segments operation.path).dropWhile isParameter <;>
      simp [Policy.clientName, Policy.clientSource, hsegments]

/-- A client has no name, or one that is an identifier, just if the text that it is called after
does not start with a digit. -/
theorem clientName_identifier (policy : Policy) (operation : Operation) :
    (policy.clientName operation = "" ∨ isIdentifier (policy.clientName operation) = true) ↔
      (policy.clientSource operation).any startsWithDigit = false := by
  rw [clientName_eq]
  cases policy.clientSource operation with
  | none => simp
  | some text => simpa using pascalNormalized_identifier text

/-- What a policy asks for comes from the source text or from the path. -/
theorem wantedName_cases (policy : Policy) (operation : Operation) :
    (∃ text, policy.methodSource operation = some text
        ∧ policy.wantedName operation = pascalNormalized text)
      ∨ (policy.methodSource operation).any startsWithDigit = false
        ∧ ∃ segments, policy.wantedName operation = verbName operation.method segments := by
  have hid : (∃ text, operation.operationId = some text
        ∧ idMethodName operation = pascalNormalized text)
      ∨ operation.operationId.any startsWithDigit = false
        ∧ ∃ segments, idMethodName operation = verbName operation.method segments := by
    unfold idMethodName
    cases hgiven : operation.operationId with
    | none => exact .inr ⟨rfl, _, rfl⟩
    | some id =>
      by_cases hempty : id.isEmpty = true
      · right
        rw [String.isEmpty_iff] at hempty
        subst hempty
        exact ⟨rfl, _, rfl⟩
      · left
        exact ⟨id, rfl, by simp [hempty]⟩
  cases policy with
  | firstTag => exact hid
  | singleClient => exact hid
  | pathSegments => exact .inr ⟨rfl, _, rfl⟩
  | operationId =>
    unfold Policy.methodSource Policy.wantedName
    cases hparts : idParts? (operation.operationId.getD "") with
    | none => exact hid
    | some parts =>
      by_cases hafter : parts.2.isEmpty = true
      · simpa [hafter] using hid
      · left
        exact ⟨parts.2, by simp [hafter], by simp [hafter]⟩

theorem isDigitAscii_of_letter {c : Char} (h : (isUpperAscii c || isLowerAscii c) = true) :
    isDigitAscii (lowerAscii c) = false := by
  have hword : isWordChar c = true := by
    simp only [isWordChar, Bool.or_eq_true] at h ⊢
    tauto
  exact forall_ascii
    (P := fun c => (isUpperAscii c || isLowerAscii c) = true → isDigitAscii (lowerAscii c) = false)
    (by decide) c (isWordChar_lt hword) h

/-- A name from a path starts with a letter of the verb. -/
theorem initial_verbName (h : LetterMethod operation) (hmethod : operation.method ≠ "")
    (segments : List String) :
    ∃ c, initial (verbName operation.method segments) = some c ∧ isDigitAscii c = false := by
  have hword := h.word
  have hlower : (lower operation.method).toList = operation.method.toList.map lowerAscii := by
    rw [lower, String.toList_ofList, lowerChars_of_ascii hword.ascii]
  obtain ⟨c, rest, hchars⟩ : ∃ c rest, operation.method.toList = c :: rest :=
    List.exists_cons_of_ne_nil fun hnil => hmethod (String.toList_inj.mp hnil)
  rw [hchars] at hlower
  have hverb : initial (pascal (lower operation.method)) = some (lowerAscii c) := by
    have hlowerWord : Word (lower operation.method).toList := by
      rw [hlower]
      intro d hd
      obtain ⟨e, he, rfl⟩ := List.mem_map.mp hd
      exact isWordChar_lowerAscii (hword e (hchars ▸ he))
    have hcasing := initial_casing .pascal hlowerWord
    rw [Casing.apply] at hcasing
    rw [hcasing, initial, hlower, List.map_cons, List.head?_cons, Option.map_some,
      lowerAscii_lowerAscii c (hword.ascii c (hchars ▸ List.mem_cons_self))]
  refine ⟨lowerAscii c, ?_, isDigitAscii_of_letter (h c (hchars ▸ List.mem_cons_self))⟩
  have hnonempty : (pascal (lower operation.method)).toList ≠ [] := fun hnil => by
    rw [initial, hnil] at hverb
    cases hverb
  rw [initial, verbName, String.toList_append, String.toList_append, List.append_assoc,
    List.head?_append_of_ne_nil _ hnonempty]
  exact hverb

/-- The method name of an operation starts with a digit just if the text that it is taken from
does. -/
theorem initial_baseName (policy : Policy) (h : LetterMethod operation)
    (hmethod : operation.method ≠ "") :
    ∃ c, initial (policy.baseName operation) = some c
      ∧ isDigitAscii c = (policy.methodSource operation).any startsWithDigit := by
  rcases wantedName_cases policy operation with ⟨text, hsource, hwanted⟩ | ⟨hsource, segments, hwanted⟩
  · by_cases hempty : pascalNormalized text = ""
    · obtain ⟨c, hc, hdigit⟩ := initial_verbName h hmethod (segments operation.path)
      refine ⟨c, ?_, ?_⟩
      · rw [Policy.baseName, hwanted, hempty]
        exact hc
      · rw [hdigit, hsource, Option.any_some, startsWithDigit_of_empty hempty]
    · obtain ⟨c, hc⟩ := Option.ne_none_iff_exists'.mp (mt initial_eq_none.mp hempty)
      refine ⟨c, ?_, ?_⟩
      · rw [Policy.baseName, hwanted]
        simpa [hempty] using hc
      · rw [hsource, Option.any_some, isDigitAscii_initial hc]
  · obtain ⟨c, hc, hdigit⟩ := initial_verbName h hmethod segments
    have hne : verbName operation.method segments ≠ "" := fun hempty => by
      rw [initial_eq_none.mpr hempty] at hc
      cases hc
    refine ⟨c, ?_, by rw [hdigit, hsource]⟩
    rw [Policy.baseName, hwanted]
    simpa [hne] using hc

theorem letterMethod_get (h : operation.method = "get") :
    operation.method ≠ "" ∧ LetterMethod operation := by
  have hletters : ("get".toList.all fun c => isUpperAscii c || isLowerAscii c) = true := by decide
  rw [LetterMethod, h]
  exact ⟨by decide, List.all_eq_true.mp hletters⟩

/-! ### The names that the pass gives -/

/-- Every entry of a naming pass is made for an operation with its key. -/
theorem mem_assign {policy : Policy} {operations : List Operation} {key : String}
    {name : OperationName} (h : (key, name) ∈ assign policy operations) :
    ∃ operation ∈ operations, operation.key = key ∧ name.client = policy.clientName operation
      ∧ ∃ n, name.method = numbered (policy.baseName operation) n := by
  unfold assign at h
  induction operations using List.reverseRecOn with
  | nil => cases h
  | append_singleton operations last ih =>
    rw [List.foldl_append] at h
    rcases Entries.mem_put h with hnew | hold
    · cases hnew
      obtain ⟨n, hn⟩ := freeName_numbered _ _ _
      exact ⟨last, by simp, rfl, rfl, n, hn⟩
    · obtain ⟨operation, hoperation, hname⟩ := ih hold
      exact ⟨operation, List.mem_append_left _ hoperation, hname⟩

end Naming

namespace Generation

open ApiClients.Identifier

/-! ### The names in a report -/

theorem initial_spelling {language : Language} (h : language ∈ Language.known) (identity : String) :
    ∃ c, initial (Registry.spelling language identity) = some c
      ∧ isDigitAscii c = startsWithDigit identity := by
  rw [Registry.spelling_known h]
  split
  · rename_i hempty
    exact ⟨'a', by decide +kernel, by rw [startsWithDigit_of_empty hempty]; rfl⟩
  · rename_i hempty
    obtain ⟨c, hc⟩ := Option.ne_none_iff_exists'.mp (mt initial_eq_none.mp hempty)
    exact ⟨c, hc, isDigitAscii_initial hc⟩

/-- When the names in a report are identifiers.  A method name is one just if the text that it is
taken from, if there is one, does not start with a digit; the name of a client is one, or empty,
just if that holds of the text that the client is called after; and an emitted name is one just if
it holds of the name of the definition.  The operations are any that have methods of ASCII letters,
with whatever tags, ids and paths. -/
theorem identifiers_of_report (settings : Settings) (graph : Graph) (schemas : List NodeId)
    (operations : List Operation) (journal : Journal) (report : Report)
    (hmethods : ∀ operation ∈ operations, operation.method ≠ "" ∧ Naming.LetterMethod operation)
    (hreport : (Generation.report settings graph schemas operations journal).1 = .ok report) :
    (∀ model ∈ report.models, ∃ operation ∈ operations, operation.key = model.key
        ∧ (isIdentifier model.methodName = true ↔
            (settings.policy.methodSource operation).any startsWithDigit = false)
        ∧ (model.client = "" ∨ isIdentifier model.client = true ↔
            (settings.policy.clientSource operation).any startsWithDigit = false))
      ∧ ∀ name id, (name, id) ∈ report.namedTypes → ∃ identity,
          Registry.identity (graph.node id) = .ok identity
            ∧ (isIdentifier name = true ↔ startsWithDigit identity = false) := by
  have hrun : runStep (run settings graph schemas operations) { journal := journal } =
      (.ok report, _) := Prod.ext hreport rfl
  constructor
  · intro model hmodel
    obtain ⟨builder, -, hassigned, -, hnames⟩ := models_of_run hrun
    obtain ⟨built, -, name, hname⟩ := hnames model hmodel
    have hfound := Entries.mem_of_get? hname.found
    rw [hassigned] at hfound
    obtain ⟨operation, hoperation, hkey, hclient, n, hmethod⟩ := Naming.mem_assign hfound
    obtain ⟨hne, hletters⟩ := hmethods operation hoperation
    refine ⟨operation, hoperation, hkey.trans hname.key.symm, ?_, ?_⟩
    · obtain ⟨c, hc, hdigit⟩ := Naming.initial_baseName settings.policy hletters hne
      rw [hname.methodName, hmethod, Language.methodName,
        numbered_casing_identifier _ (Naming.word_baseName settings.policy hletters) n hc, hdigit]
    · rw [hname.client, hclient]
      exact Naming.clientName_identifier settings.policy operation
  · intro name id hentry
    obtain ⟨language, hlanguage, htypes, hspelled⟩ := spelled_of_run hrun
    rw [htypes] at hentry
    obtain ⟨identity, n, hidentity, rfl⟩ := hspelled name id hentry
    have hknown := Settings.mem_known hlanguage
    refine ⟨identity, hidentity, ?_⟩
    obtain ⟨c, hc, hdigit⟩ := initial_spelling hknown identity
    rw [numbered_identifier (Registry.word_spelling hknown identity) n hc, hdigit]

/-- An operation that is named after texts with digits in front and inside. -/
def numbers : List Operation :=
  [{ method := "get", path := "/pets", operationId := some "-v1-pets", tags := ["ééh2o"] }]

theorem identifiers_of_report_numbers :
    ∃ report, (Generation.report { language := "rust" } {} [] numbers []).1 = .ok report
      ∧ (∀ operation ∈ numbers, operation.method ≠ "" ∧ Naming.LetterMethod operation)
      ∧ report.models.map (fun model => (model.client, model.methodName)) = [("H2o", "v1_pets")]
      ∧ ∀ model ∈ report.models, isIdentifier model.methodName = true := by
  have hnames : (Generation.report { language := "rust" } {} [] numbers []).1.toOption.map
      (·.models.map fun model => (model.client, model.methodName)) =
        some [("H2o", "v1_pets")] := by
    have hnone : ({} : Graph).typeDefinitions (Generation.roots [] numbers) = [] :=
      Graph.typeDefinitions_nil {}
    unfold Generation.report Generation.run Generation.prepare
    rw [hnone]
    decide +kernel
  have hmethods : ∀ operation ∈ numbers, operation.method ≠ "" ∧ Naming.LetterMethod operation := by
    intro operation hoperation
    exact Naming.letterMethod_get (by rw [List.mem_singleton.mp hoperation])
  obtain ⟨report, hreport, hpairs⟩ := Except.ok_of_toOption_map hnames
  refine ⟨report, hreport, hmethods, hpairs, fun model hmodel => ?_⟩
  obtain ⟨operation, hoperation, -, hmethod, -⟩ :=
    (identifiers_of_report { language := "rust" } {} [] numbers [] report hmethods hreport).1
      model hmodel
  rw [hmethod, List.mem_singleton.mp hoperation]
  decide +kernel

/-- An operation whose id and tag start with digits. -/
def digits : List Operation :=
  [{ method := "get", path := "/pets", operationId := some "1abc", tags := ["2tag"] }]

/-- The underscore that makes `_1abc` an identifier is lost in the Pascal form. -/
theorem names_with_digits_first :
    ∃ report, (Generation.report {} {} [] digits []).1 = .ok report
      ∧ (∀ operation ∈ digits, operation.method ≠ "" ∧ Naming.LetterMethod operation)
      ∧ report.models.map (fun model => (model.client, model.methodName)) = [("2tag", "1abc")]
      ∧ isIdentifier (normalize "1abc") = true
      ∧ ∀ model ∈ report.models, isIdentifier model.methodName = false
          ∧ model.client ≠ "" ∧ isIdentifier model.client = false := by
  have hnames : (Generation.report {} {} [] digits []).1.toOption.map
      (·.models.map fun model => (model.client, model.methodName)) = some [("2tag", "1abc")] := by
    have hnone : ({} : Graph).typeDefinitions (Generation.roots [] digits) = [] :=
      Graph.typeDefinitions_nil {}
    unfold Generation.report Generation.run Generation.prepare
    rw [hnone]
    decide +kernel
  have hmethods : ∀ operation ∈ digits, operation.method ≠ "" ∧ Naming.LetterMethod operation := by
    intro operation hoperation
    exact Naming.letterMethod_get (by rw [List.mem_singleton.mp hoperation])
  obtain ⟨report, hreport, hpairs⟩ := Except.ok_of_toOption_map hnames
  refine ⟨report, hreport, hmethods, hpairs, by decide +kernel, fun model hmodel => ?_⟩
  have hpair : (model.client, model.methodName) ∈ [("2tag", "1abc")] :=
    hpairs ▸ List.mem_map_of_mem hmodel
  obtain ⟨hclient, hmethod⟩ := Prod.mk.inj (List.mem_singleton.mp hpair)
  rw [hclient, hmethod]
  decide +kernel

end Generation

end ApiClients
