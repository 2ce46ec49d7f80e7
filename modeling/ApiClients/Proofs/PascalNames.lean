import ApiClients.Proofs.BuiltModels
import ApiClients.Proofs.Identifiers
import ApiClients.Proofs.SnakeForms

/-!
# Pascal names in Pascal casing

The naming pass gives method names in Pascal form, and a language with Pascal casing puts them into
Pascal form once more.  The words that a name was made of are not known any more then; they are found
again at capitals, and words of one letter are lost when what stands behind them is no small letter:
`AB` of `a_b` is read as one word.

Of a word of letters and digits the Pascal form is said here without going through the snake form:
each capital behind a capital becomes small, unless a small letter comes next
(`pascalChars_of_word`).  The induction is on the word, with the snake form taken a character at a
time (`snakeChars_cons`).  So a name stays as it is just if each two capitals side by side stand in
front of a small letter (`reread_eq_iff`), and after one round every name is of this kind
(`readable_reread`).  All names of the naming pass are made of letters and digits and start with no
small letter, so this is what becomes of them in C# (`methods_recased`).
-/

namespace ApiClients

open ApiClients.Text

namespace Identifier

/-! ### Capitals behind capitals -/

/-- What becomes of characters whose words are found at capitals: each capital behind a capital is
made small, unless a small letter comes next.  `behind` says whether a capital stands in front. -/
def reread : Bool → List Char → List Char
  | _, [] => []
  | behind, c :: rest =>
    (if behind && !startsSmall rest then lowerAscii c else c) :: reread (isUpperAscii c) rest

/-- Each two capitals side by side stand in front of a small letter. -/
def Readable (cs : List Char) : Prop :=
  ∀ before a b after, cs = before ++ a :: b :: after →
    isUpperAscii a = true → isUpperAscii b = true → startsSmall after = true

theorem readable_nil : Readable [] := by
  intro before a b after h
  simp at h

theorem readable_cons {a : Char} {cs : List Char} :
    Readable (a :: cs) ↔
      (isUpperAscii a = true → startsCapital cs = true → startsSmall cs.tail = true)
        ∧ Readable cs := by
  constructor
  · intro h
    refine ⟨fun ha hstart => ?_, fun before b d after hcs => h (a :: before) b d after (by simp [hcs])⟩
    cases cs with
    | nil => cases hstart
    | cons b after => exact h [] a b after rfl ha hstart
  · rintro ⟨hfirst, hrest⟩ before b d after hcs hb hd
    cases before with
    | nil =>
      cases hcs
      exact hfirst hb hd
    | cons e before =>
      cases hcs
      exact hrest before b d after rfl hb hd

/-- Characters stay as they are just if each two capitals side by side stand in front of a small
letter, the capital in front of them included. -/
theorem reread_eq_iff (behind : Bool) (cs : List Char) :
    reread behind cs = cs ↔
      (behind = true → startsCapital cs = true → startsSmall cs.tail = true) ∧ Readable cs := by
  induction cs generalizing behind with
  | nil => simp [reread, readable_nil, startsCapital]
  | cons c cs ih =>
    rw [reread, List.cons.injEq, ih (isUpperAscii c), readable_cons]
    refine and_congr_left fun _ => ?_
    cases behind <;> cases hsmall : startsSmall cs <;>
      simp [startsCapital, hsmall, lowerAscii_eq_self]

theorem startsSmall_reread {cs : List Char} (h : startsSmall cs = true) (behind : Bool) :
    startsSmall (reread behind cs) = true := by
  cases cs with
  | nil => exact h
  | cons c cs =>
    have hsmall : isLowerAscii c = true := h
    have hsame := lowerAscii_eq_self.mpr (isUpperAscii_of_small hsmall)
    rw [reread, hsame, ite_self]
    exact hsmall

/-- What has been read once can be read again. -/
theorem readable_reread (behind : Bool) (cs : List Char) : Readable (reread behind cs) := by
  induction cs generalizing behind with
  | nil => exact readable_nil
  | cons c cs ih =>
    rw [reread, readable_cons]
    refine ⟨fun hc hstart => ?_, ih (isUpperAscii c)⟩
    have hcapital : isUpperAscii c = true := by
      split at hc
      · rw [isUpperAscii_lowerAscii] at hc
        cases hc
      · exact hc
    cases cs with
    | nil => cases hstart
    | cons b after =>
      -- a capital that is left behind a capital has a small letter behind itself
      cases hsmall : startsSmall after with
      | true => exact startsSmall_reread hsmall _
      | false =>
        simp [reread, startsCapital, hcapital, hsmall, isUpperAscii_lowerAscii] at hstart

/-! ### The snake form of a word, a character at a time -/

/-- Whether one word of a snake form ends behind a character, before those that follow it. -/
def endsWord (a : Char) (cs : List Char) : Bool :=
  isUpperAscii a && startsCapitalized cs || (isLowerAscii a || isDigitAscii a) && startsCapital cs

theorem collapseUnderscores_cons_of_not {a : Char} {cs : List Char}
    (h : a ≠ '_' ∨ cs.head? ≠ some '_') :
    collapseUnderscores (a :: cs) = a :: collapseUnderscores cs := by
  rw [collapseUnderscores_cons, if_neg]
  rintro ⟨ha, hhead⟩
  exact h.elim (· ha) (· hhead)

theorem passes_cons {a : Char} {cs : List Char} (h : Word (a :: cs)) :
    collapseUnderscores (splitCapitals (splitAcronyms (a :: cs))) =
      a :: if endsWord a cs then
          '_' :: collapseUnderscores (splitCapitals (splitAcronyms cs))
        else collapseUnderscores (splitCapitals (splitAcronyms cs)) := by
  have ha : a ≠ '_' := (isWordChar_ne_separator (h a List.mem_cons_self)).1
  have hhead : (splitCapitals (splitAcronyms cs)).head? ≠ some '_' := by
    rw [head?_splitCapitals, head?_splitAcronyms]
    intro hhead
    have hmem := List.mem_cons_of_mem a (List.mem_of_head? hhead)
    exact (isWordChar_ne_separator (h '_' hmem)).1 rfl
  rw [splitAcronyms_cons, endsWord]
  cases hacronym : isUpperAscii a && startsCapitalized cs with
  | true =>
    have hcapital : isUpperAscii a = true := by
      rw [Bool.and_eq_true] at hacronym
      exact hacronym.1
    rw [if_pos rfl, Bool.true_or, if_pos rfl, splitCapitals_cons_of_not,
      splitCapitals_cons_of_not rfl, collapseUnderscores_cons_of_not (.inl ha),
      collapseUnderscores_cons_of_not (.inr hhead)]
    rw [smallOrDigit_of_capital hcapital, Bool.false_and]
  | false =>
    have hstart : startsCapital (splitAcronyms cs) = startsCapital cs := by simp [startsCapital]
    rw [if_neg (by decide), Bool.false_or, splitCapitals_cons, hstart,
      collapseUnderscores_cons_of_not (.inl ha)]
    split
    · rw [collapseUnderscores_cons_of_not (.inr hhead)]
    · rfl

theorem snakeChars_of_word {cs : List Char} (h : Word cs) :
    snakeChars cs = (collapseUnderscores (splitCapitals (splitAcronyms cs))).map lowerAscii := by
  have hpasses := ascii_passes h.ascii
  have hseparators : cs.map separatorToUnderscore = cs := by
    rw [List.map_congr_left fun c hc => (isWordChar_ne_separator (h c hc)).2, List.map_id']
  rw [hseparators] at hpasses
  rw [snakeChars, hseparators, lowerChars_of_ascii hpasses]

theorem snakeChars_cons {a : Char} {cs : List Char} (h : Word (a :: cs)) :
    snakeChars (a :: cs) =
      lowerAscii a :: if endsWord a cs then '_' :: snakeChars cs else snakeChars cs := by
  have hrest : Word cs := fun c hc => h c (List.mem_cons_of_mem a hc)
  rw [snakeChars_of_word h, snakeChars_of_word hrest, passes_cons h, List.map_cons]
  split
  · rw [List.map_cons]
    rfl
  · rfl

/-! ### The Pascal form of a word -/

/-- Some words closed up, of which the first has begun before. -/
def closeUp : List (List Char) → List Char
  | [] => []
  | first :: others => first ++ others.flatMap capitalizeChars

theorem splitOn_cons_of_ne {separator c : Char} (h : c ≠ separator) (cs : List Char) :
    ∃ first others, cs.splitOn separator = first :: others
      ∧ (c :: cs).splitOn separator = (c :: first) :: others := by
  cases hpieces : cs.splitOn separator with
  | nil => exact absurd hpieces (List.splitOn_ne_nil separator cs)
  | cons first others =>
    refine ⟨first, others, rfl, ?_⟩
    rw [List.splitOn_cons_eq_if_modifyHead, if_neg (by simpa using h), hpieces, List.modifyHead_cons]

/-- A word of a snake form behind its first character, with the words after it closed up. -/
theorem flatMap_capitalizeChars_splitOn {c : Char} {cs : List Char} (hc : isWordChar c = true)
    (hcs : SnakeFormed cs) (hascii : Ascii cs) :
    ((c :: cs).splitOn '_').flatMap capitalizeChars = upperAscii c :: closeUp (cs.splitOn '_') := by
  obtain ⟨first, others, hpieces, hcons⟩ := splitOn_cons_of_ne (isWordChar_ne_separator hc).1 cs
  have hfirst : ∀ d ∈ first, d ∈ cs := fun d hd =>
    (mem_of_mem_splitOn (hpieces ▸ List.mem_cons_self) hd).1
  have hword : Ascii (c :: first) := by
    intro d hd
    rcases List.mem_cons.mp hd with rfl | hd
    · exact isWordChar_lt hc
    · exact hascii d (hfirst d hd)
  have hlower : first.map lowerAscii = first := by
    rw [List.map_congr_left fun d hd => lowerAscii_eq_self.mpr (hcs.noCapital d (hfirst d hd)),
      List.map_id']
  rw [hcons, hpieces, List.flatMap_cons, capitalizeChars_of_ascii hword, hlower, closeUp,
    List.cons_append]

theorem upperAscii_lowerAscii {c : Char} (hc : isWordChar c = true) (h : isLowerAscii c = false) :
    upperAscii (lowerAscii c) = c :=
  forall_ascii (P := fun c => isWordChar c = true → isLowerAscii c = false →
    upperAscii (lowerAscii c) = c) (by decide) c (isWordChar_lt hc) hc h

/-- What follows the first character of a word in its snake form. -/
def snakeRest (a : Char) (cs : List Char) : List Char :=
  if endsWord a cs then '_' :: snakeChars cs else snakeChars cs

theorem SnakeFormed.tail {c : Char} {cs : List Char} (h : SnakeFormed (c :: cs)) :
    SnakeFormed cs :=
  ⟨fun d hd => h.noCapital d (List.mem_cons_of_mem c hd),
    fun d hd => h.noOther d (List.mem_cons_of_mem c hd), h.single.tail⟩

theorem closeUp_splitOn_cons {c : Char} (h : c ≠ '_') (cs : List Char) :
    closeUp ((c :: cs).splitOn '_') = c :: closeUp (cs.splitOn '_') := by
  obtain ⟨first, others, hpieces, hcons⟩ := splitOn_cons_of_ne h cs
  rw [hpieces, hcons, closeUp, closeUp, List.cons_append]

/-- A capital is kept just if a word ends in front of it. -/
theorem kept_eq {a : Char} (ha : isWordChar a = true) (b : Char) (cs : List Char) :
    (if isUpperAscii a && !startsSmall cs then lowerAscii b else b) =
      if endsWord a (b :: cs) then b else lowerAscii b := by
  cases hb : isUpperAscii b with
  | false => rw [lowerAscii_eq_self.mpr hb, ite_self, ite_self]
  | true =>
    cases hcapital : isUpperAscii a with
    | true =>
      have hother := smallOrDigit_of_capital hcapital
      cases hsmall : startsSmall cs <;>
        simp [endsWord, startsCapitalized, startsCapital, hb, hcapital, hother, hsmall]
    | false =>
      have hother : (isLowerAscii a || isDigitAscii a) = true := by
        simpa [isWordChar, hcapital] using ha
      simp [endsWord, startsCapital, hb, hcapital, hother]

theorem pascalChars_cons {a : Char} {cs : List Char} (h : Word (a :: cs))
    (hsmall : isLowerAscii a = false) :
    pascalChars (a :: cs) = a :: closeUp ((snakeRest a cs).splitOn '_') := by
  have ha : isWordChar a = true := h a List.mem_cons_self
  have hsnake : snakeChars (a :: cs) = lowerAscii a :: snakeRest a cs := snakeChars_cons h
  have hformed := snakeFormed_snakeChars h.ascii
  have hascii := ascii_snakeChars h.ascii
  rw [hsnake] at hformed hascii
  rw [pascalChars, wordChars, hsnake,
    flatMap_capitalizeChars_splitOn (isWordChar_lowerAscii ha) hformed.tail hascii.tail,
    upperAscii_lowerAscii ha hsmall]

/-- What becomes of a word in Pascal form behind its first character. -/
theorem closeUp_snakeRest {a : Char} {cs : List Char} (h : Word (a :: cs)) :
    closeUp ((snakeRest a cs).splitOn '_') = reread (isUpperAscii a) cs := by
  induction cs generalizing a with
  | nil =>
    have hends : endsWord a [] = false := by simp [endsWord, startsCapitalized, startsCapital]
    rw [snakeRest, hends]
    rfl
  | cons b cs ih =>
    have hrest : Word (b :: cs) := fun c hc => h c (List.mem_cons_of_mem a hc)
    have hb : isWordChar b = true := hrest b List.mem_cons_self
    rw [snakeRest, reread, kept_eq (h a List.mem_cons_self)]
    cases hends : endsWord a (b :: cs) with
    | true =>
      -- the next word starts here, with a capital
      have hsmall : isLowerAscii b = false := by
        by_contra hsmall
        rw [Bool.not_eq_false] at hsmall
        simp [endsWord, startsCapitalized, startsCapital, isUpperAscii_of_small hsmall] at hends
      have hpascal := pascalChars_cons hrest hsmall
      rw [ih hrest] at hpascal
      rw [if_pos rfl, if_pos rfl, List.splitOn_cons_eq_if_modifyHead, if_pos (by decide), closeUp,
        List.nil_append]
      exact hpascal
    | false =>
      have hsnake : snakeChars (b :: cs) = lowerAscii b :: snakeRest b cs := snakeChars_cons hrest
      rw [if_neg (by decide), if_neg (by decide), hsnake,
        closeUp_splitOn_cons (isWordChar_ne_separator (isWordChar_lowerAscii hb)).1, ih hrest]

/-- The Pascal form of a word that does not start with a small letter. -/
theorem pascalChars_of_word {cs : List Char} (h : Word cs) (hstart : startsSmall cs = false) :
    pascalChars cs = reread false cs := by
  cases cs with
  | nil => rfl
  | cons a cs => rw [pascalChars_cons h hstart, closeUp_snakeRest h, reread, Bool.false_and,
      if_neg (by decide)]

/-- What Pascal casing makes of a name: the name itself just if each two of its capitals side by side
stand in front of a small letter, and in any case a name that stays as it is from then on. -/
structure Recased (name cased : String) : Prop where
  chars : cased.toList = reread false name.toList
  same_iff : cased = name ↔ Readable name.toList
  again : pascal cased = cased

theorem recased_pascal {name : String} (hword : Word name.toList)
    (hstart : startsSmall name.toList = false) : Recased name (pascal name) := by
  have hchars : (pascal name).toList = reread false name.toList := by
    rw [pascal, String.toList_ofList, pascalChars_of_word hword hstart]
  have hiff : reread false name.toList = name.toList ↔ Readable name.toList := by
    simp [reread_eq_iff]
  refine ⟨hchars, ?same, ?again⟩
  case same => rw [← String.toList_inj, hchars, hiff]
  case again =>
    have hcased : Word (pascal name).toList := by
      rw [pascal, String.toList_ofList]
      exact word_pascalChars (isIdentifierChar_of_word hword)
    have hcasedStart : startsSmall (pascal name).toList = false := by
      rw [pascal, String.toList_ofList]
      exact startsSmall_pascalChars hword.ascii
    have hreread : reread false (pascal name).toList = (pascal name).toList := by
      rw [hchars, reread_eq_iff]
      exact ⟨fun hbehind => Bool.noConfusion hbehind, readable_reread false name.toList⟩
    apply String.toList_inj.mp
    rw [← hreread, ← pascalChars_of_word hcased hcasedStart]
    exact String.toList_ofList

end Identifier

namespace Naming

open ApiClients.Identifier

/-! ### The names of the naming pass -/

variable {operation : Operation}

theorem startsSmall_verbName (h : LetterMethod operation) (segments : List String) :
    startsSmall (verbName operation.method segments).toList = false := by
  unfold verbName
  rw [String.toList_append, String.toList_append]
  refine startsSmall_append (startsSmall_append ?verb ?literal) ?ending
  case verb =>
    rw [pascal, String.toList_ofList, lower, String.toList_ofList]
    exact startsSmall_pascalChars h.word.ascii.lowerChars
  case literal =>
    rw [String.toList_join, List.flatMap_def]
    refine startsSmall_flatten fun part hpart => ?_
    obtain ⟨text, htext, rfl⟩ := List.mem_map.mp hpart
    obtain ⟨segment, -, rfl⟩ := List.mem_map.mp htext
    exact startsSmall_pascalNormalized segment
  case ending =>
    cases segments.getLast? with
    | none => rfl
    | some last =>
      cases hparameter : isParameter last with
      | true =>
        simp only [hparameter, if_true, String.toList_append]
        exact startsSmall_append (by decide) (startsSmall_pascalNormalized _)
      | false => simp [hparameter, startsSmall]

theorem startsSmall_baseName (policy : Policy) (h : LetterMethod operation) :
    startsSmall (policy.baseName operation).toList = false := by
  unfold Policy.baseName
  by_cases hempty : (policy.wantedName operation).isEmpty = true
  · simp only [hempty, if_true]
    exact startsSmall_verbName h _
  · simp only [hempty, if_false, Bool.false_eq_true]
    rcases wantedName_cases policy operation with ⟨text, -, hwanted⟩ | ⟨-, segments, hwanted⟩
    · rw [hwanted]
      exact startsSmall_pascalNormalized text
    · rw [hwanted]
      exact startsSmall_verbName h segments

theorem isLowerAscii_of_digit {c : Char} (h : isDigitAscii c = true) : isLowerAscii c = false :=
  forall_ascii (P := fun c => isDigitAscii c = true → isLowerAscii c = false) (by decide) c
    (isWordChar_lt (isWordChar_of_isDigitAscii h)) h

theorem startsSmall_numbered {base : String} (h : startsSmall base.toList = false) (n : Nat) :
    startsSmall (numbered base n).toList = false := by
  cases n with
  | zero => exact h
  | succ n =>
    rw [numbered, String.toList_append]
    refine startsSmall_append h ?_
    cases hnumber : (toString (n + 2)).toList with
    | nil => rfl
    | cons d digits =>
      have hdigit := isDigitAscii_of_mem_number (hnumber ▸ List.mem_cons_self)
      exact isLowerAscii_of_digit hdigit

/-- What Pascal casing makes of the name that a policy asks for, with whatever number behind it. -/
theorem recased_numbered (policy : Policy) (h : LetterMethod operation) (n : Nat) :
    Recased (numbered (policy.baseName operation) n)
      (pascal (numbered (policy.baseName operation) n)) :=
  recased_pascal (word_numbered (word_baseName policy h) n)
    (startsSmall_numbered (startsSmall_baseName policy h) n)

end Naming

/-! ### The method names of a report -/

/-- In C# the method name of a model is the name that the naming pass has given just if in that name
each two capitals side by side stand in front of a small letter.  Otherwise it differs from it in
those capitals behind capitals that have no small letter behind them, which are small; and it is its
own Pascal form.  The same holds of every name that a policy can ask for, with or without a number
behind it. -/
theorem methods_recased (settings : Settings) (graph : Graph) (schemas : List NodeId)
    (operations : List Operation) (journal : Journal)
    (hmethods : ∀ operation ∈ operations, Naming.LetterMethod operation) :
    (∀ operation ∈ operations, ∀ (policy : Naming.Policy) (n : Nat),
        let name := numbered (policy.baseName operation) n
        Identifier.Recased name (Language.csharp.methodName name))
      ∧ (settings.targetLanguage = .ok Language.csharp → ∀ report,
          (Generation.report settings graph schemas operations journal).1 = .ok report →
            ∀ model ∈ report.models, ∃ name,
              Entries.get? (Naming.assign settings.policy operations) model.key = some name
                ∧ Identifier.Recased name.method model.methodName) := by
  refine ⟨?policies, ?models⟩
  case policies =>
    intro operation hoperation policy n
    exact Naming.recased_numbered policy (hmethods operation hoperation) n
  case models =>
    intro hlanguage report hreport model hmodel
    have hrun : runStep (Generation.run settings graph schemas operations) { journal := journal } =
        (.ok report, _) := Prod.ext hreport rfl
    obtain ⟨language, builder, htarget, hbuilder, -, hbuilt⟩ := Generation.built_of_run hrun
    obtain ⟨built, -, u, v, -, hbuild⟩ := hbuilt model hmodel
    obtain ⟨name, hname⟩ := Builder.build_ok hbuild
    cases hlanguage.symm.trans htarget
    have hfound := hname.found
    have hmethod := hname.methodName
    rw [hbuilder] at hfound hmethod
    obtain ⟨operation, hoperation, -, -, n, hn⟩ := Naming.mem_assign (Entries.mem_of_get? hfound)
    refine ⟨name, hname.key ▸ hfound, ?_⟩
    rw [hmethod, hn]
    exact Naming.recased_numbered settings.policy (hmethods operation hoperation) n

/-- Operations of one client with a name of two words of a letter each, one of longer words, and the
latter again. -/
def listings : List Operation :=
  [{ method := "get", path := "/a", operationId := some "a_b" },
   { method := "get", path := "/pets", operationId := some "list_aPet" },
   { method := "get", path := "/pets/all", operationId := some "listAPet" }]

theorem methods_recased_listings :
    ∃ report, (Generation.report {} {} [] listings []).1 = .ok report
      ∧ (∀ operation ∈ listings, Naming.LetterMethod operation)
      ∧ ({} : Settings).targetLanguage = .ok Language.csharp
      ∧ report.models.map (·.methodName) = ["Ab", "ListAPet", "ListAPet2"]
      ∧ ∀ model ∈ report.models, ∃ name,
          Entries.get? (Naming.assign .firstTag listings) model.key = some name
            ∧ Identifier.Recased name.method model.methodName := by
  have hnames : (Generation.report {} {} [] listings []).1.toOption.map
      (·.models.map (·.methodName)) = some ["Ab", "ListAPet", "ListAPet2"] := by
    have hnone : ({} : Graph).typeDefinitions (Generation.roots [] listings) = [] :=
      Graph.typeDefinitions_nil {}
    unfold Generation.report Generation.run Generation.prepare
    rw [hnone]
    decide +kernel
  have hmethods : ∀ operation ∈ listings, Naming.LetterMethod operation := by
    intro operation hoperation
    have hget : (listings.all fun operation => operation.method == "get") = true := by decide
    have hmethod := List.all_eq_true.mp hget operation hoperation
    exact (Naming.letterMethod_get (by simpa using hmethod)).2
  have hlanguage : ({} : Settings).targetLanguage = .ok Language.csharp := by decide +kernel
  obtain ⟨report, hreport, hcased⟩ := Except.ok_of_toOption_map hnames
  exact ⟨report, hreport, hmethods, hlanguage, hcased,
    (methods_recased {} {} [] listings [] hmethods).2 hlanguage report hreport⟩

/-- An operation whose id has two words of one letter each. -/
def initials : List Operation :=
  [{ method := "get", path := "/pets", operationId := some "a_b", tags := ["pets"] }]

/-- The name `AB` that the naming pass gives is one word for the casing of C#, which makes it
`Ab`. -/
theorem initials_recased :
    ∃ report, (Generation.report {} {} [] initials []).1 = .ok report
      ∧ (∀ operation ∈ initials, Naming.LetterMethod operation)
      ∧ ({} : Settings).targetLanguage = .ok Language.csharp
      ∧ ∃ model ∈ report.models, ∃ name,
          Entries.get? (Naming.assign .firstTag initials) model.key = some name
            ∧ name.method = "AB" ∧ model.methodName = "Ab" := by
  have hnames : (Generation.report {} {} [] initials []).1.toOption.map
      (·.models.map fun model => (model.key, model.methodName)) = some [("GET /pets", "Ab")] := by
    have hnone : ({} : Graph).typeDefinitions (Generation.roots [] initials) = [] :=
      Graph.typeDefinitions_nil {}
    unfold Generation.report Generation.run Generation.prepare
    rw [hnone]
    decide +kernel
  have hassigned : Entries.get? (Naming.assign .firstTag initials) "GET /pets" =
      some ⟨"Pets", "AB"⟩ := by decide +kernel
  have hmethods : ∀ operation ∈ initials, Naming.LetterMethod operation := by
    intro operation hoperation
    exact (Naming.letterMethod_get (by rw [List.mem_singleton.mp hoperation])).2
  obtain ⟨report, hreport, hpairs⟩ := Except.ok_of_toOption_map hnames
  have hpair : ("GET /pets", "Ab") ∈ report.models.map fun model => (model.key, model.methodName) :=
    hpairs ▸ List.mem_cons_self
  obtain ⟨model, hmodel, hboth⟩ := List.mem_map.mp hpair
  obtain ⟨hkey, hname⟩ := Prod.mk.inj hboth
  exact ⟨report, hreport, hmethods, by decide +kernel, model, hmodel, ⟨"Pets", "AB"⟩,
    hkey ▸ hassigned, rfl, hname⟩

end ApiClients
