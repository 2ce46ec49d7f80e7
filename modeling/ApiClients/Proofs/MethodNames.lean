import ApiClients.Naming.Methods
import ApiClients.Proofs.Casing
import ApiClients.Proofs.Numbering
import Mathlib.Data.List.Induction
import Mathlib.Data.List.Nodup

/-!
# The names of methods stay apart

The naming pass numbers a method name that its client has already, case apart.  It is shown here
that the search for a free number ends for every list of operations (`add_firstFree`), that no two
operations of a client end up with the same name, and that a casing applied afterwards cannot bring
two names together again (`assign_apart`).  The last needs that the names are made of letters and
digits, which all policies see to where the method of an operation is a word of letters.
-/

namespace ApiClients

open ApiClients.Text ApiClients.Identifier

/-! ### Numbers and case -/

theorem isDigitAscii_of_mem_number {n : Nat} {c : Char} (h : c ∈ (toString n).toList) :
    isDigitAscii c = true := by
  have hdigit : c.isDigit = true := by
    refine Nat.isDigit_of_mem_toDigits (b := 10) (by decide) (by decide) (n := n) ?_
    simpa [Nat.toString_eq_repr, Nat.toList_repr] using h
  simpa [isDigitAscii, Char.isDigit, Char.le_def] using hdigit

theorem isWordChar_of_isDigitAscii {c : Char} (h : isDigitAscii c = true) :
    isWordChar c = true := by
  simp [isWordChar, h]

/-- A word's case ends at a digit, and a digit has none. -/
theorem digit_case {c : Char} (h : isDigitAscii c = true) :
    isSkipped c = false ∧ isCased c = false ∧ lowerAscii c = c :=
  forall_ascii
    (P := fun c => isDigitAscii c = true →
      isSkipped c = false ∧ isCased c = false ∧ lowerAscii c = c)
    (by decide +kernel) c (isWordChar_lt (isWordChar_of_isDigitAscii h)) h

theorem startsCased_append_digits (cs : List Char) {ds : List Char}
    (h : ∀ d ∈ ds, isDigitAscii d = true) : startsCased (cs ++ ds) = startsCased cs := by
  unfold startsCased
  induction cs with
  | nil =>
    cases ds with
    | nil => rfl
    | cons d ds =>
      obtain ⟨hskip, hcased, -⟩ := digit_case (h d List.mem_cons_self)
      simp [hskip, hcased]
  | cons c cs ih =>
    cases hskip : isSkipped c with
    | true => simpa [hskip] using ih
    | false => simp [hskip]

/-- Digits at the end of a text are left alone by lower case, and leave the rest alone. -/
theorem lowerFrom_append_digits (before cs : List Char) {ds : List Char}
    (h : ∀ d ∈ ds, isDigitAscii d = true) :
    lowerFrom before (cs ++ ds) = lowerFrom before cs ++ ds := by
  induction cs generalizing before with
  | nil =>
    have hascii : Ascii ds := fun d hd => isWordChar_lt (isWordChar_of_isDigitAscii (h d hd))
    show lowerFrom before ds = ds
    rw [lowerFrom_of_ascii before hascii, List.map_congr_left fun d hd => (digit_case (h d hd)).2.2,
      List.map_id']
  | cons c cs ih =>
    rw [List.cons_append, lowerFrom, lowerFrom, startsCased_append_digits cs h, ih,
      List.append_assoc]

theorem lower_numbered (base : String) (n : Nat) :
    lower (numbered base n) = numbered (lower base) n := by
  cases n with
  | zero => rfl
  | succ n =>
    apply String.toList_inj.mp
    rw [numbered, numbered, lower, String.toList_ofList, String.toList_append,
      String.toList_append, lowerChars,
      lowerFrom_append_digits _ _ fun _ => isDigitAscii_of_mem_number]
    rw [lower, String.toList_ofList, lowerChars]

theorem word_numbered {base : String} (h : Word base.toList) (n : Nat) :
    Word (numbered base n).toList := by
  cases n with
  | zero => exact h
  | succ n =>
    rw [numbered, String.toList_append]
    exact h.append fun c hc => isWordChar_of_isDigitAscii (isDigitAscii_of_mem_number hc)

namespace Naming

/-! ### The names that policies ask for -/

section Names

variable {operation : Operation}

/-- The method of the operation is made of ASCII letters. -/
def LetterMethod (operation : Operation) : Prop :=
  ∀ c ∈ operation.method.toList, (isUpperAscii c || isLowerAscii c) = true

theorem LetterMethod.word (h : LetterMethod operation) : Word operation.method.toList := by
  intro c hc
  have := h c hc
  simp only [Bool.or_eq_true] at this
  simp only [isWordChar, Bool.or_eq_true]
  tauto

theorem word_pascal_lower (h : LetterMethod operation) :
    Word (pascal (lower operation.method)).toList := by
  have hword := h.word
  rw [pascal, String.toList_ofList, lower, String.toList_ofList, lowerChars_of_ascii hword.ascii]
  refine word_pascalChars fun c hc => ?_
  obtain ⟨d, hd, rfl⟩ := List.mem_map.mp hc
  exact isIdentifierChar_iff.mpr (Or.inl (isWordChar_lowerAscii (hword d hd)))

theorem word_verbName (h : LetterMethod operation) (segments : List String) :
    Word (verbName operation.method segments).toList := by
  unfold verbName
  rw [String.toList_append, String.toList_append]
  refine ((word_pascal_lower h).append ?literal).append ?ending
  case literal =>
    rw [String.toList_join]
    intro c hc
    obtain ⟨text, htext, hc⟩ := List.mem_flatMap.mp hc
    obtain ⟨segment, -, rfl⟩ := List.mem_map.mp htext
    exact word_pascalNormalized segment c hc
  case ending =>
    cases segments.getLast? with
    | none =>
      intro c hc
      cases hc
    | some last =>
      by_cases hparameter : isParameter last = true
      · simp only [hparameter, if_true, String.toList_append]
        refine Word.append ?_ (word_pascalNormalized _)
        exact fun c hc => List.all_eq_true.mp (by decide) c hc
      · simp only [hparameter, if_false, Bool.false_eq_true]
        intro c hc
        cases hc

theorem word_idMethodName (h : LetterMethod operation) : Word (idMethodName operation).toList := by
  unfold idMethodName
  cases operation.operationId with
  | none => exact word_verbName h _
  | some id =>
    by_cases hempty : id.isEmpty = true
    · simp only [hempty, if_true]
      exact word_verbName h _
    · simp only [hempty, if_false, Bool.false_eq_true]
      exact word_pascalNormalized id

theorem word_wantedName (policy : Policy) (h : LetterMethod operation) :
    Word (policy.wantedName operation).toList := by
  cases policy with
  | firstTag => exact word_idMethodName h
  | operationId =>
    unfold Policy.wantedName
    cases idParts? (operation.operationId.getD "") with
    | none => exact word_idMethodName h
    | some parts =>
      by_cases hempty : parts.2.isEmpty = true
      · simp only [hempty, if_true]
        exact word_idMethodName h
      · simp only [hempty, if_false, Bool.false_eq_true]
        exact word_pascalNormalized parts.2
  | singleClient => exact word_idMethodName h
  | pathSegments => exact word_verbName h _

/-- What any policy calls a method is made of letters and digits. -/
theorem word_baseName (policy : Policy) (h : LetterMethod operation) :
    Word (policy.baseName operation).toList := by
  unfold Policy.baseName
  by_cases hempty : (policy.wantedName operation).isEmpty = true
  · simp only [hempty, if_true]
    exact word_verbName h _
  · simp only [hempty, if_false, Bool.false_eq_true]
    exact word_wantedName policy h

end Names

/-! ### The naming pass, an operation at a time -/

namespace Assignment

/-- What two names must not have in common: the client and the method, case apart. -/
def folded (name : OperationName) : String × String := (lower name.client, lower name.method)

/-- The name that an operation gets next. -/
def nextName (policy : Policy) (assignment : Assignment) (operation : Operation) :
    OperationName :=
  ⟨policy.clientName operation, freeName (assignment.isTaken (policy.clientName operation))
    assignment.taken.length (policy.baseName operation)⟩

theorem add_eq (policy : Policy) (assignment : Assignment) (operation : Operation) :
    add policy assignment operation =
      { names := Entries.put operation.key (nextName policy assignment operation) assignment.names
        taken := assignment.taken ++ [folded (nextName policy assignment operation)] } := rfl

/-- The search for a free method name ends, after whatever operations: with the first spelling that
the client does not have yet. -/
theorem nextName_firstFree (policy : Policy) (assignment : Assignment) (operation : Operation) :
    FirstFree (assignment.isTaken (policy.clientName operation)) (policy.baseName operation)
      (nextName policy assignment operation).method := by
  refine freeName_firstFree
    (fun method => (lower (policy.clientName operation), lower method)) ?_ ?_
  · intro method htaken
    simpa [isTaken] using htaken
  · intro m n hsame
    simp only [lower_numbered, Prod.mk.injEq, true_and] at hsame
    exact numbered_injective _ hsame

/-- The pass has named some operations: each has its entry, and no two entries are alike, case
apart. -/
structure Names (policy : Policy) (operations : List Operation) (assignment : Assignment) :
    Prop where
  keys : assignment.names.map (·.1) = operations.map Operation.key
  named : ∀ entry ∈ assignment.names, ∃ operation ∈ operations,
    ∃ n, entry.2.method = numbered (policy.baseName operation) n
  taken : assignment.taken = assignment.names.map (folded ·.2)
  distinct : assignment.taken.Nodup

theorem Names.add {policy : Policy} {operations : List Operation} {assignment : Assignment}
    {operation : Operation} (h : Names policy operations assignment)
    (hkey : operation.key ∉ operations.map Operation.key) :
    Names policy (operations ++ [operation]) (assignment.add policy operation) := by
  have hput : Entries.put operation.key (nextName policy assignment operation) assignment.names =
      assignment.names ++ [(operation.key, nextName policy assignment operation)] :=
    Entries.put_of_not_mem (by rwa [h.keys]) _
  obtain ⟨n, hn, hfree, -⟩ := nextName_firstFree policy assignment operation
  rw [add_eq, hput]
  refine ⟨?keys, ?named, ?taken, ?distinct⟩
  case keys => simp [h.keys]
  case named =>
    intro entry hentry
    rcases List.mem_append.mp hentry with hold | hnew
    · obtain ⟨other, hother, hmethod⟩ := h.named entry hold
      exact ⟨other, List.mem_append_left _ hother, hmethod⟩
    · rw [List.mem_singleton.mp hnew]
      exact ⟨operation, by simp, n, hn⟩
  case taken => simp [h.taken]
  case distinct =>
    have hfresh : folded (nextName policy assignment operation) ∉ assignment.taken := by
      intro hmem
      simp only [isTaken, List.contains_eq_mem, decide_eq_false_iff_not] at hfree
      exact hfree hmem
    refine List.nodup_append.mpr ⟨h.distinct, List.nodup_singleton _, ?_⟩
    rintro name hname other hother rfl
    rw [List.mem_singleton.mp hother] at hname
    exact hfresh hname

end Assignment

/-! ### The whole pass -/

theorem names_assign (policy : Policy) {operations : List Operation}
    (h : (operations.map Operation.key).Nodup) :
    Assignment.Names policy operations (operations.foldl (Assignment.add policy) {}) := by
  induction operations using List.reverseRecOn with
  | nil => exact ⟨rfl, fun _ hentry => (List.not_mem_nil hentry).elim, rfl, List.nodup_nil⟩
  | append_singleton operations operation ih =>
    rw [List.map_append, List.nodup_append] at h
    rw [List.foldl_append]
    refine (ih h.1).add ?_
    intro hkey
    exact h.2.2 _ hkey _ List.mem_cons_self rfl

/-- Operations with one client, case apart, have different method names in every casing. -/
theorem assign_apart (policy : Policy) {operations : List Operation}
    (hkeys : (operations.map Operation.key).Nodup)
    (hmethods : ∀ operation ∈ operations, LetterMethod operation)
    {entry other : String × OperationName} (hentry : entry ∈ assign policy operations)
    (hother : other ∈ assign policy operations) (hne : entry.1 ≠ other.1)
    (hclient : lower entry.2.client = lower other.2.client) (casing : Casing) :
    lower (casing.apply entry.2.method) ≠ lower (casing.apply other.2.method) := by
  intro hcased
  have hnames := names_assign policy hkeys
  have hword : ∀ e ∈ assign policy operations, Word e.2.method.toList := by
    intro e he
    obtain ⟨operation, hoperation, n, hn⟩ := hnames.named e he
    rw [hn]
    exact word_numbered (word_baseName policy (hmethods operation hoperation)) n
  have hmethod := lower_casing_inj casing (hword entry hentry) (hword other hother) hcased
  have hdistinct := hnames.distinct
  rw [hnames.taken] at hdistinct
  have hsame := List.inj_on_of_nodup_map hdistinct hentry hother (Prod.ext hclient hmethod)
  exact hne (congrArg (·.1) hsame)

/-- Every operation has a name, also where several operations have one key. -/
theorem assign_total (policy : Policy) {operations : List Operation} {operation : Operation}
    (h : operation ∈ operations) :
    ∃ name, Entries.get? (assign policy operations) operation.key = some name := by
  unfold assign
  induction operations using List.reverseRecOn with
  | nil => cases h
  | append_singleton operations last ih =>
    rw [List.foldl_append]
    show ∃ name, Entries.get? (Entries.put last.key _ _) operation.key = some name
    by_cases hkey : operation.key = last.key
    · rw [hkey]
      exact ⟨_, Entries.get?_put _ _ _⟩
    · rw [Entries.get?_put_of_ne hkey]
      rcases List.mem_append.mp h with hold | hlast
      · exact ih hold
      · exact absurd (congrArg Operation.key (List.mem_singleton.mp hlast)) hkey

end Naming

end ApiClients
