import ApiClients.Proofs.Casing
import ApiClients.StatusCode

/-!
# What status codes say

A status code says one number, a range of numbers, or everything that is left.  `Reads` is the
grammar of the codes with what they say, and `Form.Beats` tells which of two codes is the more
specific one.  What is accepted as a code is the grammar and, beyond it, each of its codes with one
line feed at the end (`isAccepted_iff`).  Within the grammar the codes that start with `2` are the
successes (`isSuccess_iff`); with the line feed none of them is one.  The code that is taken from
some codes as the most specific one is beaten by none of them (`mostSpecific?_least`, `Least.unbeaten`).
-/

namespace ApiClients

namespace Text

/-! ### ASCII letters and digits -/

theorem lowerAscii_eq (c : Char) : lowerAscii c = c.toLower := by
  by_cases h : c.toNat < 128
  · exact forall_ascii (P := fun c => lowerAscii c = c.toLower) (by decide) c h
  · have hz : ¬ c ≤ 'Z' := fun hz => h (Nat.lt_of_le_of_lt hz (by decide))
    have hsame : c.toLower = c := dif_neg fun hboth => hz hboth.2
    rw [hsame, lowerAscii, isUpperAscii]
    simp [hz]

/-- A letter other than those of ASCII is no other's lower case. -/
theorem lt_of_toLower {c d : Char} (h : c.toLower = d) (hd : d.toNat < 128) : c.toNat < 128 := by
  by_contra hc
  rw [← lowerAscii_eq, lowerAscii, isUpperAscii] at h
  have hz : ¬ c ≤ 'Z' := fun hz => hc (Nat.lt_of_le_of_lt hz (by decide))
  simp only [hz, decide_false, Bool.and_false, if_false, Bool.false_eq_true] at h
  rw [h] at hc
  exact hc hd

end Text

namespace StatusCode

open ApiClients.Text

/-! ### The grammar -/

/-- What a status code says. -/
inductive Form where
  | explicit (number : Nat)
  | range
  | default
  deriving DecidableEq, Repr

/-- What is more specific: a number than a range, a range than the default, and of two numbers the
lower one. -/
inductive Form.Beats : Form → Form → Prop
  | lower {m n : Nat} (h : m < n) : Beats (.explicit m) (.explicit n)
  | explicit_range (n : Nat) : Beats (.explicit n) .range
  | explicit_default (n : Nat) : Beats (.explicit n) .default
  | range_default : Beats .range .default

/-- The place of a form among all of them, the most specific first. -/
def Form.rank : Form → Nat × Nat
  | .explicit number => (0, number)
  | .range => (1, 0)
  | .default => (2, 0)

/-- A status code is a digit from 1 to 5 and two more digits, of any script; such a digit and two
times `X` in either case; or the word `default` in any case. -/
inductive Reads : List Char → Form → Prop
  | explicit {a b c : Char} {i j k : Nat} (ha : '1' ≤ a ∧ a ≤ '5')
      (hi : decimalValue? a = some i) (hj : decimalValue? b = some j)
      (hk : decimalValue? c = some k) : Reads [a, b, c] (.explicit (100 * i + 10 * j + k))
  | range {a b c : Char} (ha : '1' ≤ a ∧ a ≤ '5') (hb : b.toLower = 'x') (hc : c.toLower = 'x') :
      Reads [a, b, c] .range
  | default {cs : List Char} (h : cs.map Char.toLower = "default".toList) : Reads cs .default

/-- A text is a status code of the grammar. -/
def Documented (code : String) : Prop := ∃ form, Reads code.toList form

/-- A text is a status code of the grammar with one line feed behind it. -/
def Trailed (code : String) : Prop := ∃ word, Documented word ∧ code = word ++ "\n"

theorem spells_iff {word cs : List Char} : spells word cs = true ↔ cs.map Char.toLower = word := by
  rw [spells, beq_iff_eq, List.map_congr_left fun c _ => lowerAscii_eq c]

theorem spells_pair {b c : Char} :
    spells ['x', 'x'] [b, c] = true ↔ b.toLower = 'x' ∧ c.toLower = 'x' := by
  rw [spells_iff]
  simp

theorem reads_default {cs : List Char} :
    Reads cs .default ↔ cs.map Char.toLower = "default".toList := by
  constructor
  · intro h
    cases h with
    | default h => exact h
  · exact .default

theorem isDefault_iff {code : String} : isDefault code = true ↔ Reads code.toList .default := by
  rw [isDefault, spells_iff, reads_default]

theorem decimal_of_first {a : Char} (ha : '1' ≤ a ∧ a ≤ '5') : isDecimal a = true := by
  have hascii : a.toNat < 128 := Nat.lt_of_le_of_lt ha.2 (by decide)
  exact forall_ascii (P := fun a => '1' ≤ a ∧ a ≤ '5' → isDecimal a = true) (by decide +kernel) a
    hascii ha

theorem matchesGrammar_iff {cs : List Char} :
    matchesGrammar cs = true ↔ ∃ form, Reads cs form := by
  unfold matchesGrammar
  constructor
  · intro h
    rcases Bool.or_eq_true_iff.mp h with h | h
    · exact ⟨.default, .default (spells_iff.mp h)⟩
    · split at h
      · rename_i a b c
        simp only [Bool.and_eq_true, Bool.or_eq_true, decide_eq_true_eq] at h
        obtain ⟨ha, ⟨hb, hc⟩ | hx⟩ := h
        · obtain ⟨i, hi⟩ := Option.isSome_iff_exists.mp (decimal_of_first ha)
          obtain ⟨j, hj⟩ := Option.isSome_iff_exists.mp hb
          obtain ⟨k, hk⟩ := Option.isSome_iff_exists.mp hc
          exact ⟨_, .explicit ha hi hj hk⟩
        · obtain ⟨hb, hc⟩ := spells_pair.mp hx
          exact ⟨_, .range ha hb hc⟩
      · cases h
  · rintro ⟨form, h⟩
    cases h with
    | explicit ha hi hj hk => simp [ha, isDecimal, hj, hk]
    | range ha hb hc => simp [ha, spells_pair.mpr ⟨hb, hc⟩]
    | default h => exact Bool.or_eq_true_iff.mpr (.inl (spells_iff.mpr h))

instance (code : String) : Decidable (Documented code) :=
  decidable_of_iff (matchesGrammar code.toList = true) matchesGrammar_iff

/-! ### What is accepted -/

/-- A character that is neither a digit nor one of the letters is in no code. -/
theorem foreign_of_reads {cs : List Char} {form : Form} (h : Reads cs form) {c : Char}
    (hdigit : decimalValue? c = none) (hletter : c.toLower ∉ "xdefault".toList) : c ∉ cs := by
  have hx : c.toLower ≠ 'x' := by
    rintro hx
    exact hletter (hx ▸ by decide)
  intro hmem
  cases h with
  | explicit ha hi hj hk =>
    simp only [List.mem_cons, List.not_mem_nil, or_false] at hmem
    rcases hmem with rfl | rfl | rfl
    · cases hdigit.symm.trans hi
    · cases hdigit.symm.trans hj
    · cases hdigit.symm.trans hk
  | range ha hb hc =>
    simp only [List.mem_cons, List.not_mem_nil, or_false] at hmem
    rcases hmem with rfl | rfl | rfl
    · have hdecimal := decimal_of_first ha
      rw [isDecimal, hdigit] at hdecimal
      cases hdecimal
    · exact hx hb
    · exact hx hc
  | default h =>
    have hlower := List.mem_map_of_mem (f := Char.toLower) hmem
    rw [h] at hlower
    exact hletter (List.mem_cons_of_mem 'x' hlower)

theorem notMem_of_reads {cs : List Char} {form : Form} (h : Reads cs form) : '\n' ∉ cs :=
  foreign_of_reads h (by decide +kernel) (by decide)

theorem dropLineFeed_append (cs : List Char) : dropLineFeed (cs ++ ['\n']) = cs := by
  simp [dropLineFeed]

theorem dropLineFeed_cases (cs : List Char) :
    dropLineFeed cs = cs ∨ cs = dropLineFeed cs ++ ['\n'] := by
  unfold dropLineFeed
  split
  · rename_i hlast
    exact .inr (List.dropLast_append_getLast? '\n' hlast).symm
  · exact .inl rfl

theorem trailed_iff {code : String} :
    Trailed code ↔ ∃ cs form, Reads cs form ∧ code.toList = cs ++ ['\n'] := by
  constructor
  · rintro ⟨word, ⟨form, hform⟩, rfl⟩
    exact ⟨word.toList, form, hform, String.toList_append⟩
  · rintro ⟨cs, form, hform, hcode⟩
    refine ⟨String.ofList cs, ⟨form, by rwa [String.toList_ofList]⟩, ?_⟩
    apply String.toList_inj.mp
    rw [hcode, String.toList_append, String.toList_ofList]
    rfl

/-- Accepted are the codes of the grammar, and they are accepted with a line feed behind them. -/
theorem isAccepted_iff {code : String} :
    isAccepted code = true ↔ Documented code ∨ Trailed code := by
  rw [isAccepted, Bool.or_eq_true_iff, matchesGrammar_iff, matchesGrammar_iff, trailed_iff]
  constructor
  · rintro (hform | ⟨form, hform⟩)
    · exact .inl hform
    · rcases dropLineFeed_cases code.toList with hsame | hfeed
      · exact .inl ⟨form, hsame ▸ hform⟩
      · exact .inr ⟨_, form, hform, hfeed⟩
  · rintro (hform | ⟨cs, form, hform, hcode⟩)
    · exact .inl hform
    · rw [hcode, dropLineFeed_append]
      exact .inr ⟨form, hform⟩

theorem Documented.not_trailed {code : String} (h : Documented code) : ¬ Trailed code := by
  obtain ⟨form, hform⟩ := h
  rintro ⟨word, -, rfl⟩
  refine notMem_of_reads hform ?_
  rw [String.toList_append]
  exact List.mem_append_right _ List.mem_cons_self

/-! ### Successes -/

theorem isDigit_of_value {c : Char} {n : Nat} (h : decimalValue? c = some n) :
    isDigit c = true := by
  simp [isDigit, isDecimal, h]

/-- No digit is a letter of ASCII in either case. -/
theorem isDigit_of_lower {c d : Char} (hd : d.isLower = true) (h : c.toLower = d) :
    isDigit c = false := by
  have hascii : d.toNat < 128 := by
    have hz : d ≤ 'z' := of_decide_eq_true (Bool.and_eq_true_iff.mp hd).2
    exact Nat.lt_of_le_of_lt hz (by decide)
  have hall : ∀ c : Char, c.toNat < 128 → c.toLower.isLower = true → isDigit c = false :=
    forall_ascii (P := fun c => c.toLower.isLower = true → isDigit c = false) (by decide +kernel)
  exact hall c (lt_of_toLower h hascii) (h ▸ hd)

theorem length_default {cs : List Char} (h : cs.map Char.toLower = "default".toList) :
    cs.length = 7 := by
  simpa using congrArg List.length h

theorem head_default {cs : List Char} (h : cs.map Char.toLower = "default".toList) :
    cs.head? ≠ some '2' := by
  intro htwo
  have hhead := congrArg List.head? h
  rw [List.head?_map, htwo] at hhead
  exact absurd hhead (by decide)

/-- A code of the grammar is a success exactly if it starts with `2`. -/
theorem isSuccess_iff {code : String} (h : Documented code) :
    isSuccess code = true ↔ code.toList.head? = some '2' := by
  obtain ⟨form, hform⟩ := h
  unfold isSuccess
  generalize code.toList = cs at hform
  cases hform with
  | explicit ha hi hj hk => simp [isDigit_of_value hj, isDigit_of_value hk]
  | range ha hb hc => simp [spells_pair.mpr ⟨hb, hc⟩]
  | default h =>
    refine iff_of_false ?_ (head_default h)
    split
    · cases length_default h
    · exact Bool.false_ne_true

/-- With a line feed behind it no code is a success. -/
theorem Trailed.not_isSuccess {code : String} (h : Trailed code) : isSuccess code = false := by
  obtain ⟨cs, form, hform, hcode⟩ := trailed_iff.mp h
  unfold isSuccess
  rw [hcode]
  split
  · rename_i hthree
    have hlength := congrArg List.length hthree
    rw [List.length_append] at hlength
    cases hform with
    | explicit => cases hlength
    | range => cases hlength
    | default hword =>
      rw [length_default hword] at hlength
      cases hlength
  · rfl

theorem documented_of_success {code : String} (haccepted : isAccepted code = true)
    (h : isSuccess code = true) : Documented code := by
  refine (isAccepted_iff.mp haccepted).resolve_right fun htrailed => ?_
  rw [htrailed.not_isSuccess] at h
  cases h

/-! ### The most specific code -/

theorem allDigits_default {cs : List Char} (h : cs.map Char.toLower = "default".toList) :
    allDigits cs = false := by
  cases cs with
  | nil => cases h
  | cons c cs =>
    have hfirst : isDigit c = false := isDigit_of_lower (by decide) (List.cons.inj h).1
    simp [allDigits, hfirst]

/-- How specific a code is counted follows from what it says. -/
theorem specificity_of_reads {code : String} {form : Form} (h : Reads code.toList form) :
    specificity code = form.rank := by
  have hdefault : isDefault code = true ↔ Reads code.toList .default := isDefault_iff
  unfold specificity
  generalize code.toList = cs at h hdefault
  cases h with
  | explicit ha hi hj hk =>
    simp [allDigits, isDigit_of_value hi, isDigit_of_value hj, isDigit_of_value hk,
      decimalNumber, hi, hj, hk, Form.rank]
    omega
  | range ha hb hc =>
    have hletter := isDigit_of_lower (by decide) hb
    have hword : ¬ isDefault code = true := by
      rw [hdefault, reads_default]
      simp
    simp [allDigits, hletter, hword, Form.rank]
  | default h =>
    rw [allDigits_default h, hdefault.mpr (.default h)]
    rfl

theorem moreSpecific_iff {p q : Nat × Nat} :
    moreSpecific p q = true ↔ p.1 < q.1 ∨ p.1 = q.1 ∧ p.2 < q.2 := by
  simp [moreSpecific]

theorem moreSpecific_of_beats {code other : String} {form against : Form}
    (hcode : Reads code.toList form) (hother : Reads other.toList against)
    (h : form.Beats against) : moreSpecific (specificity code) (specificity other) = true := by
  rw [moreSpecific_iff, specificity_of_reads hcode, specificity_of_reads hother]
  cases h <;> simp_all [Form.rank]

theorem mostSpecific?_eq_none {codes : List String} :
    mostSpecific? codes = none ↔ codes = [] := by
  cases codes with
  | nil => simp [mostSpecific?]
  | cons code rest =>
    simp only [mostSpecific?, reduceCtorEq, iff_false]
    split
    · simp
    · split <;> simp

/-- A code that is no less specific than any of some codes, as the least of them by their specificity
is.  There may be several, where digits are of different scripts or letters of different case. -/
structure Least (best : String) (codes : List String) : Prop where
  mem : best ∈ codes
  le : ∀ code ∈ codes, moreSpecific (specificity code) (specificity best) = false

/-- By induction on the codes, from the last one on: the best so far is no less specific than any of
them, and the next one takes its place unless it is beaten. -/
theorem mostSpecific?_least {codes : List String} {best : String}
    (h : mostSpecific? codes = some best) : Least best codes := by
  induction codes generalizing best with
  | nil => cases h
  | cons code rest ih =>
    rw [mostSpecific?] at h
    cases hrest : mostSpecific? rest with
    | none =>
      obtain rfl := mostSpecific?_eq_none.mp hrest
      rw [hrest] at h
      cases h
      exact ⟨List.mem_cons_self, by simp [moreSpecific]⟩
    | some last =>
      obtain ⟨hmem, hleast⟩ := ih hrest
      simp only [hrest, ← Bool.not_eq_true, moreSpecific_iff] at h hleast
      split at h
      · rename_i hbeaten
        cases h
        refine ⟨List.mem_cons_of_mem _ hmem, fun other hother => ?_⟩
        rw [← Bool.not_eq_true, moreSpecific_iff]
        rcases List.mem_cons.mp hother with rfl | hother
        · omega
        · exact hleast other hother
      · rename_i hunbeaten
        cases h
        refine ⟨List.mem_cons_self, fun other hother => ?_⟩
        rw [← Bool.not_eq_true, moreSpecific_iff]
        rcases List.mem_cons.mp hother with rfl | hother
        · omega
        · have := hleast other hother
          omega

/-- No code among some says anything more specific than a code does. -/
def Unbeaten (best : String) (codes : List String) : Prop :=
  ∀ code ∈ codes, ∀ form against, Reads code.toList form → Reads best.toList against →
    ¬ form.Beats against

theorem Least.unbeaten {codes : List String} {best : String} (h : Least best codes) :
    Unbeaten best codes := by
  intro code hcode form against hform hagainst hbeats
  have hless := h.le code hcode
  rw [moreSpecific_of_beats hform hagainst hbeats] at hless
  cases hless

end StatusCode

end ApiClients
