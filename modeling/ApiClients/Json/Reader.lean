import ApiClients.Entries
import ApiClients.Json
import ApiClients.Text.Letter

/-!
# Reading JSON

A reader of JSON texts that keeps the order of members.  Where a key is written twice the last
value stands in the first one's place.  Beside the numbers of the format the words `NaN`,
`Infinity` and `-Infinity` are read, and a number with a fraction or an exponent is rounded to
binary64.  An integer of too many digits is refused where it stands, before anything behind it is
looked at.

A half of a surrogate pair that is escaped alone has no character.  It is read as the replacement
character, so that texts which differ only in such halves are read alike.  A text is `Whole` if it
has none; the escapes in its strings are read as the characters that they stand for
(`escapes_of_whole`).

The nested readers take a bound on the number of their steps.  `Json.ofText` starts them with three
times the length of the text; as at most two steps in a row take no character, the bound stays
above the number of characters left.
-/

namespace ApiClients.Json

open ApiClients.Text

/-- Why no value is read from a text. -/
inductive Unread where
  | malformed
  | longInteger (digits : Nat)
  deriving DecidableEq, Repr, Inhabited

/-- The number of digits up to which integers are read. -/
def maxDigits : Nat := 4300

/-! ### Tokens -/

/-- The characters after the blanks that may stand between tokens. -/
def skipBlanks (cs : List Char) : List Char :=
  cs.dropWhile fun c => c == ' ' || c == '\t' || c == '\n' || c == '\r'

/-- The rest of the characters after a word, if they start with it. -/
def dropWord? : List Char → List Char → Option (List Char)
  | [], cs => some cs
  | w :: ws, c :: cs => if w = c then dropWord? ws cs else none
  | _ :: _, [] => none

def digitsToNat (cs : List Char) : Nat :=
  cs.foldl (fun n c => 10 * n + (c.toNat - 48)) 0

/-- The value of a hexadecimal digit. -/
def hexValue? (c : Char) : Option Nat :=
  if isDigitAscii c then some (c.toNat - 48)
  else if 'a' ≤ c && c ≤ 'f' then some (c.toNat - 87)
  else if 'A' ≤ c && c ≤ 'F' then some (c.toNat - 55)
  else none

/-- Four hexadecimal digits and what follows them. -/
def hexUnit? : List Char → Option (Nat × List Char)
  | a :: b :: c :: d :: rest => do
    let a ← hexValue? a
    let b ← hexValue? b
    let c ← hexValue? c
    let d ← hexValue? d
    return (((a * 16 + b) * 16 + c) * 16 + d, rest)
  | _ => none

def isHighUnit (n : Nat) : Bool := 0xD800 ≤ n && n < 0xDC00

def isLowUnit (n : Nat) : Bool := 0xDC00 ≤ n && n < 0xE000

/-- The character of a code unit.  The replacement character stands in for a half of a pair that
stands alone. -/
def unitChar (n : Nat) : Char :=
  if isHighUnit n || isLowUnit n then Char.ofNat 0xFFFD else Char.ofNat n

/-- The character of the escape `\u`, after these two characters, and what follows it. -/
def unicodeEscape? (cs : List Char) : Option (Char × List Char) := do
  let (high, rest) ← hexUnit? cs
  if isHighUnit high then
    match rest with
    | '\\' :: 'u' :: rest' =>
      match hexUnit? rest' with
      | some (low, rest'') =>
        if isLowUnit low then
          return (Char.ofNat (0x10000 + (high - 0xD800) * 0x400 + (low - 0xDC00)), rest'')
        else return (unitChar high, rest)
      | none => return (unitChar high, rest)
    | _ => return (unitChar high, rest)
  else return (unitChar high, rest)

/-- The character of an escape, after its backslash, and what follows it. -/
def escape? : List Char → Option (Char × List Char)
  | '"' :: rest => some ('"', rest)
  | '\\' :: rest => some ('\\', rest)
  | '/' :: rest => some ('/', rest)
  | 'b' :: rest => some (Char.ofNat 8, rest)
  | 'f' :: rest => some (Char.ofNat 12, rest)
  | 'n' :: rest => some ('\n', rest)
  | 'r' :: rest => some ('\r', rest)
  | 't' :: rest => some ('\t', rest)
  | 'u' :: rest => unicodeEscape? rest
  | _ => none

/-- The characters of a string after its opening quote, and what follows the closing one. -/
def stringBody? : Nat → List Char → List Char → Option (String × List Char)
  | 0, _, _ => none
  | _ + 1, _, [] => none
  | fuel + 1, read, c :: rest =>
    if c = '"' then some (String.ofList read.reverse, rest)
    else if c = '\\' then
      match escape? rest with
      | some (d, rest') => stringBody? fuel (d :: read) rest'
      | none => none
    else if c.toNat < 32 then none
    else stringBody? fuel (c :: read) rest

/-- The digits of a fraction, after its point. -/
def fraction (cs : List Char) : List Char × List Char :=
  match cs with
  | '.' :: rest =>
    match rest.takeWhile isDigitAscii with
    | [] => ([], cs)
    | digits => (digits, rest.dropWhile isDigitAscii)
  | _ => ([], cs)

/-- The digits of an exponent with a sign, and what follows them. -/
def exponentDigits? (cs : List Char) : Option (Int × List Char) :=
  let (negative, cs) := match cs with
    | '-' :: rest => (true, rest)
    | '+' :: rest => (false, rest)
    | _ => (false, cs)
  match cs.takeWhile isDigitAscii with
  | [] => none
  | digits =>
    let n : Int := digitsToNat digits
    some (if negative then -n else n, cs.dropWhile isDigitAscii)

/-- An exponent, if one follows. -/
def exponent? : List Char → Option (Int × List Char)
  | 'e' :: rest => exponentDigits? rest
  | 'E' :: rest => exponentDigits? rest
  | _ => none

/-- A number without its sign, and what follows it. -/
def readNumber (negative : Bool) (cs : List Char) : Except Unread (Json × List Char) :=
  let (whole, rest) := match cs with
    | '0' :: rest => (['0'], rest)
    | _ => (cs.takeWhile isDigitAscii, cs.dropWhile isDigitAscii)
  if whole.isEmpty then .error .malformed
  else
    let (part, rest') := fraction rest
    match exponent? rest' with
    | some (e, rest'') =>
      .ok (.real (.ofDecimal negative (digitsToNat (whole ++ part)) (e - part.length)), rest'')
    | none =>
      if part.isEmpty then
        if maxDigits < whole.length then .error (.longInteger whole.length)
        else
          let n : Int := digitsToNat whole
          .ok (.int (if negative then -n else n), rest)
      else
        .ok (.real (.ofDecimal negative (digitsToNat (whole ++ part)) (-part.length)), rest')

/-- A word that stands for a value, after its first character. -/
def readWord (word : List Char) (value : Json) (cs : List Char) :
    Except Unread (Json × List Char) :=
  match dropWord? word cs with
  | some rest => .ok (value, rest)
  | none => .error .malformed

/-- A value that is neither a string nor an array nor an object. -/
def readScalar (cs : List Char) : Except Unread (Json × List Char) :=
  match cs with
  | 'n' :: rest => readWord ['u', 'l', 'l'] .null rest
  | 't' :: rest => readWord ['r', 'u', 'e'] (.bool true) rest
  | 'f' :: rest => readWord ['a', 'l', 's', 'e'] (.bool false) rest
  | 'N' :: rest => readWord ['a', 'N'] (.real .nan) rest
  | 'I' :: rest => readWord "nfinity".toList (.real (.infinite false)) rest
  | '-' :: rest =>
    match rest with
    | 'I' :: rest' => readWord "nfinity".toList (.real (.infinite true)) rest'
    | _ => readNumber true rest
  | _ => readNumber false cs

/-! ### Nested values -/

mutual
/-- A value and what follows it. -/
def readValue : Nat → List Char → Except Unread (Json × List Char)
  | 0, _ => .error .malformed
  | fuel + 1, cs =>
    match cs with
    | '"' :: rest =>
      match stringBody? fuel [] rest with
      | some (s, rest') => .ok (.str s, rest')
      | none => .error .malformed
    | '[' :: rest =>
      match skipBlanks rest with
      | ']' :: rest' => .ok (.arr [], rest')
      | rest' => readItems fuel [] rest'
    | '{' :: rest =>
      match skipBlanks rest with
      | '}' :: rest' => .ok (.obj [], rest')
      | rest' => readMembers fuel [] rest'
    | _ => readScalar cs

/-- The items of an array from one of them on, behind those read before, which are given
backwards. -/
def readItems : Nat → List Json → List Char → Except Unread (Json × List Char)
  | 0, _, _ => .error .malformed
  | fuel + 1, before, cs =>
    match readValue fuel cs with
    | .error refusal => .error refusal
    | .ok (v, rest) =>
      match skipBlanks rest with
      | ',' :: rest' => readItems fuel (v :: before) (skipBlanks rest')
      | ']' :: rest' => .ok (.arr (v :: before).reverse, rest')
      | _ => .error .malformed

/-- The members of an object from one of them on, behind those read before. -/
def readMembers : Nat → List (String × Json) → List Char → Except Unread (Json × List Char)
  | 0, _, _ => .error .malformed
  | fuel + 1, before, cs =>
    match cs with
    | '"' :: rest =>
      match stringBody? fuel [] rest with
      | none => .error .malformed
      | some (key, rest) =>
        match skipBlanks rest with
        | ':' :: rest =>
          match readValue fuel (skipBlanks rest) with
          | .error refusal => .error refusal
          | .ok (v, rest) =>
            match skipBlanks rest with
            | ',' :: rest => readMembers fuel (Entries.put key v before) (skipBlanks rest)
            | '}' :: rest => .ok (.obj (Entries.put key v before), rest)
            | _ => .error .malformed
        | _ => .error .malformed
    | _ => .error .malformed
end

/-- The value that a text writes, blanks around it allowed. -/
def ofText (text : String) : Except Unread Json :=
  let cs := skipBlanks text.toList
  match readValue (3 * cs.length + 3) cs with
  | .error refusal => .error refusal
  | .ok (v, rest) => if (skipBlanks rest).isEmpty then .ok v else .error .malformed

/-- The value that a text writes, if it writes one. -/
def read? (text : String) : Option Json := (ofText text).toOption

/-! ### Halves of pairs -/

/-- Whether each half of a pair that is escaped has the other half beside it.  `owed` says that the
first half of a pair stands right before the characters. -/
def wholeChars (owed : Bool) : List Char → Bool
  | '\\' :: 'u' :: a :: b :: c :: d :: rest =>
    match hexUnit? [a, b, c, d] with
    | some (unit, _) => isLowUnit unit == owed && wholeChars (isHighUnit unit) rest
    | none => !owed && wholeChars false rest
  | '\\' :: _ :: rest => !owed && wholeChars false rest
  | _ :: rest => !owed && wholeChars false rest
  | [] => !owed

/-- A text that escapes no half of a surrogate pair alone, so that each character that is read from
it is written in it. -/
def Whole (text : String) : Prop := wholeChars false text.toList = true

instance (text : String) : Decidable (Whole text) :=
  inferInstanceAs (Decidable (wholeChars false text.toList = true))

/-- What an escape `\u` stands for, after these two characters: the character of one unit that is no
half of a pair, or that of the two halves of a pair. -/
inductive Escapes : List Char → Char → List Char → Prop
  | unit {cs rest : List Char} {unit : Nat} (hunit : hexUnit? cs = some (unit, rest))
      (hhigh : isHighUnit unit = false) (hlow : isLowUnit unit = false) :
      Escapes cs (Char.ofNat unit) rest
  | pair {cs between rest : List Char} {high low : Nat}
      (hfirst : hexUnit? cs = some (high, '\\' :: 'u' :: between)) (hhigh : isHighUnit high = true)
      (hsecond : hexUnit? between = some (low, rest)) (hlow : isLowUnit low = true) :
      Escapes cs (Char.ofNat (0x10000 + (high - 0xD800) * 0x400 + (low - 0xDC00))) rest

theorem isHighUnit_of_isLowUnit {n : Nat} (h : isLowUnit n = true) : isHighUnit n = false := by
  simp only [isLowUnit, isHighUnit, Bool.and_eq_true, Bool.and_eq_false_iff, decide_eq_true_eq,
    decide_eq_false_iff_not] at *
  omega

/-- The four digits of a unit stand in front of what follows it. -/
theorem hexUnit?_eq_some {cs rest : List Char} {unit : Nat} :
    hexUnit? cs = some (unit, rest) ↔
      ∃ a b c d, cs = a :: b :: c :: d :: rest ∧ hexUnit? [a, b, c, d] = some (unit, []) := by
  constructor
  · intro h
    unfold hexUnit? at h
    split at h
    · rename_i a b c d after
      refine ⟨a, b, c, d, ?_⟩
      simp only [hexUnit?, Option.bind_eq_bind, Option.bind_eq_some_iff, Option.pure_def,
        Option.some.injEq, Prod.mk.injEq] at h ⊢
      obtain ⟨va, ha, vb, hb, vc, hc, vd, hd, hunit, rfl⟩ := h
      exact ⟨rfl, va, ha, vb, hb, vc, hc, vd, hd, hunit, trivial⟩
    · cases h
  · rintro ⟨a, b, c, d, rfl, h⟩
    simp only [hexUnit?, Option.bind_eq_bind, Option.bind_eq_some_iff, Option.pure_def,
      Option.some.injEq, Prod.mk.injEq] at h ⊢
    obtain ⟨va, ha, vb, hb, vc, hc, vd, hd, hunit, -⟩ := h
    exact ⟨va, ha, vb, hb, vc, hc, vd, hd, hunit, trivial⟩

theorem wholeChars_unit {owed : Bool} {cs rest : List Char} {unit : Nat}
    (hunit : hexUnit? cs = some (unit, rest)) :
    wholeChars owed ('\\' :: 'u' :: cs)
      = (isLowUnit unit == owed && wholeChars (isHighUnit unit) rest) := by
  obtain ⟨a, b, c, d, rfl, hdigits⟩ := hexUnit?_eq_some.mp hunit
  rw [wholeChars, hdigits]

/-- A half to which the second one is owed has the escape of that one behind it. -/
theorem escape_of_owed {cs : List Char} (h : wholeChars true cs = true) :
    ∃ between low rest, cs = '\\' :: 'u' :: between ∧ hexUnit? between = some (low, rest) := by
  unfold wholeChars at h
  split at h
  · rename_i a b c d rest
    split at h
    · rename_i low after hlow
      refine ⟨_, low, rest, rfl, hexUnit?_eq_some.mpr ⟨a, b, c, d, rfl, ?_⟩⟩
      obtain ⟨_, _, _, _, hfour, -⟩ := hexUnit?_eq_some.mp hlow
      cases hfour
      exact hlow
    · cases h
  all_goals cases h

/-- In a whole text no escape is replaced, and what follows it is whole. -/
theorem escapes_of_whole {cs rest : List Char} {c : Char}
    (h : wholeChars false ('\\' :: 'u' :: cs) = true)
    (hread : unicodeEscape? cs = some (c, rest)) :
    Escapes cs c rest ∧ wholeChars false rest = true := by
  simp only [unicodeEscape?, Option.bind_eq_bind, Option.bind_eq_some_iff] at hread
  obtain ⟨⟨unit, after⟩, hunit, hread⟩ := hread
  rw [wholeChars_unit hunit, Bool.and_eq_true, beq_iff_eq] at h
  obtain ⟨hsingle, hwhole⟩ := h
  cases hhigh : isHighUnit unit with
  | false =>
    rw [hhigh] at hwhole
    simp only [hhigh, Bool.false_eq_true, if_false, unitChar, hsingle, Bool.or_self, Option.pure_def,
      Option.some.injEq, Prod.mk.injEq] at hread
    obtain ⟨rfl, rfl⟩ := hread
    exact ⟨.unit hunit hhigh hsingle, hwhole⟩
  | true =>
    rw [hhigh] at hwhole
    obtain ⟨between, low, last, rfl, hlow⟩ := escape_of_owed hwhole
    rw [wholeChars_unit hlow, Bool.and_eq_true, beq_iff_eq] at hwhole
    obtain ⟨hsecond, hrest⟩ := hwhole
    rw [isHighUnit_of_isLowUnit hsecond] at hrest
    simp only [hhigh, if_true, hlow, hsecond, Option.pure_def, Option.some.injEq,
      Prod.mk.injEq] at hread
    obtain ⟨rfl, rfl⟩ := hread
    exact ⟨.pair hunit hhigh hlow hsecond, hrest⟩

theorem wholeChars_cons {c : Char} {cs : List Char} (hc : c ≠ '\\') :
    wholeChars false (c :: cs) = wholeChars false cs := by
  rw [wholeChars]
  · rfl
  all_goals simp [hc]

theorem wholeChars_of_escape {cs rest : List Char} {c : Char}
    (h : wholeChars false ('\\' :: cs) = true) (hread : escape? cs = some (c, rest)) :
    wholeChars false rest = true := by
  unfold escape? at hread
  split at hread
  case h_9 => exact (escapes_of_whole h hread).2
  case h_10 => cases hread
  all_goals
    cases hread
    simpa [wholeChars] using h

/-- What follows a string of a whole text is whole. -/
theorem wholeChars_of_stringBody {fuel : Nat} {read cs rest : List Char} {text : String}
    (h : wholeChars false cs = true) (hread : stringBody? fuel read cs = some (text, rest)) :
    wholeChars false rest = true := by
  induction fuel generalizing read cs with
  | zero => cases hread
  | succ fuel ih =>
    cases cs with
    | nil => cases hread
    | cons c cs =>
      rw [stringBody?] at hread
      split at hread
      · rename_i hquote
        cases hread
        rwa [hquote, wholeChars_cons (by decide)] at h
      split at hread
      · rename_i hescape
        subst hescape
        split at hread
        · rename_i d after hescape
          exact ih (wholeChars_of_escape h hescape) hread
        · cases hread
      · rename_i hplain
        split at hread
        · cases hread
        · rw [wholeChars_cons hplain] at h
          exact ih h hread

end ApiClients.Json
