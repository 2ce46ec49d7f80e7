import ApiClients.Decimal.Binary64

/-!
# The shortest decimal that reads back

`shortest m q` gives the decimal digits and the power of ten of the shortest decimal that rounds to
`m · 2 ^ q`, and of the shortest ones the nearest.  The search is in exact integer arithmetic: the
decimals with `n` digits form a grid, and if any point of a grid rounds to the number then one of
the two grid points around the number does.

`DecimalLayout` says how digits become text: which exponents are written out, how the exponent is
marked, and how the special values are called.
-/

namespace ApiClients

namespace Decimal

/-- Decimal digits with a power of ten: `digits · 10 ^ power`. -/
structure Scientific where
  digits : Nat
  power : Int
  deriving DecidableEq, Repr, Inhabited

/-- `num / den` divided by `10 ^ p`, as numerator and denominator. -/
def shifted (num den : Nat) (p : Int) : Nat × Nat :=
  if 0 ≤ p then (num, den * Nat.pow 10 p.toNat) else (num * Nat.pow 10 (-p).toNat, den)

def ratioLe (a b c d : Nat) : Bool := decide (a * d ≤ c * b)

def ratioLt (a b c d : Nat) : Bool := decide (a * d < c * b)

/-- The interval of reals that round to `m · 2 ^ q`, in quarters of `2 ^ q`: the lower gap is half
as wide at a power of two, and the ends belong to the interval when the mantissa is even. -/
structure Interval where
  low : Nat
  high : Nat
  ends : Bool
  unitNum : Nat
  unitDen : Nat

/-- The interval of a finite number that is not zero. -/
def interval (m : Nat) (q : Int) : Interval where
  low := if 2 * m = Binary64.mantissaBound ∧ -1074 < q then 4 * m - 1 else 4 * m - 2
  high := 4 * m + 2
  ends := m % 2 == 0
  unitNum := if 0 ≤ q then Nat.pow 2 q.toNat else 1
  unitDen := 4 * if 0 ≤ q then 1 else Nat.pow 2 (-q).toNat

/-- Whether the decimal `c · 10 ^ p` lies in the interval. -/
def Interval.holds (i : Interval) (c : Nat) (p : Int) : Bool :=
  let (num, den) := if 0 ≤ p then (c * Nat.pow 10 p.toNat, 1) else (c, Nat.pow 10 (-p).toNat)
  let le (a b c d : Nat) : Bool := if i.ends then ratioLe a b c d else ratioLt a b c d
  le (i.low * i.unitNum) i.unitDen num den && le num den (i.high * i.unitNum) i.unitDen

/-- The least `k` with `num / den < 10 ^ k`, counted up from a lower estimate. -/
def magnitude (num den : Nat) : Nat → Int → Int
  | 0, k => k
  | fuel + 1, k =>
    let (n, d) := shifted num den k
    if n < d then k else magnitude num den fuel (k + 1)

/-- The better of the two grid points around `num / den` on the grid `10 ^ p`, if one of them lies
in the interval: the nearer one, and the even one of two equally near. -/
def nearest? (i : Interval) (num den : Nat) (p : Int) : Option Nat :=
  let (n, d) := shifted num den p
  let c := n / d
  match i.holds c p && decide (0 < c), i.holds (c + 1) p with
  | true, true =>
    let twice := 2 * (n % d)
    some (if twice < d then c else if d < twice then c + 1 else if c % 2 = 0 then c else c + 1)
  | true, false => some c
  | false, true => some (c + 1)
  | false, false => none

/-- The first grid, from one digit upwards, that has a point in the interval. -/
def search (i : Interval) (num den : Nat) (k : Int) : Nat → Nat → Scientific
  | 0, n => let p := k - n; let (a, b) := shifted num den p; ⟨Binary64.roundDiv a b, p⟩
  | fuel + 1, n =>
    match nearest? i num den (k - n) with
    | some c => ⟨c, k - n⟩
    | none => search i num den k fuel (n + 1)

/-- The shortest decimal that rounds to `m · 2 ^ q`, for a mantissa that is not zero; seventeen
digits are always enough. -/
def shortest (m : Nat) (q : Int) : Scientific :=
  let (num, den) := if 0 ≤ q then (m * Nat.pow 2 q.toNat, 1) else (m, Nat.pow 2 (-q).toNat)
  let estimate : Int := ((Nat.log2 m : Int) + q) * 1233 / 4096 - 1
  let k := magnitude num den 5 estimate
  search (interval m q) num den k 17 1

/-- The digits of a number without the zeros at its end, and how many zeros there were. -/
def dropZeros : Nat → Nat → Nat × Nat
  | 0, n => (n, 0)
  | fuel + 1, n =>
    if n % 10 = 0 ∧ n ≠ 0 then
      let (rest, count) := dropZeros fuel (n / 10)
      (rest, count + 1)
    else (n, 0)

end Decimal

/-- How a decimal is written. -/
structure DecimalLayout where
  leastPlain : Int
  greatestPlain : Int
  exponentMark : String
  exponentDigits : Nat
  wholeEnd : String
  infinity : String
  notANumber : String

namespace DecimalLayout

def zeros (n : Nat) : String := String.ofList (List.replicate n '0')

/-- An integer with its sign always written and at least the layout's number of digits. -/
def exponentText (layout : DecimalLayout) (e : Int) : String :=
  let digits := toString e.natAbs
  (if e < 0 then "-" else "+") ++ zeros (layout.exponentDigits - digits.length) ++ digits

/-- The digits `d₁ d₂ …` of `digits · 10 ^ power`, written out or with an exponent. -/
def positive (layout : DecimalLayout) (value : Decimal.Scientific) : String :=
  let (digits, dropped) := Decimal.dropZeros 400 value.digits
  let text := toString digits
  let count := text.length
  let point : Int := (count : Int) + dropped + value.power
  let exponent := point - 1
  if layout.leastPlain ≤ exponent ∧ exponent ≤ layout.greatestPlain then
    if point ≤ 0 then "0." ++ zeros (-point).toNat ++ text
    else if (count : Int) ≤ point then text ++ zeros (point.toNat - count) ++ layout.wholeEnd
    else
      String.ofList (text.toList.take point.toNat) ++ "."
        ++ String.ofList (text.toList.drop point.toNat)
  else
    let head := String.ofList (text.toList.take 1)
    let tail := String.ofList (text.toList.drop 1)
    (if tail.isEmpty then head else head ++ "." ++ tail)
      ++ layout.exponentMark ++ layout.exponentText exponent

/-- The text of a number: the shortest decimal that reads back as it. -/
def write (layout : DecimalLayout) : Binary64 → String
  | .nan => layout.notANumber
  | .infinite negative => (if negative then "-" else "") ++ layout.infinity
  | .finite negative m q =>
    (if negative then "-" else "")
      ++ (if m = 0 then "0" ++ layout.wholeEnd else layout.positive (Decimal.shortest m q))

end DecimalLayout

end ApiClients
