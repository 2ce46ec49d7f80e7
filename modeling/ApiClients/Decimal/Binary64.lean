/-!
# Exact binary64 numbers

A binary floating-point number of 64 bits, kept as what it stands for and not as a bit pattern:
a finite number is `± mantissa · 2 ^ exponent` with the mantissa below `2 ^ 53` and the exponent
at least `-1074`, and the mantissa at least `2 ^ 52` unless the exponent is `-1074`.  Each number
has one such form, so equality of forms is equality of numbers, the sign of zero apart.

`ofDecimal` rounds a decimal to the nearest of them, a tie to the even mantissa, in exact integer
arithmetic.
-/

namespace ApiClients

/-- A binary64 number.  All invalid results are one value, `nan`. -/
inductive Binary64 where
  | finite (negative : Bool) (mantissa : Nat) (exponent : Int)
  | infinite (negative : Bool)
  | nan
  deriving DecidableEq, Repr, Inhabited

namespace Binary64

/-- Mantissas are below this number, and at least half of it in the normal range. -/
def mantissaBound : Nat := 9007199254740992

/-- The quotient rounded to the nearest integer, a tie to the even one. -/
def roundDiv (num den : Nat) : Nat :=
  let q := num / den
  let twice := 2 * (num % den)
  if twice < den then q
  else if den < twice then q + 1
  else if q % 2 = 0 then q else q + 1

/-- `num / den` divided by `2 ^ e`, as numerator and denominator. -/
def scaled (num den : Nat) (e : Int) : Nat × Nat :=
  if 0 ≤ e then (num, den * Nat.pow 2 e.toNat) else (num * Nat.pow 2 (-e).toNat, den)

/-- The binary64 number of the given sign nearest to `num / den`.

The logarithms place the quotient between `2 ^ (k - 1)` and `2 ^ (k + 1)`, so one of two exponents
gives a mantissa of 53 bits; below the normal range the exponent stays at its least value. -/
def ofRatio (negative : Bool) (num den : Nat) : Binary64 :=
  if num = 0 then .finite negative 0 (-1074)
  else
    let k : Int := (Nat.log2 num : Int) - Nat.log2 den
    let low : Int := max (-1074) (k - 53)
    let (n, d) := scaled num den low
    let exponent := if mantissaBound ≤ n / d then low + 1 else low
    let (n, d) := scaled num den exponent
    let m := roundDiv n d
    let (m, exponent) := if m = mantissaBound then (m / 2, exponent + 1) else (m, exponent)
    if 971 < exponent then .infinite negative else .finite negative m exponent

/-- The binary64 number nearest to `± digits · 10 ^ power`.  Decimals far outside the range are
settled by their order of magnitude alone, so a huge power costs nothing. -/
def ofDecimal (negative : Bool) (digits : Nat) (power : Int) : Binary64 :=
  let magnitude : Int := (Nat.log2 digits : Int) / 4 + power
  if digits = 0 then .finite negative 0 (-1074)
  else if 400 < magnitude then .infinite negative
  else if (Nat.log2 digits : Int) + power < -400 then .finite negative 0 (-1074)
  else if 0 ≤ power then ofRatio negative (digits * Nat.pow 10 power.toNat) 1
  else ofRatio negative digits (Nat.pow 10 (-power).toNat)

def isZero : Binary64 → Bool
  | .finite _ m _ => m == 0
  | _ => false

/-- The integer that a number is equal to, if there is one. -/
def toInt? : Binary64 → Option Int
  | .finite negative m e =>
    let signed (n : Nat) : Int := if negative then -n else n
    if 0 ≤ e then some (signed (m * Nat.pow 2 e.toNat))
    else if m % Nat.pow 2 (-e).toNat = 0 then some (signed (m / Nat.pow 2 (-e).toNat))
    else none
  | _ => none

/-- Whether an integer `a` divided by `2 ^ s` is below an integer `b` divided by `2 ^ t`. -/
def ratioLess (a : Int) (s : Nat) (b : Int) (t : Nat) : Bool :=
  decide (a * Int.ofNat (Nat.pow 2 t) < b * Int.ofNat (Nat.pow 2 s))

/-- A finite number as an integer over a power of two. -/
def dyadic (negative : Bool) (m : Nat) (e : Int) : Int × Nat :=
  let signed : Int := if negative then -m else m
  if 0 ≤ e then (signed * Int.ofNat (Nat.pow 2 e.toNat), 0) else (signed, (-e).toNat)

/-- The order of numbers; an invalid number is below nothing and above nothing. -/
def less : Binary64 → Binary64 → Bool
  | .nan, _ => false
  | _, .nan => false
  | .infinite a, .infinite b => a && !b
  | .infinite a, .finite _ _ _ => a
  | .finite _ _ _, .infinite b => !b
  | .finite s m e, .finite t n f =>
    let (a, i) := dyadic s m e
    let (b, j) := dyadic t n f
    ratioLess a i b j

def lessInt (n : Int) : Binary64 → Bool
  | .nan => false
  | .infinite b => !b
  | .finite s m e => let (b, j) := dyadic s m e; ratioLess n 0 b j

def intLess : Binary64 → Int → Bool
  | .nan, _ => false
  | .infinite a, _ => a
  | .finite s m e, n => let (a, i) := dyadic s m e; ratioLess a i n 0

end Binary64

end ApiClients
