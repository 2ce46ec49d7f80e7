import ApiClients.Text.Digit
import ApiClients.Text.Letter

/-!
# Status codes

A key of a response map is `default`, a code of three digits of which the first is 1 to 5, or a
range such as `4XX`; letters may have either case, digits may be of any script, and one line feed
may follow.  A code in the 200s, or the range of them, is a success.
-/

namespace ApiClients.StatusCode

open ApiClients.Text

/-- Whether characters spell an ASCII word whatever their case. -/
def spells (word cs : List Char) : Bool := cs.map lowerAscii == word

/-- Whether characters are a status code and no more. -/
def matchesGrammar (cs : List Char) : Bool :=
  spells "default".toList cs
    || match cs with
      | [a, b, c] =>
        ('1' ≤ a && a ≤ '5') && ((isDecimal b && isDecimal c) || spells ['x', 'x'] [b, c])
      | _ => false

/-- The characters without one line feed at their end. -/
def dropLineFeed (cs : List Char) : List Char :=
  if cs.getLast? = some '\n' then cs.dropLast else cs

def isAccepted (code : String) : Bool :=
  matchesGrammar code.toList || matchesGrammar (dropLineFeed code.toList)

/-- Whether a code stands for success (`is_success_status_code`): an explicit code in the 200s, or
the range of them. -/
def isSuccess (code : String) : Bool :=
  match code.toList with
  | [a, b, c] => a == '2' && ((isDigit b && isDigit c) || spells ['x', 'x'] [b, c])
  | _ => false

def isDefault (code : String) : Bool := spells "default".toList code.toList

/-- How specific a code is (`_specificity`), the most specific first: explicit codes by their
number, then ranges, then the default. -/
def specificity (code : String) : Nat × Nat :=
  if allDigits code.toList then (0, decimalNumber code.toList)
  else if isDefault code then (2, 0)
  else (1, 0)

/-- Whether the first of two specificities is the greater one. -/
def moreSpecific (a b : Nat × Nat) : Bool := a.1 < b.1 || (a.1 == b.1 && a.2 < b.2)

/-- The most specific of some codes.  Where several are equally specific `min` may find any of them
in a set; here it is the first. -/
def mostSpecific? : List String → Option String
  | [] => none
  | code :: rest =>
    match mostSpecific? rest with
    | none => some code
    | some best =>
      if moreSpecific (specificity best) (specificity code) then some best else some code

end ApiClients.StatusCode
