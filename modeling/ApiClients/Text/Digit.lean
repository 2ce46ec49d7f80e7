import ApiClients.Text.Ranges
import ApiClients.Text.DigitTables

/-!
# Digits

A decimal digit of any script has a value from 0 to 9; a digit in the wider sense may also be a
superscript or an enclosed one, which takes no part in decimal numbers.
-/

namespace ApiClients.Text

/-- The value of a decimal digit of any script. -/
def decimalValue? (c : Char) : Option Nat :=
  (decimalRanges.find? fun (first, last) => first ≤ c.toNat && c.toNat ≤ last).map
    fun (first, _) => (c.toNat - first) % 10

def isDecimal (c : Char) : Bool := (decimalValue? c).isSome

def isDigit (c : Char) : Bool := isDecimal c || inRanges otherDigitRanges c

/-- Whether a text consists of digits and is not empty. -/
def allDigits (cs : List Char) : Bool := !cs.isEmpty && cs.all isDigit

/-- The number that decimal digits write; other characters count as zero. -/
def decimalNumber (cs : List Char) : Nat :=
  cs.foldl (fun n c => 10 * n + (decimalValue? c).getD 0) 0

end ApiClients.Text
