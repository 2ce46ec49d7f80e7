import ApiClients.Text.Ranges
import ApiClients.Text.HiddenTables

/-!
# Quoted texts in messages

A text quoted for a reader stands between single quotes, or between double quotes when it holds a
single quote and no double one.  The quote itself, backslashes and characters without a visible
form are escaped, with the fewest hexadecimal digits of 2, 4 or 8 that hold the code point.
-/

namespace ApiClients.Text

/-- A number in lower-case hexadecimal digits, filled up with zeros to a width. -/
def hex (width n : Nat) : List Char :=
  let digits := Nat.toDigits 16 n
  List.replicate (width - digits.length) '0' ++ digits

def isHidden (c : Char) : Bool :=
  if c.toNat < 128 then c.toNat < 32 || c.toNat == 127 else inRanges hiddenRanges c

/-- A character inside quotes of the given kind. -/
def quoteChar (quote : Char) (c : Char) : List Char :=
  if c = quote || c = '\\' then ['\\', c]
  else if c = '\n' then ['\\', 'n']
  else if c = '\r' then ['\\', 'r']
  else if c = '\t' then ['\\', 't']
  else if isHidden c then
    let n := c.toNat
    if n < 0x100 then '\\' :: 'x' :: hex 2 n
    else if n < 0x10000 then '\\' :: 'u' :: hex 4 n
    else '\\' :: 'U' :: hex 8 n
  else [c]

def singleQuote : Char := Char.ofNat 39

def doubleQuote : Char := Char.ofNat 34

/-- A text as it is quoted in messages. -/
def quoted (text : String) : String :=
  let cs := text.toList
  let quote := if cs.contains singleQuote && !cs.contains doubleQuote then doubleQuote
    else singleQuote
  String.ofList (quote :: cs.flatMap (quoteChar quote) ++ [quote])

end ApiClients.Text
