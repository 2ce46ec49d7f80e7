import ApiClients.Json
import ApiClients.Decimal.Shortest
import ApiClients.Text.Quoted

/-!
# Writing JSON

JSON texts in ASCII: characters outside the printable ASCII range are written as escapes of UTF-16
code units.  `Json.compact` writes a value on one line with a blank after each comma and colon,
`Json.indented` with one member or item a line.
-/

namespace ApiClients.Json

open ApiClients.Text

/-- Numbers that are not integers: written out from `0.0001` to below `10 ^ 16`, and with an
exponent of at least two digits otherwise. -/
def reals : DecimalLayout where
  leastPlain := -4
  greatestPlain := 15
  exponentMark := "e"
  exponentDigits := 2
  wholeEnd := ".0"
  infinity := "Infinity"
  notANumber := "NaN"

def unitEscape (n : Nat) : List Char := '\\' :: 'u' :: hex 4 n

def escapeChar (c : Char) : List Char :=
  let n := c.toNat
  if c = '"' || c = '\\' then ['\\', c]
  else if c = '\n' then ['\\', 'n']
  else if c = '\r' then ['\\', 'r']
  else if c = '\t' then ['\\', 't']
  else if n = 8 then ['\\', 'b']
  else if n = 12 then ['\\', 'f']
  else if 32 ≤ n && n < 127 then [c]
  else if n < 0x10000 then unitEscape n
  else
    let m := n - 0x10000
    unitEscape (0xD800 + m / 0x400) ++ unitEscape (0xDC00 + m % 0x400)

def stringText (s : String) : String :=
  String.ofList (doubleQuote :: s.toList.flatMap escapeChar ++ [doubleQuote])

def scalarText : Json → String
  | .null => "null"
  | .bool b => if b then "true" else "false"
  | .int n => toString n
  | .real x => reals.write x
  | .str s => stringText s
  | _ => ""

mutual
def compact : Json → String
  | .arr items => "[" ++ String.intercalate ", " (compactItems items) ++ "]"
  | .obj members => "\x7b" ++ String.intercalate ", " (compactMembers members) ++ "\x7d"
  | v => scalarText v

def compactItems : List Json → List String
  | [] => []
  | v :: rest => compact v :: compactItems rest

def compactMembers : List (String × Json) → List String
  | [] => []
  | (k, v) :: rest => (stringText k ++ ": " ++ compact v) :: compactMembers rest
end

/-- The start of a line at a depth, two blanks for each level. -/
def lineStart (depth : Nat) : String :=
  "\n" ++ String.ofList (List.replicate (2 * depth) ' ')

/-- Lines between brackets at a depth; brackets with nothing between them stay together. -/
def block (opening closing : String) (depth : Nat) (lines : List String) : String :=
  match lines with
  | [] => opening ++ closing
  | _ =>
    opening ++ lineStart (depth + 1)
      ++ String.intercalate ("," ++ lineStart (depth + 1)) lines ++ lineStart depth ++ closing

mutual
/-- A value with one item or member a line, at a depth. -/
def indentedAt (depth : Nat) : Json → String
  | .arr items => block "[" "]" depth (indentedItems (depth + 1) items)
  | .obj members => block "\x7b" "\x7d" depth (indentedMembers (depth + 1) members)
  | v => scalarText v

def indentedItems (depth : Nat) : List Json → List String
  | [] => []
  | v :: rest => indentedAt depth v :: indentedItems depth rest

def indentedMembers (depth : Nat) : List (String × Json) → List String
  | [] => []
  | (k, v) :: rest =>
    (stringText k ++ ": " ++ indentedAt depth v) :: indentedMembers depth rest
end

/-- A value with one item or member a line. -/
def indented (value : Json) : String := indentedAt 0 value

end ApiClients.Json
