import ApiClients.Text.Ranges

/-!
# Blank characters

The characters that count as blank: the white space of all scripts and the four information
separators.
-/

namespace ApiClients.Text

def blankRanges : List (Nat × Nat) :=
  [(0x9, 0xD), (0x1C, 0x20), (0x85, 0x85), (0xA0, 0xA0), (0x1680, 0x1680), (0x2000, 0x200A),
   (0x2028, 0x2029), (0x202F, 0x202F), (0x205F, 0x205F), (0x3000, 0x3000)]

def isBlank (c : Char) : Bool := inRanges blankRanges c

/-- A list of characters without the blanks at its end. -/
def stripEnd (cs : List Char) : List Char := (cs.reverse.dropWhile isBlank).reverse

/-- A list of characters without the blanks at both ends. -/
def stripBoth (cs : List Char) : List Char := stripEnd (cs.dropWhile isBlank)

end ApiClients.Text
