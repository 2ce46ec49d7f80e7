import ApiClients.Text.Ranges
import ApiClients.Text.LetterTables

/-!
# Letters and their case

The case mappings of all scripts, for single characters and for texts.  ASCII letters are mapped by
rule and the other letters by table.  One letter depends on its neighbours: the capital sigma
becomes a final sigma at the end of a word, that is, after a letter with case and before none.
-/

namespace ApiClients.Text

/-! ### ASCII letters -/

def isUpperAscii (c : Char) : Bool := 'A' ≤ c && c ≤ 'Z'

def isLowerAscii (c : Char) : Bool := 'a' ≤ c && c ≤ 'z'

def isDigitAscii (c : Char) : Bool := '0' ≤ c && c ≤ '9'

/-- The lower case of an ASCII letter; any other character is itself. -/
def lowerAscii (c : Char) : Char := if isUpperAscii c then Char.ofNat (c.toNat + 32) else c

/-- The upper case of an ASCII letter; any other character is itself. -/
def upperAscii (c : Char) : Char := if isLowerAscii c then Char.ofNat (c.toNat - 32) else c

/-! ### Single characters -/

/-- The image of a character under runs of a case table. -/
def mapByRuns (runs : List (Nat × Nat × Nat × Nat)) (c : Char) : Option Char :=
  let n := c.toNat
  (runs.find? fun (first, last, step, _) =>
      first ≤ n && n ≤ last && (n - first) % step == 0).map
    fun (first, _, _, target) => Char.ofNat (target + (n - first))

/-- The image of a character under the expansions of a case table. -/
def mapByExpansions (expansions : List (Nat × List Nat)) (c : Char) : Option (List Char) :=
  (expansions.find? fun (n, _) => n == c.toNat).map fun (_, image) => image.map Char.ofNat

/-- The image of a character under a case table, if the table has one. -/
def mapByTable (runs : List (Nat × Nat × Nat × Nat)) (expansions : List (Nat × List Nat))
    (c : Char) : Option (List Char) :=
  (mapByExpansions expansions c).or ((mapByRuns runs c).map fun d => [d])

/-- The lower case of a character, wherever it stands. -/
def lowerOf (c : Char) : List Char :=
  if c.toNat < 128 then [lowerAscii c]
  else (mapByTable lowerRuns lowerExpansions c).getD [c]

/-- The upper case of a character. -/
def upperOf (c : Char) : List Char :=
  if c.toNat < 128 then [upperAscii c]
  else (mapByTable upperRuns upperExpansions c).getD [c]

/-- The form of a character at the head of a capitalized word. -/
def titleOf (c : Char) : List Char :=
  if c.toNat < 128 then [upperAscii c]
  else (mapByTable titleRuns titleExpansions c).getD (upperOf c)

def isCased (c : Char) : Bool :=
  if c.toNat < 128 then isUpperAscii c || isLowerAscii c else inRanges casedRanges c

def isSkipped (c : Char) : Bool := inRanges skippedRanges c

/-! ### Texts -/

def startsCased (cs : List Char) : Bool :=
  match cs.dropWhile isSkipped with
  | [] => false
  | c :: _ => isCased c

/-- The lower case of the characters that follow `before`, which is given backwards. -/
def lowerFrom (before : List Char) : List Char → List Char
  | [] => []
  | c :: rest =>
    let image :=
      if c = 'Σ' then
        if startsCased before && !startsCased rest then ['ς'] else ['σ']
      else lowerOf c
    image ++ lowerFrom (c :: before) rest

/-- The lower case of a list of characters. -/
def lowerChars (cs : List Char) : List Char := lowerFrom [] cs

/-- The upper case of a list of characters. -/
def upperChars (cs : List Char) : List Char := cs.flatMap upperOf

/-- A word with its first character in title case and the others in lower case. -/
def capitalizeChars : List Char → List Char
  | [] => []
  | c :: rest => titleOf c ++ lowerFrom [c] rest

/-- The lower case of a text. -/
def lower (text : String) : String := String.ofList (lowerChars text.toList)

/-- The upper case of a text. -/
def upper (text : String) : String := String.ofList (upperChars text.toList)

end ApiClients.Text
