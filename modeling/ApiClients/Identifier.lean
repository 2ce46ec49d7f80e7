import ApiClients.Text.Blank
import ApiClients.Text.Letter

/-!
# Identifiers and their casing

A source name becomes an identifier of the target language in one of three casings.  All of them
go through the snake form, in which words are separated by single underscores and written in lower
case; the other two capitalize words and close them up.

The snake form is made in passes over the characters: separators become underscores, an underscore
goes between an acronym and the word after it (`HTTPResponse`), another between a lower-case letter
or digit and a capital (`petId`), runs of underscores collapse, and the rest is lower case.  Word
limits are found at ASCII letters only; separators and lower case are those of all scripts.
-/

namespace ApiClients.Identifier

open ApiClients.Text

/-! ### Passes over the characters -/

/-- Hyphens, full stops and blanks separate words as underscores do. -/
def separatorToUnderscore (c : Char) : Char :=
  if c = '-' || c = '.' || isBlank c then '_' else c

/-- An underscore between a capital and a capitalized word that follows it. -/
def splitAcronyms : List Char → List Char
  | a :: b :: c :: rest =>
    if isUpperAscii a && isUpperAscii b && isLowerAscii c then
      a :: '_' :: b :: c :: splitAcronyms rest
    else a :: splitAcronyms (b :: c :: rest)
  | cs => cs

/-- An underscore between a lower-case letter or a digit and a capital that follows it. -/
def splitCapitals : List Char → List Char
  | a :: b :: rest =>
    if (isLowerAscii a || isDigitAscii a) && isUpperAscii b then
      a :: '_' :: b :: splitCapitals rest
    else a :: splitCapitals (b :: rest)
  | cs => cs

def collapseUnderscores : List Char → List Char
  | a :: b :: rest =>
    if a = '_' && b = '_' then collapseUnderscores (b :: rest)
    else a :: collapseUnderscores (b :: rest)
  | cs => cs

def snakeChars (cs : List Char) : List Char :=
  lowerChars (collapseUnderscores (splitCapitals (splitAcronyms (cs.map separatorToUnderscore))))

/-- The words of the snake form, an empty one for an underscore at either end. -/
def wordChars (cs : List Char) : List (List Char) := (snakeChars cs).splitOn '_'

/-- The camel form: the first word as it is and the others capitalized, closed up, behind the
underscore that the snake form starts with. -/
def camelChars (cs : List Char) : List Char :=
  let lead := (snakeChars cs).takeWhile (· == '_')
  match (wordChars cs).filter (! ·.isEmpty) with
  | [] => lead
  | first :: others => lead ++ first ++ others.flatMap capitalizeChars

def pascalChars (cs : List Char) : List Char := (wordChars cs).flatMap capitalizeChars

def isIdentifierChar (c : Char) : Bool :=
  isLowerAscii c || isUpperAscii c || isDigitAscii c || c == '_'

/-- An identifier close to the given characters: an underscore for each character that may not
stand in one, and one in front of a digit. -/
def normalizeChars (cs : List Char) : List Char :=
  match cs.map fun c => if isIdentifierChar c then c else '_' with
  | [] => []
  | c :: rest => if isDigitAscii c then '_' :: c :: rest else c :: rest

/-! ### Texts -/

/-- The snake form of a text (`snakecase`): `getHTTPResponse` is `get_http_response`. -/
def snake (text : String) : String := String.ofList (snakeChars text.toList)

/-- The camel form of a text (`camelcase`): `get_http_response` is `getHttpResponse`. -/
def camel (text : String) : String := String.ofList (camelChars text.toList)

/-- The Pascal form of a text (`pascalcase`): `get_http_response` is `GetHttpResponse`. -/
def pascal (text : String) : String := String.ofList (pascalChars text.toList)

/-- A text as an identifier with its casing kept (`normalize_identifier`): `1st-pet` is
`_1st_pet`. -/
def normalize (text : String) : String := String.ofList (normalizeChars text.toList)

/-- The Pascal form of the identifier close to a text. -/
def pascalNormalized (text : String) : String := pascal (normalize text)

/-- The casings that a target language chooses from. -/
inductive Casing where
  | camel
  | pascal
  | snake
  deriving DecidableEq, Repr, Inhabited

def Casing.apply : Casing → String → String
  | .camel => Identifier.camel
  | .pascal => Identifier.pascal
  | .snake => Identifier.snake

end ApiClients.Identifier
