import ApiClients.Json.Writer

/-!
# JSON values as plain text

The text of a value where it becomes part of a name, a message or a table cell: a string stands for
itself, and other values have a notation of their own, in which strings are quoted.
-/

namespace ApiClients.Json

open ApiClients.Text

def plainReals : DecimalLayout := { reals with infinity := "inf", notANumber := "nan" }

mutual
def nested : Json → String
  | .null => "None"
  | .bool b => if b then "True" else "False"
  | .int n => toString n
  | .real x => plainReals.write x
  | .str s => quoted s
  | .arr items => "[" ++ String.intercalate ", " (nestedItems items) ++ "]"
  | .obj members => "\x7b" ++ String.intercalate ", " (nestedMembers members) ++ "\x7d"

def nestedItems : List Json → List String
  | [] => []
  | v :: rest => nested v :: nestedItems rest

def nestedMembers : List (String × Json) → List String
  | [] => []
  | (k, v) :: rest => (quoted k ++ ": " ++ nested v) :: nestedMembers rest
end

def plain : Json → String
  | .str s => s
  | v => nested v

end ApiClients.Json
