import ApiClients.Entries
import ApiClients.Failure
import ApiClients.Json.Order
import ApiClients.Json.Plain
import ApiClients.Text.Ranges

/-!
# Reaching into a document

How the parts of a document are taken when their kind is not known: a missing member counts as null,
a value that is not given as an empty list or object, and a value of a kind that cannot be taken
apart is malformed.  A reference is a pointer whose segments are followed from the top of the
document.
-/

namespace ApiClients.Json

/-- The member of an object under a key, or null. -/
def field (members : List (String × Json)) (key : String) : Json :=
  (Entries.get? members key).getD .null

/-- Whether a member is there and given. -/
def flag (members : List (String × Json)) (key : String) : Bool := (field members key).given

/-- Whether null is admitted, in either spelling. -/
def admitsNull (members : List (String × Json)) : Bool :=
  flag members "nullable" || flag members "x-nullable"

/-- The items of a list that may be missing.  An object is taken as the list of its keys and a text
as that of its characters. -/
def listed (value : Json) : Except Failure (List Json) :=
  if !value.given then .ok []
  else
    match value with
    | .arr items => .ok items
    | .obj members => .ok (members.map fun m => .str m.1)
    | .str s => .ok (s.toList.map fun c => .str (String.singleton c))
    | _ => .error .malformed

/-- The members of an object that may be missing. -/
def fields (value : Json) : Except Failure (List (String × Json)) :=
  if !value.given then .ok []
  else
    match value with
    | .obj members => .ok members
    | _ => .error .malformed

def membersOf : Json → Except Failure (List (String × Json))
  | .obj members => .ok members
  | _ => .error .malformed

/-! ### Definitions -/

/-- An entry of a list of pairs: a key, which must be one that can be looked up, and a value.
Whatever can be listed is a pair if it has two parts. -/
def pair (index : Nat) (value : Json) : Except Failure (Json × Json) := do
  let parts ← match value with
    | .arr items => pure items
    | .obj members => pure (members.map fun m => .str m.1)
    | .str s => pure (s.toList.map fun c => .str (String.singleton c))
    | _ => .error .malformed
  match parts with
  | [key, value] => if key.isKey then .ok (key, value) else .error .malformed
  | _ => .error (.notAPair index parts.length)

/-- The entries of a list of pairs from an index on, put behind those before.  Keys that compare
equal are one key. -/
def pairs (index : Nat) (entries : List (Json × Json)) :
    List Json → Except Failure (List (Json × Json))
  | [] => .ok entries
  | value :: rest => do
    let (key, value) ← pair index value
    pairs (index + 1) (Entries.putAlike equal key value entries) rest

/-- A map that may be missing, given as an object or as a list of pairs. -/
def mapping (value : Json) : Except Failure (List (Json × Json)) :=
  if !value.given then .ok []
  else
    match value with
    | .obj members => .ok (members.map fun (key, value) => (.str key, value))
    | .arr items => pairs 0 [] items
    | .str s => pairs 0 [] (s.toList.map fun c => .str (String.singleton c))
    | _ => .error .malformed

/-- The definitions of schemas in a document by name: under `definitions`, or else under the schemas
of `components`. -/
def definitions (document : Json) : Except Failure (List (Json × Json)) := do
  let members ← membersOf document
  if flag members "definitions" then mapping (field members "definitions")
  else
    match Entries.get? members "components" with
    | none => .ok []
    | some components => mapping (field (← membersOf components) "schemas")

/-! ### References -/

def refSegments (ref : String) : List String := Text.split '/' ref

/-- The name at the end of a reference (`_extract_ref_name`). -/
def refName (ref : String) : String := (refSegments ref).getLast?.getD ""

/-- The value reached from a value along some segments, null where one is missing and an empty
object where there is nothing to look into. -/
def follow : Json → List String → Json
  | value, [] => value
  | .obj members, segment :: rest => follow (field members segment) rest
  | _, _ :: _ => .obj []

/-- The value that a reference points to (`_resolve_reference`); an empty object if none is given
there.  The first segment stands for the document. -/
def target (document : Json) (ref : String) : Json :=
  let value := follow document ((refSegments ref).drop 1)
  if value.given then value else .obj []

/-- A value with the reference in its place followed once, if it is one. -/
def dereference (document : Json) (value : Json) : Except Failure Json :=
  match value with
  | .obj members =>
    match Entries.get? members "$ref" with
    | none => .ok value
    | some (.str ref) => .ok (target document ref)
    | some _ => .error .malformed
  | _ => .ok value

/-! ### Size -/

mutual
def count : Json → Nat
  | .arr items => countItems items + 1
  | .obj members => countMembers members + 1
  | _ => 1

def countItems : List Json → Nat
  | [] => 0
  | v :: rest => count v + countItems rest

def countMembers : List (String × Json) → Nat
  | [] => 0
  | (_, v) :: rest => count v + countMembers rest
end

end ApiClients.Json
