import ApiClients.Entries
import ApiClients.Json

/-!
# When JSON values compare equal, and their order

Two values compare equal when they stand for the same thing: numbers by value whatever their
spelling, with `true` and `false` as 1 and 0, and objects whatever the order of their members.
`Json.normal` takes each value to one form of all values that compare equal to it, so comparison
is equality of normal forms.

Numbers are ordered by value, texts by code point and arrays item by item; other values have no
order, so sorting may fail (`sort?`).
-/

namespace ApiClients.Json

/-! ### Normal forms -/

mutual
def normal : Json → Json
  | .bool b => .int (if b then 1 else 0)
  | .real x =>
    match x.toInt? with
    | some n => .int n
    | none => .real x
  | .arr items => .arr (normalItems items)
  | .obj members => .obj (normalMembers members)
  | v => v

def normalItems : List Json → List Json
  | [] => []
  | v :: rest => normal v :: normalItems rest

def normalMembers : List (String × Json) → List (String × Json)
  | [] => []
  | (k, v) :: rest => Entries.insertByKey (k, normal v) (normalMembers rest)
end

def equal (a b : Json) : Bool := decide (a.normal = b.normal)

/-- Whether a value can be looked up in a table: arrays and objects cannot. -/
def isKey : Json → Bool
  | .arr _ => false
  | .obj _ => false
  | _ => true

/-! ### Order -/

mutual
/-- Whether a value in normal form is below another, if the two have an order. -/
def less? : Json → Json → Option Bool
  | .int a, .int b => some (decide (a < b))
  | .int a, .real b => some (Binary64.lessInt a b)
  | .real a, .int b => some (Binary64.intLess a b)
  | .real a, .real b => some (Binary64.less a b)
  | .str a, .str b => some (decide (a < b))
  | .arr a, .arr b => lessItems? a b
  | _, _ => none

/-- The order of two lists is that of the first items that differ; a list is above those that it
starts with. -/
def lessItems? : List Json → List Json → Option Bool
  | [], [] => some false
  | [], _ :: _ => some true
  | _ :: _, [] => some false
  | a :: as, b :: bs => if a = b then lessItems? as bs else less? a b
end

/-- A value put into a sorted list behind the values that are not above it. -/
def insertSorted? (value : Json) : List Json → Option (List Json)
  | [] => some [value]
  | v :: rest =>
    match less? value v with
    | none => none
    | some true => some (value :: v :: rest)
    | some false => (insertSorted? value rest).map (v :: ·)

/-- The normal forms of the values in ascending order; fails where two values without an order
meet. -/
def sort? (values : List Json) : Option (List Json) :=
  values.foldl (fun sorted v => sorted.bind (insertSorted? v.normal)) (some [])

end ApiClients.Json
