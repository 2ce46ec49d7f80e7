/-!
# Kinds of values

The kinds of value that a schema admits, as a set: a schema may name none, one or several.
-/

namespace ApiClients

/-- A kind of value that a schema can name. -/
inductive Kind where
  | string
  | number
  | integer
  | boolean
  | object
  | array
  | file
  | null
  deriving DecidableEq, Repr, Inhabited

namespace Kind

def all : List Kind := [.string, .number, .integer, .boolean, .object, .array, .file, .null]

def word : Kind → String
  | .string => "string"
  | .number => "number"
  | .integer => "integer"
  | .boolean => "boolean"
  | .object => "object"
  | .array => "array"
  | .file => "file"
  | .null => "null"

def label : Kind → String
  | .string => "STRING"
  | .number => "NUMBER"
  | .integer => "INTEGER"
  | .boolean => "BOOLEAN"
  | .object => "OBJECT"
  | .array => "ARRAY"
  | .file => "FILE"
  | .null => "NULL"

def bit : Kind → Nat
  | .string => 1
  | .number => 2
  | .integer => 4
  | .boolean => 8
  | .object => 16
  | .array => 32
  | .file => 64
  | .null => 128

def ofWord? (w : String) : Option Kind := all.find? (·.word == w)

end Kind

/-- A set of kinds (`JsonObjectType`). -/
structure Kinds where
  string : Bool := false
  number : Bool := false
  integer : Bool := false
  boolean : Bool := false
  object : Bool := false
  array : Bool := false
  file : Bool := false
  null : Bool := false
  deriving DecidableEq, Repr, Inhabited

namespace Kinds

def none : Kinds := {}

/-- Whether a kind is in the set. -/
def has (kinds : Kinds) : Kind → Bool
  | .string => kinds.string
  | .number => kinds.number
  | .integer => kinds.integer
  | .boolean => kinds.boolean
  | .object => kinds.object
  | .array => kinds.array
  | .file => kinds.file
  | .null => kinds.null

/-- The set with a kind put in or taken out. -/
def set (kinds : Kinds) (kind : Kind) (present : Bool) : Kinds :=
  match kind with
  | .string => { kinds with string := present }
  | .number => { kinds with number := present }
  | .integer => { kinds with integer := present }
  | .boolean => { kinds with boolean := present }
  | .object => { kinds with object := present }
  | .array => { kinds with array := present }
  | .file => { kinds with file := present }
  | .null => { kinds with null := present }

/-- The set with a kind put in. -/
def insert (kinds : Kinds) (kind : Kind) : Kinds := kinds.set kind true

theorem insert_of_has {kinds : Kinds} {kind : Kind} (h : kinds.has kind = true) :
    kinds.insert kind = kinds := by
  cases kinds
  cases kind <;> simp_all [has, insert, set]

/-- The set with a kind taken out. -/
def erase (kinds : Kinds) (kind : Kind) : Kinds := kinds.set kind false

/-- The set of some kinds. -/
def ofList (kinds : List Kind) : Kinds := kinds.foldl insert none

/-- The kinds in the set. -/
def toList (kinds : Kinds) : List Kind := Kind.all.filter kinds.has

/-- The set as a number, one bit for each kind. -/
def bits (kinds : Kinds) : Nat := (kinds.toList.map Kind.bit).foldl (· + ·) 0

/-- The bit of a kind tells whether it is in the set. -/
theorem bits_div_bit (kinds : Kinds) (kind : Kind) :
    kinds.bits / kind.bit % 2 = 1 ↔ kinds.has kind = true := by
  obtain ⟨string, number, integer, boolean, object, array, file, null⟩ := kinds
  revert string number integer boolean object array file null
  cases kind <;> decide

/-- Sets with one number are one set. -/
theorem bits_inj {kinds others : Kinds} (h : kinds.bits = others.bits) : kinds = others := by
  have hhas : ∀ kind, kinds.has kind = others.has kind := fun kind => by
    rw [Bool.eq_iff_iff, ← bits_div_bit, ← bits_div_bit, h]
  cases kinds
  cases others
  simp only [mk.injEq]
  exact ⟨hhas .string, hhas .number, hhas .integer, hhas .boolean, hhas .object, hhas .array,
    hhas .file, hhas .null⟩

def label (kinds : Kinds) : String :=
  "JsonObjectType." ++
    match kinds.toList with
    | [] => "NONE"
    | members => String.intercalate "|" (members.map Kind.label)

/-- Whether the set is empty or admits objects only. -/
def atMostObject (kinds : Kinds) : Bool :=
  decide (kinds = none) || decide (kinds = ofList [.object])

/-- The word for the one primitive kind that a set stands for, null apart: integers and numbers
together are numbers, and other mixtures stand for none. -/
def primitive? (kinds : Kinds) : Option String :=
  let core := kinds.erase .null
  if core = ofList [.integer, .number] then some "number"
  else if core = ofList [.string] then some "string"
  else if core = ofList [.integer] then some "integer"
  else if core = ofList [.number] then some "number"
  else if core = ofList [.boolean] then some "boolean"
  else Option.none

end Kinds

end ApiClients
