import ApiClients.Entries
import ApiClients.Failure
import ApiClients.Json.Order
import ApiClients.Schema.Graph

/-!
# Fingerprints of shapes

The fingerprint of a node is its shape as a finite tree, in which nested type definitions are
referred to by name.  Two nodes have the same shape when their fingerprints are equal.  A shape
that contains itself without passing through a type definition has no fingerprint, nor has one
whose required names cannot be sorted.
-/

namespace ApiClients

/-- What a shape says of itself, apart from the shapes inside it.  Values that are compared by what
they stand for are in normal form.  The kinds stand for their number, which tells sets of kinds
apart (`Kinds.bits_inj`). -/
structure Outline where
  kinds : Kinds
  format : Json
  nullable : Bool
  enumValues : List Json
  required : List Json
  deriving DecidableEq, Repr, Inhabited

/-- A shape as a finite tree. -/
inductive Fingerprint where
  | unsaid
  | allowed (yes : Bool)
  | reference (nullable : Bool) (target : Fingerprint)
  | named (name : Json)
  /-- A shape spelled out, its properties in the order of their names. -/
  | shape (outline : Outline) (items additional : Fingerprint)
      (properties : List (String × Fingerprint))
  deriving Repr, Inhabited

namespace Fingerprint

mutual
def same : Fingerprint → Fingerprint → Bool
  | .unsaid, .unsaid => true
  | .allowed a, .allowed b => a == b
  | .reference n a, .reference m b => n == m && same a b
  | .named a, .named b => decide (a = b)
  | .shape o i a ps, .shape p j b qs =>
    decide (o = p) && same i j && same a b && sameProperties ps qs
  | _, _ => false

def sameProperties : List (String × Fingerprint) → List (String × Fingerprint) → Bool
  | [], [] => true
  | (k, a) :: as, (l, b) :: bs => k == l && same a b && sameProperties as bs
  | _, _ => false
end

mutual
theorem same_iff (a b : Fingerprint) : same a b = true ↔ a = b := by
  cases a <;> cases b <;> simp [same, same_iff, sameProperties_iff, and_assoc]

theorem sameProperties_iff (as bs : List (String × Fingerprint)) :
    sameProperties as bs = true ↔ as = bs := by
  cases as with
  | nil => cases bs <;> simp [sameProperties]
  | cons a as =>
    obtain ⟨k, a⟩ := a
    cases bs with
    | nil => simp [sameProperties]
    | cons b bs =>
      obtain ⟨l, b⟩ := b
      simp [sameProperties, same_iff, sameProperties_iff]
end

instance : DecidableEq Fingerprint := fun a b => decidable_of_iff (same a b = true) (same_iff a b)

end Fingerprint

namespace Graph

/-- What a node says of itself. -/
def outline (node : Node) (required : List Json) : Outline where
  kinds := node.kinds
  format := node.format.normal
  nullable := node.nullable
  enumValues := node.enumValues
  required := required

/-- The fingerprint of a node that is reached through the nodes of a path (`_fingerprint`), all of
which are spelled out around it. -/
def nestedFingerprint (graph : Graph) (path : List NodeId) (top : Bool) (id : NodeId) :
    Except Failure Fingerprint :=
  let node := graph.node id
  if node.reference.isNone && node.isTypeDefinition && !top then
    .ok (.named node.typeName.normal)
  else if _fresh : id ∈ path then .error .endless
  else if _h : id < graph.size then
    match node.reference with
    | some target => do
      return .reference node.nullable (← graph.nestedFingerprint (id :: path) false target)
    | none => do
      let items ← match node.items with
        | none => pure .unsaid
        | some child => graph.nestedFingerprint (id :: path) false child
      let additional ← match node.additional with
        | .unsaid => pure .unsaid
        | .allowed yes => pure (.allowed yes)
        | .shape child => graph.nestedFingerprint (id :: path) false child
      let properties ← (Entries.sortByKey node.properties).mapM fun (name, child) => do
        return (name, ← graph.nestedFingerprint (id :: path) false child)
      match Json.sort? node.required with
      | none => .error .malformed
      | some required => return .shape (outline node required) items additional properties
  else .ok (.shape (outline node []) .unsaid .unsaid [])
termination_by graph.unseen path
decreasing_by
  all_goals exact graph.unseen_cons_lt _fresh _h

/-- The fingerprint of a node (`schema_fingerprint`), itself spelled out even if it is a type
definition. -/
def fingerprint (graph : Graph) (id : NodeId) : Except Failure Fingerprint :=
  graph.nestedFingerprint [] true id

end Graph

end ApiClients
