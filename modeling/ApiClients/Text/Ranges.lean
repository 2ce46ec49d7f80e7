/-!
# Classes of characters given by ranges

A class of characters is a list of ranges of code points, both ends included.
-/

namespace ApiClients.Text

/-- Whether a character lies in one of the ranges. -/
def inRanges (ranges : List (Nat × Nat)) (c : Char) : Bool :=
  ranges.any fun (first, last) => first ≤ c.toNat && c.toNat ≤ last

/-- The texts between separators. -/
def split (separator : Char) (text : String) : List String :=
  (text.toList.splitOn separator).map String.ofList

end ApiClients.Text
