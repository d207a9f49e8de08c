/-!
# Ranges of characters

A class of characters is a list of ranges of code points, both ends included.
-/

namespace DocumentStore.Text

abbrev Ranges := List (Nat × Nat)

/-- Whether a character is in one of the ranges. -/
def Ranges.contains (ranges : Ranges) (c : Char) : Bool :=
  ranges.any fun (first, last) => first ≤ c.toNat && c.toNat ≤ last

end DocumentStore.Text
