/-!
# Classes of characters

A class of characters is a list of ranges of their numbers, in increasing order.
-/

namespace Phrasebook.Text

/-- A class of characters: the first and the last number of each range. -/
abbrev CharClass := List (Nat × Nat)

/-- Whether a character is in a class. -/
def CharClass.contains (ranges : CharClass) (c : Char) : Bool :=
  ranges.any fun (first, last) => first ≤ c.toNat && c.toNat ≤ last

end Phrasebook.Text
