/-!
Sets of characters given by closed ranges of code points.
-/

namespace BuildClient.Text

/-- Some range holds the code point of the character. -/
def inRanges (ranges : List (Nat × Nat)) (c : Char) : Bool :=
  ranges.any fun r => r.1 ≤ c.toNat && c.toNat ≤ r.2

end BuildClient.Text
