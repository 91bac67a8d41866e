/-!
Character classes as lists of closed ranges of code points.
-/

namespace SnippetLint.Text

/-- Whether the code point of `c` lies in one of the ranges. -/
def inRanges (ranges : List (Nat × Nat)) (c : Char) : Bool :=
  ranges.any fun (low, high) => low ≤ c.toNat && c.toNat ≤ high

end SnippetLint.Text
