/-!
Character classes as lists of code point ranges, both ends included.
-/

namespace EnhancedFor.Text

def inRanges (ranges : List (Nat × Nat)) (c : Char) : Bool :=
  ranges.any fun r => r.1 ≤ c.toNat && c.toNat ≤ r.2

end EnhancedFor.Text
