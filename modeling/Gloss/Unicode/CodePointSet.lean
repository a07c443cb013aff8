namespace Gloss

/-- A set of code points, by the points where membership changes, in ascending order. -/
structure CodePointSet where
  changes : Array Nat

namespace CodePointSet

def changesUpTo (s : CodePointSet) (point low high : Nat) : Nat :=
  if low < high then
    let middle := (low + high) / 2
    if s.changes.getD middle 0 ≤ point then s.changesUpTo point (middle + 1) high
    else s.changesUpTo point low middle
  else low
termination_by high - low

/-- A code point is in the set if the number of changes up to it is odd. -/
def contains (s : CodePointSet) (c : Char) : Bool :=
  s.changesUpTo c.toNat 0 s.changes.size % 2 = 1

end CodePointSet
end Gloss
