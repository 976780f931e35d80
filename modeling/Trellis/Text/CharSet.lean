/-!
# Sets of characters

A set of code points is the sorted array of the places where membership changes, so a look-up is
one bisection: a code point is in the set when an odd number of changes lie at or before it.
-/

namespace Trellis.Text

/-- Bisection for `rank`: entries below `lo` are at most `x`, entries from `hi` on exceed it. -/
def rankBetween (bounds : Array Nat) (x lo hi : Nat) : Nat :=
  if lo < hi then
    let mid := (lo + hi) / 2
    if bounds.getD mid 0 ≤ x then rankBetween bounds x (mid + 1) hi
    else rankBetween bounds x lo mid
  else
    lo
termination_by hi - lo

/-- How many entries of a sorted array are at most `x`. -/
def rank (bounds : Array Nat) (x : Nat) : Nat := rankBetween bounds x 0 bounds.size

/-- A set of characters: the sorted code points at which membership changes. -/
structure CharSet where
  bounds : Array Nat

/-- Membership: an odd number of changes lie at or before the character. -/
def CharSet.contains (s : CharSet) (c : Char) : Bool := rank s.bounds c.toNat % 2 == 1

end Trellis.Text
