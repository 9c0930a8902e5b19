/-!
# Sets of code points

A set of code points is given by the ascending list of the places where membership changes: the
first code point of a run of members, the first one after that run, the first one of the next run,
and so on. A code point is a member exactly when an odd number of places are at or before it. A
last run that nothing follows has no second place.
-/

namespace Ubershader.Text

/-- A set of code points, by the places where membership changes, in ascending order. -/
structure CodePointSet where
  changes : List Nat
deriving Repr

namespace CodePointSet

/-- Whether an odd number of the places of an ascending list are at or before a code point. -/
def isInside : List Nat → Nat → Bool
  | [], _ => false
  | place :: places, n => if n < place then false else !isInside places n

def contains (set : CodePointSet) (c : Char) : Bool :=
  isInside set.changes c.toNat

end CodePointSet

end Ubershader.Text
