/-!
Sets of code points written as their boundaries.

A set is the increasing list of the code points at which membership changes, starting outside: a
code point belongs to the set when an odd number of boundaries is at or below it.
-/

namespace Stencil

abbrev Runs := List Nat

/-- Whether `n` lies in the set, for a walk that is `inside` before the first boundary. -/
def Runs.holdsFrom (inside : Bool) : Runs → Nat → Bool
  | [], _ => inside
  | b :: bs, n => if n < b then inside else holdsFrom (!inside) bs n

def Runs.holds (r : Runs) (c : Char) : Bool := Runs.holdsFrom false r c.toNat

end Stencil
