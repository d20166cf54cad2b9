import Stencil.Number.Double

/-!
The fewest decimal digits that read back as a double.

The real numbers nearer to a double than to its neighbours form an interval around it; the ends
belong to it when the significand is even. `shortest` walks from a coarse decimal grid to finer ones
and takes the first grid that has a point in the interval. On each grid only the two neighbours of
the value matter: if any point of the grid lies in the interval, one of those does. Of two such
points the nearer one wins, and the upper one at equal distance.
-/

namespace Stencil.Shortest

/-- A value and the ends of its interval, all counted in units of `2 ^ exponent`. -/
structure Span where
  low : Nat
  value : Nat
  high : Nat
  exponent : Int
  closed : Bool

/-- The interval of `significand · 2 ^ exponent`. Below a power of two the neighbour is half as far
away as above it. -/
def Span.around (significand : Nat) (exponent : Int) : Span where
  low := 4 * significand - (if significand == twoTo 52 && exponent != -1074 then 1 else 2)
  value := 4 * significand
  high := 4 * significand + 2
  exponent := exponent - 2
  closed := significand % 2 == 0

/-- `n` units of a span in steps of `10 ^ p`, as a numerator over `Span.steps`. -/
def Span.scaled (s : Span) (p : Int) (n : Nat) : Nat :=
  n * twoTo s.exponent.toNat * tenTo (-p).toNat

def Span.steps (s : Span) (p : Int) : Nat := twoTo (-s.exponent).toNat * tenTo p.toNat

def Span.contains (s : Span) (p : Int) (d : Nat) : Bool :=
  let n := d * s.steps p
  if s.closed then s.scaled p s.low ≤ n && n ≤ s.scaled p s.high
  else s.scaled p s.low < n && n < s.scaled p s.high

/-- The grid point `d · 10 ^ p` below the value, or the one above it when that is not farther. -/
def Span.nearest (s : Span) (p : Int) : Nat :=
  let n := s.scaled p s.value
  let step := s.steps p
  if 2 * (n % step) < step then n / step else n / step + 1

def Span.hit? (s : Span) (p : Int) : Option Nat :=
  let below := s.scaled p s.value / s.steps p
  match s.contains p below, s.contains p (below + 1) with
  | true, true => some (s.nearest p)
  | true, false => some below
  | false, true => some (below + 1)
  | false, false => none

/-- The first grid with a point in the interval, from `10 ^ p` down. -/
def Span.search (s : Span) : Nat → Int → Nat × Int
  | 0, p => (s.nearest p, p)
  | fuel + 1, p =>
    match s.hit? p with
    | some d => (d, p)
    | none => s.search fuel (p - 1)

/-- For a positive double `significand · 2 ^ exponent`: the pair `(d, p)` of its shortest decimal
form `d · 10 ^ p`. The search starts above the leading digit and needs at most seventeen digits. -/
def shortest (significand : Nat) (exponent : Int) : Nat × Int :=
  let start := (significand.log2 + exponent) * 30103 / 100000 + 1
  (Span.around significand exponent).search 20 start

example : shortest (twoTo 52) (-52) = (1, 0) := by decide
example : shortest 1 (-1074) = (5, -324) := by decide +kernel
example : shortest 7205759403792794 (-56) = (1, -1) := by decide +kernel

end Stencil.Shortest
