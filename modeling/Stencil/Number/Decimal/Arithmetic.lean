import Stencil.Number.Decimal.Basic

/-!
Arithmetic on decimals.

Every operation works on exact natural numbers and then fits the result into ninety-six bits and
twenty-eight places, a half going to the even neighbour. `none` means that the result is too large.
Addition keeps the larger scale, multiplication adds the scales, division adds places in rounds of
at most nine, and the remainder is exact.

As the numbers, their operations come from outside the template language. Whatever they give, a
result or none, is taken as it is; no theorem looks into them.
-/

namespace Stencil.Decimal

/-- `n / d` rounded to a natural number, a half to the even one. -/
def divHalfEven (n d : Nat) : Nat :=
  let q := n / d
  let r := n % d
  if 2 * r < d || (2 * r == d && q % 2 == 0) then q else q + 1

/-- The decimal with the most places, from `keep` down, that is in bounds. -/
def fitFrom (negative : Bool) (mantissa scale : Nat) : Nat → Option Decimal
  | 0 =>
    let m := divHalfEven mantissa (tenTo scale)
    make? (negative && m != 0) m 0
  | keep + 1 =>
    let m := divHalfEven mantissa (tenTo (scale - (keep + 1)))
    match make? (negative && m != 0) m (keep + 1) with
    | some d => some d
    | none => fitFrom negative mantissa scale keep

/-- The decimal nearest to `± mantissa · 10 ^ -scale` that keeps as many places as it can. -/
def fit? (negative : Bool) (mantissa scale : Nat) : Option Decimal :=
  fitFrom negative mantissa scale (min scale 28)

/-- Adding to a zero gives the other number with its own scale. -/
def add? (a b : Decimal) : Option Decimal :=
  if a.isZero then some b
  else if b.isZero then some a
  else
    let scale := max a.scale b.scale
    let sum := a.units * tenTo (scale - a.scale) + b.units * tenTo (scale - b.scale)
    fit? (sum < 0) sum.natAbs scale

def sub? (a b : Decimal) : Option Decimal := add? a (if b.isZero then b else b.neg)

/-- A product of short mantissas that lies far below the last place is a plain zero. -/
def mul? (a b : Decimal) : Option Decimal :=
  if a.isZero || b.isZero then some zero
  else if a.mantissa < twoTo 32 && b.mantissa < twoTo 32 && 47 < a.scale + b.scale then some zero
  else fit? (a.negative != b.negative) (a.mantissa * b.mantissa) (a.scale + b.scale)

/-- A division under way: `quotient · 10 ^ -scale`, what is left to divide, and whether anything
was left after a round. -/
structure Division where
  quotient : Nat
  rest : Nat
  scale : Int
  inexact : Bool

/-- How many places to add at once, at most `limit` and as the quotient has room for. -/
def room (quotient : Nat) : Nat → Nat
  | 0 => 0
  | limit + 1 => if quotient * tenTo (limit + 1) < twoTo 96 then limit + 1 else room quotient limit

/-- Divides on until nothing is left or the quotient is full; then it is rounded. -/
def Division.run (divisor : Nat) : Nat → Division → Option Division
  | 0, s => some s
  | fuel + 1, s =>
    let add (p : Nat) (inexact : Bool) : Option Division :=
      let q := s.quotient * tenTo p + s.rest * tenTo p / divisor
      if q < twoTo 96 then
        Division.run divisor fuel ⟨q, s.rest * tenTo p % divisor, s.scale + p, inexact⟩
      else none
    if s.rest == 0 then
      if 0 ≤ s.scale then some s else add (min 9 (-s.scale).toNat) s.inexact
    else
      let p := room s.quotient (min 9 (28 - s.scale).toNat)
      if p == 0 then
        if s.scale < 0 then none
        else
          let up := divisor < 2 * s.rest || (2 * s.rest == divisor && s.quotient % 2 == 1)
          some { s with quotient := if up then s.quotient + 1 else s.quotient, inexact := true }
      else add p true

/-- Cuts `places` zeros off the end, if they are there and the scale has them. -/
def cut (places : Nat) (m scale : Nat) : Nat × Nat :=
  if places ≤ scale && m % tenTo places == 0 then (m / tenTo places, scale - places) else (m, scale)

/-- Cuts eight zeros at a time while the low thirty-two bits are zero. -/
def cutEights : Nat → Nat → Nat → Nat × Nat
  | 0, m, scale => (m, scale)
  | fuel + 1, m, scale =>
    if m % twoTo 32 == 0 && 8 ≤ scale && m % tenTo 8 == 0 then
      cutEights fuel (m / tenTo 8) (scale - 8)
    else (m, scale)

/-- Takes trailing zeros off an inexact quotient, in steps of eight, four, two and one. -/
def cutZeros (m scale : Nat) : Nat × Nat :=
  let (m, scale) := cutEights scale m scale
  let (m, scale) := cut 4 m scale
  let (m, scale) := cut 2 m scale
  cut 1 m scale

/-- The quotient, for a divisor that is not zero. -/
def div? (a b : Decimal) : Option Decimal :=
  if a.isZero then some zero
  else
    let start : Division :=
      ⟨a.mantissa / b.mantissa, a.mantissa % b.mantissa, (a.scale : Int) - b.scale, false⟩
    match start.run b.mantissa 64 with
    | none => none
    | some s =>
      let (m, scale) :=
        if s.inexact then cutZeros s.quotient s.scale.toNat else (s.quotient, s.scale.toNat)
      fit? (a.negative != b.negative) m scale

/-- The remainder of a division toward zero, for a divisor that is not zero. It has the sign of the
dividend; a dividend below the divisor is its own remainder. -/
def rem? (a b : Decimal) : Option Decimal :=
  if a.isZero then some zero
  else
    match a.abs.order b.abs with
    | .eq => some zero
    | .lt => some a
    | .gt =>
      let scale := max a.scale b.scale
      let m := a.mantissa * tenTo (scale - a.scale) % (b.mantissa * tenTo (scale - b.scale))
      make? (a.negative && m != 0) m scale

/-- Keeps at most `places` places: `choose` gets the sign, what is left of the mantissa, and what
was cut off together with its unit. The sign stays, also on a zero. -/
def shorten (choose : Bool → Nat → Nat → Nat → Nat) (places : Nat) (d : Decimal) : Decimal :=
  if d.scale ≤ places then d
  else
    let unit := tenTo (d.scale - places)
    let m := choose d.negative (d.mantissa / unit) (d.mantissa % unit) unit
    (make? d.negative m places).getD d

/-- Rounds to `places` places; a half goes away from zero. -/
def round (places : Nat) : Decimal → Decimal :=
  shorten (fun _ q r unit => if unit ≤ 2 * r then q + 1 else q) places

def floor : Decimal → Decimal :=
  shorten (fun negative q r _ => if negative && r != 0 then q + 1 else q) 0

def ceil : Decimal → Decimal :=
  shorten (fun negative q r _ => if !negative && r != 0 then q + 1 else q) 0

end Stencil.Decimal
