import Stencil.Number.Double
import Stencil.Number.Integer
import Stencil.Number.FloatText

/-!
Decimal numbers of fixed precision.

A decimal is `± mantissa · 10 ^ -scale` with a mantissa of at most ninety-six bits and at most
twenty-eight places. The scale is part of the number and is printed (`19.90`), but order and
equality look at the value only. A zero may carry a minus sign.

These numbers are no part of the template language, which takes them from outside. They follow here
the rules that are documented for them, so that templates can be rendered. Nothing is concluded from
how they are computed but the laws in `Stencil.Proofs.Value.Laws`.
-/

namespace Stencil

structure Decimal where
  negative : Bool
  mantissa : Nat
  scale : Nat
  mantissa_lt : mantissa < twoTo 96
  scale_le : scale ≤ 28

namespace Decimal

/-- The decimal with these parts, if they are within the bounds. -/
def make? (negative : Bool) (mantissa scale : Nat) : Option Decimal :=
  if h : mantissa < twoTo 96 ∧ scale ≤ 28 then some ⟨negative, mantissa, scale, h.1, h.2⟩ else none

def zero : Decimal := ⟨false, 0, 0, by decide, by decide⟩

theorem natAbs_toInt_lt (n : Int64) : n.toInt.natAbs < twoTo 96 := by
  have hlow := n.le_toInt
  have hhigh := n.toInt_lt
  have hbound : twoTo 96 = 79228162514264337593543950336 := rfl
  omega

def ofInt64 (n : Int64) : Decimal :=
  ⟨n.toInt < 0, n.toInt.natAbs, 0, natAbs_toInt_lt n, by decide⟩

def isZero (d : Decimal) : Bool := d.mantissa == 0

def neg (d : Decimal) : Decimal := { d with negative := !d.negative }

def abs (d : Decimal) : Decimal := { d with negative := false }

/-- The value in steps of `10 ^ -scale`. -/
def units (d : Decimal) : Int := if d.negative then -(d.mantissa : Int) else d.mantissa

/-- Order by value: both numbers are written with the places of the other one added. -/
def order (a b : Decimal) : Ordering := compare (a.units * tenTo b.scale) (b.units * tenTo a.scale)

def equal (a b : Decimal) : Bool := a.order b == .eq

/-- The integer that a decimal without a fraction is. -/
def integer? (d : Decimal) : Option Int :=
  if d.mantissa % tenTo d.scale == 0 then
    some (if d.negative then -((d.mantissa / tenTo d.scale : Nat) : Int)
      else ((d.mantissa / tenTo d.scale : Nat) : Int))
  else none

/-- The digits with the point before the last `scale` of them. -/
def text (d : Decimal) : List Char :=
  let sign := if d.negative then ['-'] else []
  let ds := padded (d.scale + 1) (digits d.mantissa)
  if d.scale == 0 then sign ++ ds
  else sign ++ ds.take (ds.length - d.scale) ++ '.' :: ds.drop (ds.length - d.scale)

/-- The decimal that a plain text with an optional sign and point stands for. -/
def read? (s : List Char) : Option Decimal :=
  let (negative, s) := match s with
    | '-' :: s => (true, s)
    | '+' :: s => (false, s)
    | s => (false, s)
  match FloatText.readDecimal? s with
  | none => none
  | some (m, e) => if 0 < e then none else make? (negative && m != 0) m (-e).toNat

/-- A nearby float. Without places it is the nearest one. Otherwise whole part and fraction are
converted apart, and the error of adding them is taken off by rounding at the last place. -/
def toFloat (d : Decimal) : Float :=
  if d.scale == 0 then Float.ofInt d.units
  else
    let unit := Float.ofNat (tenTo d.scale)
    let whole := Float.ofNat (d.mantissa / tenTo d.scale)
    let fraction := Float.ofNat (d.mantissa % tenTo d.scale) / unit
    let magnitude :=
      if Double.isZero fraction then whole else Double.round ((whole + fraction) * unit) / unit
    if d.negative then magnitude.neg else magnitude

end Decimal

end Stencil
