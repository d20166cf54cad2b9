import Stencil.Number.Power

/-!
Doubles by their value.

`Double` says what the sixty-four bits of a `Float` stand for: no number, an infinity, or
`± significand · 2 ^ exponent`. Whole parts, rounding to whole numbers, remainders and the order of
floats are worked out on that value in exact integer arithmetic.
-/

namespace Stencil

inductive Double where
  | nan
  | infinite (negative : Bool)
  /-- The number `significand · 2 ^ exponent`, or its opposite. -/
  | finite (negative : Bool) (significand : Nat) (exponent : Int)
  deriving DecidableEq

namespace Double

def ofFloat (x : Float) : Double :=
  let bits : Nat := x.toBits.toNat
  let negative := bits / twoTo 63 == 1
  let exponent : Nat := bits / twoTo 52 % 2048
  let fraction : Nat := bits % twoTo 52
  if exponent == 2047 then if fraction == 0 then .infinite negative else .nan
  else if exponent == 0 then .finite negative fraction (-1074)
  else .finite negative (fraction + twoTo 52) (exponent - 1075)

def isFinite (x : Float) : Bool :=
  match ofFloat x with
  | .finite .. => true
  | _ => false

/-- The double `± significand · 2 ^ exponent`, for a number that a double holds exactly. -/
def exactly (negative : Bool) (significand : Nat) (exponent : Int) : Float :=
  let sign := if negative then twoTo 63 else 0
  if significand == 0 then Float.ofBits (UInt64.ofNat sign)
  else
    let top := significand.log2
    let power := exponent + top
    if power < -1022 then
      Float.ofBits (UInt64.ofNat (sign + significand <<< (exponent + 1074).toNat))
    else
      let normal := if top ≤ 52 then significand <<< (52 - top) else significand >>> (top - 52)
      Float.ofBits (UInt64.ofNat (sign + (power + 1022).toNat * twoTo 52 + normal))

/-- Where a float stands in the order of floats: both zeros at 0, equal steps between neighbours,
no place for a NaN. -/
def rank? (x : Float) : Option Int :=
  let magnitude : Nat := x.toBits.toNat % twoTo 63
  if magnitude > 2047 * twoTo 52 then none
  else if x.toBits.toNat < twoTo 63 then some magnitude
  else some (-magnitude)

/-- A NaN equals nothing, the two zeros equal each other. -/
def equal (x y : Float) : Bool :=
  match rank? x, rank? y with
  | some m, some n => m == n
  | _, _ => false

def order? (x y : Float) : Option Ordering :=
  match rank? x, rank? y with
  | some m, some n => some (compare m n)
  | _, _ => none

def isZero (x : Float) : Bool := rank? x == some 0

def absolute (x : Float) : Float := Float.ofBits (UInt64.ofNat (x.toBits.toNat % twoTo 63))

/-- The integer that a whole float is. -/
def integer? (x : Float) : Option Int :=
  match ofFloat x with
  | .finite negative m q =>
    let magnitude? :=
      if 0 ≤ q then some (m * twoTo q.toNat)
      else if m % twoTo (-q).toNat == 0 then some (m / twoTo (-q).toNat)
      else none
    magnitude?.map fun (n : Nat) => if negative then -(n : Int) else n
  | _ => none

/-- Replaces a number that is not whole by a whole one: `choose` gets the sign, the whole part of
the magnitude, and whether the fraction is at least a half. The sign stays, also on a zero. -/
def toWhole (choose : Bool → Nat → Bool → Nat) (x : Float) : Float :=
  match ofFloat x with
  | .finite negative m q =>
    if 0 ≤ q then x
    else
      let unit := twoTo (-q).toNat
      if m % unit == 0 then x
      else exactly negative (choose negative (m / unit) (unit ≤ 2 * (m % unit))) 0
  | _ => x

def floor : Float → Float := toWhole fun negative n _ => if negative then n + 1 else n

def ceil : Float → Float := toWhole fun negative n _ => if negative then n else n + 1

/-- The nearest whole number; a half goes away from zero. -/
def round : Float → Float := toWhole fun _ n half => if half then n + 1 else n

/-- The exact remainder of a division that rounds toward zero; it has the sign of the dividend. -/
def remainder (x y : Float) : Float :=
  match ofFloat x, ofFloat y with
  | .finite negative m p, .finite _ n q =>
    if n == 0 then 0.0 / 0.0
    else
      let least := min p q
      exactly negative (m * twoTo (p - least).toNat % (n * twoTo (q - least).toNat)) least
  | .finite .., .infinite _ => x
  | _, _ => 0.0 / 0.0

example : ofFloat 0.5 = .finite false (twoTo 52) (-53) := by decide
example : exactly true (twoTo 52) (-53) = -0.5 := by decide +kernel
example : integer? 3.0 = some 3 ∧ integer? 2.5 = none := by decide

end Double

end Stencil
