import Stencil.Number.Digits

/-!
Dates and times of day without a time zone.

Both are compared part by part, and a date counts as its midnight beside a date with a time. A year
from 0 to 9999 is written with four digits, any other with a sign. Nanoseconds from `10 ^ 9` on mark
a leap second, which is written as the next second.

Dates come from outside the template language and follow the rules documented for them. Of their
order, what is relied on stands in `Stencil.Proofs.Value.Laws`.
-/

namespace Stencil

structure Date where
  year : Int
  month : Nat
  day : Nat
  deriving DecidableEq

structure DateTime where
  date : Date
  hour : Nat
  minute : Nat
  second : Nat
  nanos : Nat
  deriving DecidableEq

def Date.order (a b : Date) : Ordering :=
  (compare a.year b.year).then ((compare a.month b.month).then (compare a.day b.day))

def DateTime.order (a b : DateTime) : Ordering :=
  (a.date.order b.date).then ((compare a.hour b.hour).then ((compare a.minute b.minute).then
    ((compare a.second b.second).then (compare a.nanos b.nanos))))

def Date.midnight (d : Date) : DateTime := ⟨d, 0, 0, 0, 0⟩

def yearText (y : Int) : List Char :=
  if 0 ≤ y ∧ y ≤ 9999 then padded 4 (digits y.natAbs)
  else (if y < 0 then '-' else '+') :: padded 4 (digits y.natAbs)

def Date.text (d : Date) : List Char :=
  yearText d.year ++ '-' :: padded 2 (digits d.month) ++ '-' :: padded 2 (digits d.day)

/-- Hour, minute and second, the leap second counted in. -/
def DateTime.clockText (t : DateTime) : List Char :=
  padded 2 (digits t.hour) ++ ':' :: padded 2 (digits t.minute) ++
    ':' :: padded 2 (digits (t.second + t.nanos / tenTo 9))

def DateTime.text (t : DateTime) : List Char := t.date.text ++ ' ' :: t.clockText

/-- The fraction of a second with three, six or nine digits, as few as it needs. -/
def fractionText (nanos : Nat) : List Char :=
  if nanos == 0 then []
  else if nanos % tenTo 6 == 0 then '.' :: padded 3 (digits (nanos / tenTo 6))
  else if nanos % tenTo 3 == 0 then '.' :: padded 6 (digits (nanos / tenTo 3))
  else '.' :: padded 9 (digits nanos)

/-- The form for data exchange, with a `T` and the fraction of the second. -/
def DateTime.dataText (t : DateTime) : List Char :=
  t.date.text ++ 'T' :: t.clockText ++ fractionText (t.nanos % tenTo 9)

end Stencil
