import Stencil.Value.Number

/-!
Comparing values.

`strictEq` asks for the same kind and the same contents. `looseEq` is kinder: null equals whatever
is empty, a boolean equals what counts like it, numbers and texts that spell numbers are compared as
floats. `order?` is the order behind `<` and its like, for the pairs that have one. Entries of maps
are compared by key, in any order.
-/

namespace Stencil.Value

/-- Texts in the order of their code points. -/
def textOrder : List Char → List Char → Ordering
  | [], [] => .eq
  | [], _ :: _ => .lt
  | _ :: _, [] => .gt
  | a :: as, b :: bs => (compare a.toNat b.toNat).then (textOrder as bs)

def scalarStrictEq : Value → Value → Bool
  | null, null => true
  | bool a, bool b => a == b
  | int a, int b => a == b
  | float a, float b => Double.equal a b
  | str a, str b => a == b
  | decimal a, decimal b => a.equal b
  | date a, date b => a == b
  | dateTime a, dateTime b => a == b
  | _, _ => false

mutual

def strictEq : Value → Value → Bool
  | list xs, list ys => listStrictEq xs ys
  | map xs, map ys => xs.length == ys.length && mapStrictEq xs ys
  | a, b => scalarStrictEq a b

def listStrictEq : List Value → List Value → Bool
  | [], [] => true
  | x :: xs, y :: ys => strictEq x y && listStrictEq xs ys
  | _, _ => false

/-- Whether each entry has an equal one under its key in `other`. -/
def mapStrictEq : List (String × Value) → List (String × Value) → Bool
  | [], _ => true
  | (k, x) :: rest, other =>
    (match Entries.get? other k with
      | some y => strictEq x y
      | none => false) && mapStrictEq rest other

end

/-- Null, and whatever null equals: the empty text and all that counts as false, the text `"0"`
excepted. -/
def isVoid : Value → Bool
  | str s => s == ""
  | v => !v.truthy

def sameFloat? (a b : Value) : Option Bool :=
  match a.toFloat?, b.toFloat? with
  | some x, some y => some (Double.equal x y)
  | _, _ => none

/-- Loose equality of two values that are not both lists and not both maps. -/
def scalarLooseEq (a b : Value) : Bool :=
  if a.isNull || b.isNull then a.isVoid && b.isVoid
  else if a.isBool || b.isBool then a.truthy == b.truthy
  else
    match a, b with
    | str s, str t => (sameFloat? a b).getD (s == t)
    | _, _ => if a.isNumber || b.isNumber then (sameFloat? a b).getD false else scalarStrictEq a b

mutual

def looseEq : Value → Value → Bool
  | list xs, list ys => listLooseEq xs ys
  | map xs, map ys => xs.length == ys.length && mapLooseEq xs ys
  | a, b => scalarLooseEq a b

def listLooseEq : List Value → List Value → Bool
  | [], [] => true
  | x :: xs, y :: ys => looseEq x y && listLooseEq xs ys
  | _, _ => false

def mapLooseEq : List (String × Value) → List (String × Value) → Bool
  | [], _ => true
  | (k, x) :: rest, other =>
    (match Entries.get? other k with
      | some y => looseEq x y
      | none => false) && mapLooseEq rest other

end

/-- Order by truth, false before true. -/
def truthOrder (a b : Value) : Ordering := compare a.truthy.toNat b.truthy.toNat

def order? : Value → Value → Option Ordering
  | int a, int b => some (compare a.toInt b.toInt)
  | decimal a, decimal b => some (a.order b)
  | str a, str b => some (textOrder a.toList b.toList)
  | date a, date b => some (a.order b)
  | dateTime a, dateTime b => some (a.order b)
  | date a, dateTime b => some (a.midnight.order b)
  | dateTime a, date b => some (a.order b.midnight)
  | a, b =>
    if a.isNull || a.isBool || b.isNull || b.isBool then some (truthOrder a b)
    else if a.isNumber || b.isNumber then
      match a.toFloat?, b.toFloat? with
      | some x, some y => Double.order? x y
      | _, _ => none
    else none

end Stencil.Value
