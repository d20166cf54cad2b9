import Stencil.Expr.Error
import Stencil.Expr.Basic
import Stencil.Number.Decimal.Arithmetic
import Stencil.Value.Text
import Stencil.Value.Order

/-!
Operators on values.

Arithmetic works on numbers: null is 0, a boolean 0 or 1, a text the number it spells. Two integers
give an exact integer or an overflow, and only a division that leaves no integer gives a float. An
integer beside a decimal becomes a decimal, every other mixture is worked out in floats, whose
results must be finite. A sum with a text that spells no number puts the texts together instead.
-/

namespace Stencil.Expr

/-- A value that arithmetic can use. -/
inductive Number where
  | int (n : Int64)
  | float (x : Float)
  | decimal (d : Decimal)

def Number.toValue : Number → Value
  | int n => .int n
  | float x => .float x
  | decimal d => .decimal d

def Number.toFloat : Number → Float
  | int n => Float.ofInt n.toInt
  | float x => x
  | decimal d => d.toFloat

def toNumber : Value → Except EvalError Number
  | .int n => .ok (.int n)
  | .float x => .ok (.float x)
  | .decimal d => .ok (.decimal d)
  | .null => .ok (.int 0)
  | .bool b => .ok (.int (if b then 1 else 0))
  | .str s =>
    match readInt64? (trim s.toList) with
    | some n => .ok (.int n)
    | none =>
      match FloatText.readFinite? (trim s.toList) with
      | some x => .ok (.float x)
      | none => .error (.typeFault (.nonNumericText s))
  | v => .error (.typeFault (.notANumber v.typeName))

def intResult (n : Int) : Except EvalError Number :=
  match fit? n with
  | some k => .ok (.int k)
  | none => .error .overflow

def floatResult (x : Float) : Except EvalError Number :=
  if Double.isFinite x then .ok (.float x) else .error .overflow

def decimalResult : Option Decimal → Except EvalError Number
  | some d => .ok (.decimal d)
  | none => .error .overflow

/-- The operators that refuse a zero on their right. -/
def ArithOp.divides : ArithOp → Bool
  | div | rem => true
  | _ => false

/-- The remainder of a division toward zero. There is none where the quotient does not fit. -/
def remainder? (a b : Int) : Option Int := (fit? (a.tdiv b)).map fun _ => a.tmod b

def intArith (op : ArithOp) (x y : Int64) : Except EvalError Number :=
  let a := x.toInt
  let b := y.toInt
  if op.divides && b == 0 then .error .divisionByZero
  else
    match op with
    | .add => intResult (a + b)
    | .sub => intResult (a - b)
    | .mul => intResult (a * b)
    | .div =>
      if remainder? a b == some 0 then intResult (a.tdiv b)
      else .ok (.float (Float.ofInt a / Float.ofInt b))
    | .rem =>
      match remainder? a b with
      | some r => intResult r
      | none => .error .overflow

def decimalArith (op : ArithOp) (x y : Decimal) : Except EvalError Number :=
  if op.divides && y.isZero then .error .divisionByZero
  else
    decimalResult <|
      match op with
      | .add => x.add? y
      | .sub => x.sub? y
      | .mul => x.mul? y
      | .div => x.div? y
      | .rem => x.rem? y

def floatArith (op : ArithOp) (x y : Float) : Except EvalError Number :=
  if op.divides && Double.isZero y then .error .divisionByZero
  else
    floatResult <|
      match op with
      | .add => x + y
      | .sub => x - y
      | .mul => x * y
      | .div => x / y
      | .rem => Double.remainder x y

def arith (op : ArithOp) : Number → Number → Except EvalError Number
  | .int x, .int y => intArith op x y
  | .decimal x, .decimal y => decimalArith op x y
  | .decimal x, .int y => decimalArith op x (.ofInt64 y)
  | .int x, .decimal y => decimalArith op (.ofInt64 x) y
  | a, b => floatArith op a.toFloat b.toFloat

def asValue (r : Except EvalError Number) : Except EvalError Value := r.map Number.toValue

def isText : Value → Bool
  | .str _ => true
  | _ => false

def add (l r : Value) : Except EvalError Value :=
  match toNumber l, toNumber r with
  | .ok a, .ok b => asValue (arith .add a b)
  | .error e, _ | _, .error e =>
    if isText l || isText r then .ok (.str (l.text ++ r.text)) else .error e

def arithValues (op : ArithOp) (l r : Value) : Except EvalError Value :=
  match toNumber l with
  | .error e => .error e
  | .ok a =>
    match toNumber r with
    | .error e => .error e
    | .ok b => asValue (arith op a b)

def OrderOp.accepts : OrderOp → Ordering → Bool
  | lt, o => o == .lt
  | le, o => o != .gt
  | gt, o => o == .gt
  | ge, o => o != .lt

def compareValues (op : OrderOp) (l r : Value) : Except EvalError Value :=
  match l.order? r with
  | some o => .ok (.bool (op.accepts o))
  | none => .error (.typeFault (.incomparable l.typeName r.typeName))

/-- The value of an operator whose two operands are both evaluated. -/
def applyBinary (op : BinaryOp) (l r : Value) : Except EvalError Value :=
  match op with
  | .and => .ok (.bool (l.truthy && r.truthy))
  | .or => .ok (.bool (l.truthy || r.truthy))
  | .concat => .ok (.str (l.text ++ r.text))
  | .equal => .ok (.bool (l.looseEq r))
  | .notEqual => .ok (.bool (!l.looseEq r))
  | .strictEqual => .ok (.bool (l.strictEq r))
  | .notStrictEqual => .ok (.bool (!l.strictEq r))
  | .order op => compareValues op l r
  | .arith .add => add l r
  | .arith op => arithValues op l r

def negate : Number → Except EvalError Number
  | .int n => intResult (-n.toInt)
  | .float x => .ok (.float x.neg)
  | .decimal d => .ok (.decimal d.neg)

def applyUnary (op : UnaryOp) (v : Value) : Except EvalError Value :=
  match op with
  | .not => .ok (.bool (!v.truthy))
  | .pos => asValue (toNumber v)
  | .neg =>
    match toNumber v with
    | .error e => .error e
    | .ok n => asValue (negate n)

/-- `object[index]`. An index into a list or a text may count from the end by a negative number; a
miss is null. -/
def indexValue (object index : Value) : Value :=
  let position (size : Nat) : Option Nat :=
    index.toInt64?.bind fun n =>
      let i := if n.toInt < 0 then size + n.toInt else n.toInt
      if 0 ≤ i then some i.toNat else none
  match object with
  | .list items => ((position items.length).bind fun i => items[i]?).getD .null
  | .map entries => (Entries.get? entries index.text).getD .null
  | .str s =>
    match (position s.length).bind fun i => s.toList[i]? with
    | some c => .str (String.singleton c)
    | none => .null
  | _ => .null

end Stencil.Expr
