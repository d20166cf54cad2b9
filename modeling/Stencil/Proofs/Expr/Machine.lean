import Mathlib.Algebra.Ring.Int.Defs
import Mathlib.Algebra.Ring.Nat
import Stencil.Expr.Eval

/-!
Evaluation on a machine.

The evaluator of `Stencil.Expr.Eval` counts with whole numbers and takes what it needs out of its
values by patterns. Here the same steps are taken as a machine takes them. Integers have sixty-four
bits, the elements of a range are worked out in twice as many, and a result that does not fit is a
panic unless the operation checks for it. Arguments, elements and characters are taken by positions
that have to be in range. An operator is one of sixteen wherever it is passed on, and numbers are
values like all others, so that the cases which are not expected are there and panic.

`Outcome` is what can come of it; `tryEvaluate` evaluates a text. Texts and lists are no longer than
`2 ^ 63 - 1`, since no memory holds more: `length`, which is where a machine counts one, gives
`exhausted` for a longer one.
-/

namespace Stencil.Expr.Machine

open Stencil.Expr.Function (countError integerArg)

/-- Why a machine stops for good. -/
inductive Panic where
  /-- A case is reached that is marked as impossible. -/
  | unreachable
  | outOfRange
  | overflow
  | divisionByZero

/-- A value, an error, a panic, or a text or list of this size, which no memory holds. -/
inductive Outcome (α : Type) where
  | value (a : α)
  | error (e : EvalError)
  | panic (p : Panic)
  | exhausted (size : Nat)

namespace Outcome

def bind {α β : Type} (o : Outcome α) (f : α → Outcome β) : Outcome β :=
  match o with
  | value a => f a
  | error e => error e
  | panic p => panic p
  | exhausted size => exhausted size

instance : Monad Outcome where
  pure := value
  bind := bind

/-- The outcome of a step that cannot panic. -/
def ofExcept {α : Type} : Except EvalError α → Outcome α
  | .ok a => value a
  | .error e => error e

/-- An operation that is checked: without a result it is this error. -/
def checked {α : Type} (e : EvalError) : Option α → Outcome α
  | some a => value a
  | none => error e

/-- An operation that is not checked: without a result it is this panic. -/
def trapping {α : Type} (p : Panic) : Option α → Outcome α
  | some a => value a
  | none => panic p

/-- The value or the error, of which either may be dealt with. A panic cannot be. -/
def caught {α : Type} : Outcome α → Outcome (Except EvalError α)
  | value a => value (.ok a)
  | error e => value (.error e)
  | panic p => panic p
  | exhausted size => exhausted size

variable {α β : Type}

@[simp] theorem pure_eq (a : α) : (pure a : Outcome α) = value a := rfl

@[simp] theorem value_bind (a : α) (f : α → Outcome β) : value a >>= f = f a := rfl

@[simp] theorem error_bind (e : EvalError) (f : α → Outcome β) : error e >>= f = error e := rfl

@[simp] theorem ofExcept_ok (a : α) : ofExcept (.ok a) = value a := rfl

@[simp] theorem ofExcept_error (e : EvalError) :
    ofExcept (.error e : Except EvalError α) = error e := rfl

@[simp] theorem checked_some (e : EvalError) (a : α) : checked e (some a) = value a := rfl

end Outcome

open Outcome (ofExcept checked trapping)

/-! ## Operations -/

def add (x y : Int64) : Outcome Int64 := trapping .overflow (fit? (x.toInt + y.toInt))

def saturatingAdd (x y : Int64) : Int64 := clamp (x.toInt + y.toInt)

/-- The integer itself if a hundred and twenty-eight bits hold it. -/
def fitWide? (n : Int) : Option Int := if -2 ^ 127 ≤ n ∧ n < 2 ^ 127 then some n else none

def wide (n : Int) : Outcome Int := trapping .overflow (fitWide? n)

def divideWide (a b : Int) : Outcome Int :=
  if b = 0 then .panic .divisionByZero else wide (a.tdiv b)

/-- The size of a text or of a list as an integer. -/
def length (size : Nat) : Outcome Int64 :=
  match fit? size with
  | some n => .value n
  | none => .exhausted size

/-- An integer taken for a position, whatever its sign. -/
def position (n : Int64) : Nat := n.toUInt64.toNat

def slice {α : Type} (items : List α) (start stop : Nat) : Outcome (List α) :=
  if start ≤ stop ∧ stop ≤ items.length then .value ((items.take stop).drop start)
  else .panic .outOfRange

def argument (args : List Value) (i : Nat) : Outcome Value := trapping .outOfRange args[i]?

/-! ## Operators -/

/-- The number that a value stands for, as a value. -/
def readNumber (v : Value) : Except EvalError Value :=
  match v with
  | .int _ | .float _ | .decimal _ => .ok v
  | .null => .ok (.int 0)
  | .bool b => .ok (.int (if b then 1 else 0))
  | .str s =>
    match readInt64? (trim s.toList) with
    | some n => .ok (.int n)
    | none =>
      match FloatText.readFinite? (trim s.toList) with
      | some x => .ok (.float x)
      | none => .error (.typeFault (.nonNumericText s))
  | other => .error (.typeFault (.notANumber other.typeName))

def intArith (op : BinaryOp) (x y : Int64) : Outcome Value :=
  let quotient? := if y = 0 then none else fit? (x.toInt.tdiv y.toInt)
  let remainder? := quotient?.bind fun _ => fit? (x.toInt.tmod y.toInt)
  let result (n? : Option Int64) := checked .overflow (n?.map Value.int)
  match op with
  | .arith .add => result (fit? (x.toInt + y.toInt))
  | .arith .sub => result (fit? (x.toInt - y.toInt))
  | .arith .mul => result (fit? (x.toInt * y.toInt))
  | .arith .div =>
    if y = 0 then .error .divisionByZero
    else if remainder? ≠ some 0 then .value (.float (Float.ofInt x.toInt / Float.ofInt y.toInt))
    else result quotient?
  | .arith .rem => if y = 0 then .error .divisionByZero else result remainder?
  | _ => .panic .unreachable

def decimalArith (op : BinaryOp) (x y : Decimal) : Outcome Value :=
  let result (d? : Option Decimal) := checked .overflow (d?.map Value.decimal)
  if (op = .arith .div ∨ op = .arith .rem) ∧ y.isZero then .error .divisionByZero
  else
    match op with
    | .arith .add => result (x.add? y)
    | .arith .sub => result (x.sub? y)
    | .arith .mul => result (x.mul? y)
    | .arith .div => result (x.div? y)
    | .arith .rem => result (x.rem? y)
    | _ => .panic .unreachable

def floatArith (op : BinaryOp) (x y : Float) : Outcome Value :=
  let result (z : Float) : Outcome Value :=
    if Double.isFinite z then .value (.float z) else .error .overflow
  if (op = .arith .div ∨ op = .arith .rem) ∧ Double.isZero y then .error .divisionByZero
  else
    match op with
    | .arith .add => result (x + y)
    | .arith .sub => result (x - y)
    | .arith .mul => result (x * y)
    | .arith .div => result (x / y)
    | .arith .rem => result (Double.remainder x y)
    | _ => .panic .unreachable

def arith (op : BinaryOp) (a b : Value) : Outcome Value :=
  match a, b with
  | .int x, .int y => intArith op x y
  | .decimal x, .decimal y => decimalArith op x y
  | .decimal x, .int y => decimalArith op x (.ofInt64 y)
  | .int x, .decimal y => decimalArith op (.ofInt64 x) y
  | a, b =>
    match a.toFloat?, b.toFloat? with
    | some x, some y => floatArith op x y
    | _, _ => .error (.typeFault .nonNumericOperands)

def applyBinary (op : BinaryOp) (l r : Value) : Outcome Value :=
  match op with
  | .equal => .value (.bool (l.looseEq r))
  | .notEqual => .value (.bool (!l.looseEq r))
  | .strictEqual => .value (.bool (l.strictEq r))
  | .notStrictEqual => .value (.bool (!l.strictEq r))
  | .order op => ofExcept (compareValues op l r)
  | .concat => .value (.str (l.text ++ r.text))
  | .arith .add =>
    match readNumber l, readNumber r with
    | .ok a, .ok b => arith op a b
    | .error e, _ | _, .error e =>
      if isText l || isText r then .value (.str (l.text ++ r.text)) else .error e
  | .arith .sub | .arith .mul | .arith .div | .arith .rem => do
    let a ← ofExcept (readNumber l)
    let b ← ofExcept (readNumber r)
    arith op a b
  | .and | .or => .panic .unreachable

def applyUnary (op : UnaryOp) (v : Value) : Outcome Value :=
  match op with
  | .not => .value (.bool (!v.truthy))
  | .pos => ofExcept (readNumber v)
  | .neg => do
    match ← ofExcept (readNumber v) with
    | .int n => checked .overflow ((fit? (-n.toInt)).map Value.int)
    | .float x => .value (.float x.neg)
    | .decimal d => .value (.decimal d.neg)
    | _ => .panic .unreachable

/-- An index below zero is counted from the end of `size` elements. -/
def countedFromEnd (n : Int64) (size : Nat) : Outcome Int64 :=
  if n < 0 then do
    let total ← length size
    add total n
  else pure n

/-- The position among `size` elements that an index stands for. -/
def indexPosition (index : Value) (size : Nat) : Outcome (Option Nat) :=
  match index.toInt64? with
  | none => pure none
  | some n => do
    let i ← countedFromEnd n size
    pure (if 0 ≤ i then some (position i) else none)

def indexValue (object index : Value) : Outcome Value :=
  match object with
  | .list items => do
    let i? ← indexPosition index items.length
    pure ((i?.bind fun i => items[i]?).getD .null)
  | .map entries => .value ((Entries.get? entries index.text).getD .null)
  | .str s => do
    let i? ← indexPosition index s.length
    match i?.bind fun i => s.toList[i]? with
    | some c => pure (.str (String.singleton c))
    | none => pure .null
  | _ => .value .null

/-! ## Functions -/

def checkCount (name : String) (args : List Value) (least most : Nat) : Outcome Unit :=
  if args.length < least ∨ most < args.length then
    .error (.wrongArgCount name (.between least most) args.length)
  else pure ()

/-- Where to start among `total` characters, counted from their end below zero. -/
def cutStart (total start : Int64) : Outcome Int64 :=
  if start < 0 then do
    let n ← add total start
    pure (max n 0)
  else pure (min start total)

/-- Where to stop, a length below zero counted from the end. -/
def cutStop (total start : Int64) (length? : Option Int64) : Outcome Int64 :=
  match length? with
  | none => pure total
  | some n =>
    if n < 0 then do
      let m ← add total n
      pure (max m start)
    else pure (min (saturatingAdd start n) total)

def cut (s : List Char) (start : Int64) (length? : Option Int64) : Outcome (List Char) := do
  let total ← length s.length
  let first ← cutStart total start
  let last ← cutStop total first length?
  slice s (position first) (position last)

/-- An integer that may be left out or be null. -/
def optionalInteger (name : String) : Option Value → Outcome (Option Int64)
  | none | some .null => pure none
  | some v => do
    let n ← ofExcept (integerArg name v)
    pure (some n)

def substring (name : String) (args : List Value) : Outcome Value := do
  checkCount name args 2 3
  let s ← argument args 0
  let start ← ofExcept (integerArg name (← argument args 1))
  let length? ← optionalInteger name args[2]?
  let chars ← cut s.text.toList start length?
  pure (.str (String.ofList chars))

def withNumber (name : String) (args : List Value) (f : Value → Outcome Value) : Outcome Value :=
  match args with
  | [v] => do f (← ofExcept (readNumber v))
  | _ => ofExcept (countError name (.exactly 1) args)

def absolute : Value → Outcome Value
  | .int n => checked .overflow ((fit? n.toInt.natAbs).map Value.int)
  | .float x => .value (.float (Double.absolute x))
  | .decimal d => .value (.decimal d.abs)
  | _ => .panic .unreachable

def roundNumber (places : Nat) : Value → Outcome Value
  | .int n => .value (.int n)
  | .float x =>
    let factor := Float.ofNat (tenTo places)
    .value (.float (Double.round (x * factor) / factor))
  | .decimal d => .value (.decimal (d.round places))
  | _ => .panic .unreachable

/-- Rounds a number to a whole one, up or down. -/
def wholeNumber (up : Bool) : Value → Outcome Value
  | .int n => .value (.int n)
  | .float x => .value (.float (if up then Double.ceil x else Double.floor x))
  | .decimal d => .value (.decimal (if up then d.ceil else d.floor))
  | _ => .panic .unreachable

/-- How many places to keep, none if it is left out. -/
def placesArgument (name : String) : Option Value → Outcome Nat
  | some v => do
    let n ← ofExcept (integerArg name v)
    pure (position (min (max n 0) 15))
  | none => pure 0

def rounded (name : String) (args : List Value) : Outcome Value := do
  checkCount name args 1 2
  let places ← placesArgument name args[1]?
  let v ← argument args 0
  let number ← ofExcept (readNumber v)
  roundNumber places number

/-- The elements of a single collection, otherwise the arguments themselves. -/
def comparedValues (args : List Value) : Outcome (List Value) :=
  if args.length = 1 then do
    let v ← argument args 0
    if v.entries?.isSome then
      match args.head? with
      | some (.list items) => pure items
      | some (.map entries) => pure (entries.map (·.2))
      | _ => pure []
    else pure args
  else pure args

def extreme (name : String) (wanted : Ordering) (args : List Value) : Outcome Value :=
  if args.isEmpty then ofExcept (countError name (.atLeast 1) args)
  else do
    match ← comparedValues args with
    | [] => pure .null
    | v :: vs => ofExcept (Function.extremeFrom name wanted v vs)

/-- How many steps of this size fit between two integers, and one more. -/
def stepCount (start stop step : Int64) : Outcome Int := do
  let difference ← wide (stop.toInt - start.toInt)
  let distance ← wide difference.natAbs
  let steps ← divideWide distance step.toInt
  wide (steps + 1)

/-- The way from one element to the next. -/
def stride (start stop step : Int64) : Outcome Int :=
  if stop < start then wide (-step.toInt) else pure step.toInt

def element (start : Int64) (stride : Int) (i : Nat) : Outcome Int64 := do
  let offset ← wide (i * stride)
  let n ← wide (start.toInt + offset)
  checked .overflow (fit? n)

def elements (start : Int64) (stride : Int) : List Nat → Outcome (List Int64)
  | [] => pure []
  | i :: is => do
    let n ← element start stride i
    let ns ← elements start stride is
    pure (n :: ns)

def progression (start stop step : Int64) : Outcome Value :=
  if step = 0 then .error (.typeFault .zeroStep)
  else do
    let count ← stepCount start stop step
    if maxRangeLength < count then .error (.typeFault .rangeTooLong)
    else do
      let stride ← stride start stop step
      let ns ← elements start stride (List.range count.toNat)
      pure (.list (ns.map .int))

/-- The size of the steps, one if it is left out. -/
def stepArgument (name : String) : Option Value → Outcome Int64
  | some v => do
    let n ← ofExcept (integerArg name v)
    checked .overflow (fit? n.toInt.natAbs)
  | none => pure 1

def rangeOf (name : String) (args : List Value) : Outcome Value := do
  checkCount name args 2 3
  let start ← ofExcept (integerArg name (← argument args 0))
  let stop ← ofExcept (integerArg name (← argument args 1))
  let step ← stepArgument name args[2]?
  progression start stop step

/-- The functions that take arguments by position, work on integers or have an impossible case are
written out; the others only take their arguments by pattern. -/
def apply (f : Function) (name : String) (args : List Value) : Outcome Value :=
  match f with
  | .substr => substring name args
  | .abs => withNumber name args absolute
  | .round => rounded name args
  | .floor => withNumber name args (wholeNumber false)
  | .ceil => withNumber name args (wholeNumber true)
  | .min => extreme name .lt args
  | .max => extreme name .gt args
  | .range => rangeOf name args
  | f => ofExcept (f.apply name args)

def callFunction (name : String) (args : List Value) : Outcome Value :=
  match Function.ofName? name with
  | some f => apply f name args
  | none => .error (.unknownFunction name)

/-! ## Expressions -/

/-- An argument that may fail, which then counts as null, or one that may not. -/
def argumentOf (forgives : Bool) (o : Outcome Value) : Outcome Value :=
  if forgives then do
    match ← o.caught with
    | .ok v => pure v
    | .error _ => pure .null
  else o

mutual

def eval (c : Context) : Expr → Outcome Value
  | .literal v => pure v
  | .var x => pure ((c.get? x).getD .null)
  | .name x => checked (.undefinedName x) (c.get? x)
  | .list items => do
    let vs ← evalItems c items
    pure (.list vs)
  | .member object key => do
    let v ← eval c object
    pure ((v.get? key).getD .null)
  | .index object place => do
    let v ← eval c object
    let i ← eval c place
    indexValue v i
  | .call function args => do
    let vs ← evalArgs c function 0 args
    callFunction function vs
  | .unary op operand => do
    let v ← eval c operand
    applyUnary op v
  | .binary .and left right => do
    let l ← eval c left
    if l.truthy then do
      let r ← eval c right
      pure (.bool r.truthy)
    else pure (.bool false)
  | .binary .or left right => do
    let l ← eval c left
    if l.truthy then pure (.bool true)
    else do
      let r ← eval c right
      pure (.bool r.truthy)
  | .binary op left right => do
    let l ← eval c left
    let r ← eval c right
    applyBinary op l r
  | .ternary condition yes no => do
    let v ← eval c condition
    if v.truthy then eval c yes else eval c no
  | .orElse condition no => do
    let v ← eval c condition
    if v.truthy then pure v else eval c no
  | .coalesce left right => do
    match ← (eval c left).caught with
    | .ok v => if v.isNull then eval c right else pure v
    | .error _ => eval c right

def evalItems (c : Context) : List Expr → Outcome (List Value)
  | [] => pure []
  | e :: es => do
    let v ← eval c e
    let vs ← evalItems c es
    pure (v :: vs)

def evalArgs (c : Context) (function : String) (position : Nat) : List Expr → Outcome (List Value)
  | [] => pure []
  | e :: es => do
    let v ← argumentOf (Function.forgives function position) (eval c e)
    let vs ← evalArgs c function (position + 1) es
    pure (v :: vs)

end

/-- The outcome of evaluating a text. -/
def tryEvaluate (s : List Char) (c : Context) : Outcome Value :=
  match parse s with
  | .ok e => eval c e
  | .error e => .error (.parsing e)

end Stencil.Expr.Machine
