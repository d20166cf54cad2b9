import Stencil.Context
import Stencil.Expr.Function
import Stencil.Expr.Grammar

/-!
The value of an expression in a context.

`eval` follows the expression from left to right and stops at the first error; `&&`, `||` and the
conditionals evaluate only what they need. `??` and the functions that ask whether a value is there
turn errors into null. `evaluate` is what templates use: it looks a lone name up at once and gives
null for every error.
-/

namespace Stencil.Expr

mutual

def eval (c : Context) : Expr → Except EvalError Value
  | .literal v => .ok v
  | .var x => .ok ((c.get? x).getD .null)
  | .name x =>
    match c.get? x with
    | some v => .ok v
    | none => .error (.undefinedName x)
  | .list items =>
    match evalItems c items with
    | .ok vs => .ok (.list vs)
    | .error e => .error e
  | .member object key =>
    match eval c object with
    | .ok v => .ok ((v.get? key).getD .null)
    | .error e => .error e
  | .index object place =>
    match eval c object with
    | .error e => .error e
    | .ok v =>
      match eval c place with
      | .error e => .error e
      | .ok i => .ok (indexValue v i)
  | .call function args =>
    match evalArgs c function 0 args with
    | .ok vs => callFunction function vs
    | .error e => .error e
  | .unary op operand =>
    match eval c operand with
    | .ok v => applyUnary op v
    | .error e => .error e
  | .binary op left right =>
    match eval c left with
    | .error e => .error e
    | .ok l =>
      if op == .and && !l.truthy then .ok (.bool false)
      else if op == .or && l.truthy then .ok (.bool true)
      else
        match eval c right with
        | .error e => .error e
        | .ok r => applyBinary op l r
  | .ternary condition yes no =>
    match eval c condition with
    | .error e => .error e
    | .ok v => if v.truthy then eval c yes else eval c no
  | .orElse condition no =>
    match eval c condition with
    | .error e => .error e
    | .ok v => if v.truthy then .ok v else eval c no
  | .coalesce left right =>
    match eval c left with
    | .ok v => if v.isNull then eval c right else .ok v
    | .error _ => eval c right

def evalItems (c : Context) : List Expr → Except EvalError (List Value)
  | [] => .ok []
  | e :: es =>
    match eval c e with
    | .error e => .error e
    | .ok v =>
      match evalItems c es with
      | .error e => .error e
      | .ok vs => .ok (v :: vs)

/-- The arguments of a function from a position on. -/
def evalArgs (c : Context) (function : String) (position : Nat) :
    List Expr → Except EvalError (List Value)
  | [] => .ok []
  | e :: es =>
    let v? := match eval c e with
      | .ok v => Except.ok v
      | .error e => if Function.forgives function position then .ok .null else .error e
    match v? with
    | .error e => .error e
    | .ok v =>
      match evalArgs c function (position + 1) es with
      | .error e => .error e
      | .ok vs => .ok (v :: vs)

end

/-- The value of an expression text, or what is wrong with it. -/
def tryEvaluate (s : List Char) (c : Context) : Except EvalError Value :=
  match parse s with
  | .ok e => eval c e
  | .error e => .error (.parsing e)

/-- The value of a text that is just a variable, or just the name of something in the context. -/
def lookUp? (s : List Char) (c : Context) : Option Value :=
  match s with
  | '$' :: x => if isName x then some ((c.get? (String.ofList x)).getD .null) else none
  | x => if isName x then c.get? (String.ofList x) else none

/-- The value of an expression text in a template: null if anything is wrong with it. -/
def evaluate (s : List Char) (c : Context) : Value :=
  let s := trim s
  match lookUp? s c with
  | some v => v
  | none =>
    match tryEvaluate s c with
    | .ok v => v
    | .error _ => .null

end Stencil.Expr
