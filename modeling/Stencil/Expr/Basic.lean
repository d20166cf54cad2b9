import Stencil.Value.Basic

/-!
Expressions.

A variable `$name` may be undefined, a bare name may not. The short conditional `c ?: b` gives the
value of its condition when that counts as true. Operators are grouped by what they work on, so that
arithmetic only ever meets the five arithmetic ones.
-/

namespace Stencil.Expr

inductive ArithOp where
  | add | sub | mul | div | rem
  deriving DecidableEq

inductive OrderOp where
  | lt | le | gt | ge
  deriving DecidableEq

inductive BinaryOp where
  | and
  | or
  | concat
  | equal
  | notEqual
  | strictEqual
  | notStrictEqual
  | order (op : OrderOp)
  | arith (op : ArithOp)
  deriving DecidableEq

inductive UnaryOp where
  | not | neg | pos
  deriving DecidableEq

end Stencil.Expr

namespace Stencil

inductive Expr where
  | literal (v : Value)
  | var (name : String)
  | name (name : String)
  | list (items : List Expr)
  | member (object : Expr) (name : String)
  | index (object index : Expr)
  | call (function : String) (args : List Expr)
  | unary (op : Expr.UnaryOp) (operand : Expr)
  | binary (op : Expr.BinaryOp) (left right : Expr)
  | ternary (condition yes no : Expr)
  /-- The conditional without a middle, `c ?: b`. -/
  | orElse (condition no : Expr)
  /-- The left value, or the right one where the left is null or fails. -/
  | coalesce (left right : Expr)

end Stencil
