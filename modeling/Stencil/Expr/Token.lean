import Stencil.Number.FloatText
import Stencil.Text.Shown

/-!
Tokens of the expression language.

Keywords such as `and` and `true` are names at this level. Integers carry no sign.
-/

namespace Stencil.Expr

inductive Symbol where
  | lParen | rParen | lBracket | rBracket | comma | dot | arrow | question | colon | coalesce
  | not | andAnd | orOr | eqEq | notEq | strictEq | strictNotEq | lt | le | gt | ge
  | plus | minus | star | slash | percent | tilde
  deriving DecidableEq

inductive Token where
  | int (n : Int64)
  | float (x : Float)
  | str (s : String)
  /-- A name after a dollar sign. -/
  | var (name : String)
  | name (name : String)
  | symbol (s : Symbol)

/-- The spellings of the symbols. Of two spellings that start alike the longer one comes first. -/
def Symbol.spellings : List (List Char × Symbol) :=
  [(['=', '=', '='], .strictEq), (['!', '=', '='], .strictNotEq), (['=', '='], .eqEq),
   (['!', '='], .notEq), (['<', '>'], .notEq), (['<', '='], .le), (['>', '='], .ge),
   (['&', '&'], .andAnd), (['|', '|'], .orOr), (['?', '?'], .coalesce), (['-', '>'], .arrow),
   (['<'], .lt), (['>'], .gt), (['!'], .not), (['?'], .question), ([':'], .colon),
   (['('], .lParen), ([')'], .rParen), (['['], .lBracket), ([']'], .rBracket), ([','], .comma),
   (['+'], .plus), (['-'], .minus), (['*'], .star), (['/'], .slash), (['%'], .percent),
   (['~'], .tilde), (['.'], .dot)]

/-- What a symbol is called in messages. -/
def Symbol.label : Symbol → String
  | lParen => "LParen"
  | rParen => "RParen"
  | lBracket => "LBracket"
  | rBracket => "RBracket"
  | comma => "Comma"
  | dot => "Dot"
  | arrow => "Arrow"
  | question => "Question"
  | colon => "Colon"
  | coalesce => "Coalesce"
  | not => "Not"
  | andAnd => "AndAnd"
  | orOr => "OrOr"
  | eqEq => "EqEq"
  | notEq => "NotEq"
  | strictEq => "StrictEq"
  | strictNotEq => "StrictNotEq"
  | lt => "Lt"
  | le => "Le"
  | gt => "Gt"
  | ge => "Ge"
  | plus => "Plus"
  | minus => "Minus"
  | star => "Star"
  | slash => "Slash"
  | percent => "Percent"
  | tilde => "Tilde"

/-- What a token is called in messages. -/
def Token.label : Token → String
  | int n => "Int(" ++ String.ofList (signedDigits n.toInt) ++ ")"
  | float x => "Float(" ++ String.ofList (FloatText.shown x) ++ ")"
  | str s => "Str(" ++ String.ofList (shownText s.toList) ++ ")"
  | var s => "Var(" ++ String.ofList (shownText s.toList) ++ ")"
  | name s => "Ident(" ++ String.ofList (shownText s.toList) ++ ")"
  | symbol s => s.label

/-- What a token that may be missing is called in messages. -/
def Token.labelOf : Option Token → String
  | some t => "Some(" ++ t.label ++ ")"
  | none => "None"

end Stencil.Expr
