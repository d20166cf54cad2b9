import Stencil.Expr.Token

/-!
What can go wrong in an expression.

`SyntaxError` lists the faults of lexing and parsing, `EvalError` those of evaluation. Each has one
function for its message.
-/

namespace Stencil.Expr

inductive SyntaxError where
  | emptyExpression
  /-- A complete expression is followed by more tokens. -/
  | unexpectedToken (t : Token)
  | expectedSymbol (s : Symbol) (found : Option Token)
  | expectedMember (found : Option Token)
  | expectedExpression (found : Option Token)
  | missingName (offset : Nat)
  | unexpectedCharacter (c : Char) (offset : Nat)
  | unterminatedString (offset : Nat)

def numberText (n : Nat) : String := String.ofList (digits n)

def SyntaxError.message : SyntaxError → String
  | emptyExpression => "empty expression"
  | unexpectedToken t => "unexpected " ++ t.label
  | expectedSymbol s (some t) => "expected " ++ s.label ++ ", got " ++ t.label
  | expectedSymbol s none => "expected " ++ s.label ++ ", got end of expression"
  | expectedMember t? => "expected a name after `.`, got " ++ Token.labelOf t?
  | expectedExpression t? => "expected expression, got " ++ Token.labelOf t?
  | missingName offset => "expected a name after `$` at offset " ++ numberText offset
  | unexpectedCharacter c offset =>
    "unexpected character `" ++ String.singleton c ++ "` at offset " ++ numberText offset
  | unterminatedString offset => "unterminated string starting at offset " ++ numberText offset

/-- A value of the wrong kind. -/
inductive TypeFault where
  | nonNumericText (s : String)
  | notANumber (kind : String)
  | nonNumericOperands
  | incomparable (left right : String)
  /-- A function that compares its arguments met two without an order. -/
  | incomparableIn (function left right : String)
  | expectedInteger (function kind : String)
  | zeroStep
  | rangeTooLong

/-- The number of elements that a range may have. -/
def maxRangeLength : Nat := 100000

def TypeFault.message : TypeFault → String
  | nonNumericText s => "non-numeric string `" ++ s ++ "`"
  | notANumber kind => kind ++ " is not a number"
  | nonNumericOperands => "non-numeric operands"
  | incomparable l r => "cannot compare " ++ l ++ " with " ++ r
  | incomparableIn f l r => f ++ ": cannot compare " ++ l ++ " with " ++ r
  | expectedInteger f kind => f ++ ": expected an integer, got " ++ kind
  | zeroStep => "range: step must not be 0"
  | rangeTooLong => "range: more than " ++ numberText maxRangeLength ++ " elements"

/-- How many arguments a function takes. -/
inductive ArgCount where
  | exactly (n : Nat)
  | between (least most : Nat)
  | atLeast (n : Nat)

def ArgCount.text : ArgCount → String
  | exactly n => numberText n
  | between least most => numberText least ++ " to " ++ numberText most
  | atLeast n => "at least " ++ numberText n

inductive EvalError where
  | parsing (e : SyntaxError)
  | undefinedName (name : String)
  | typeFault (f : TypeFault)
  | divisionByZero
  | overflow
  | unknownFunction (name : String)
  | wrongArgCount (function : String) (expected : ArgCount) (found : Nat)

def EvalError.message : EvalError → String
  | parsing e => "syntax error: " ++ e.message
  | undefinedName name => "undefined name `" ++ name ++ "`"
  | typeFault f => "type error: " ++ f.message
  | divisionByZero => "division by zero"
  | overflow => "integer overflow"
  | unknownFunction name => "unknown function `" ++ name ++ "`"
  | wrongArgCount function expected found =>
    "`" ++ function ++ "` expects " ++ expected.text ++ " argument(s), got " ++ numberText found

end Stencil.Expr
