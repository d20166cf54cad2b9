import Stencil.Expr.Basic
import Stencil.Expr.Lexer

/-!
From tokens to expressions.

From loosest to tightest the levels are: conditional, `??`, or, and, equality, comparison, sum,
product, sign, suffix, primary. Each level is a function of the parser for the next tighter one, and
the levels with brackets also of the parser `nested` for what stands inside; `expression` ties the
knot. A nested expression starts after at least one token, so the number of tokens bounds the
depth, and the parser for no tokens at all can only report that an expression is missing.
-/

namespace Stencil.Expr.Grammar

abbrev Parser (α : Type) := List Token → Except SyntaxError (α × List Token)

def expect (s : Symbol) : Parser Unit
  | .symbol t :: ts =>
    if t = s then .ok ((), ts) else .error (.expectedSymbol s (some (.symbol t)))
  | t :: _ => .error (.expectedSymbol s (some t))
  | [] => .error (.expectedSymbol s none)

/-- Goes on with `operator operand` while there is an operator; every round takes a token. -/
def chainFrom (operator? : Token → Option BinaryOp) (operand : Parser Expr) :
    Nat → Expr → Parser Expr
  | 0, left, ts => .ok (left, ts)
  | _ + 1, left, [] => .ok (left, [])
  | fuel + 1, left, t :: ts =>
    match operator? t with
    | none => .ok (left, t :: ts)
    | some op =>
      match operand ts with
      | .error e => .error e
      | .ok (right, ts) => chainFrom operator? operand fuel (.binary op left right) ts

/-- A level of operators that group to the left. -/
def chain (operator? : Token → Option BinaryOp) (operand : Parser Expr) : Parser Expr := fun ts =>
  match operand ts with
  | .error e => .error e
  | .ok (left, ts) => chainFrom operator? operand ts.length left ts

def isKeyword (word name : String) : Bool := sameWord name.toList word.toList

def orOp? : Token → Option BinaryOp
  | .symbol .orOr => some .or
  | .name n => if isKeyword "or" n then some .or else none
  | _ => none

def andOp? : Token → Option BinaryOp
  | .symbol .andAnd => some .and
  | .name n => if isKeyword "and" n then some .and else none
  | _ => none

def equalityOp? : Token → Option BinaryOp
  | .symbol .eqEq => some .equal
  | .symbol .notEq => some .notEqual
  | .symbol .strictEq => some .strictEqual
  | .symbol .strictNotEq => some .notStrictEqual
  | _ => none

def orderOp? : Token → Option BinaryOp
  | .symbol .lt => some (.order .lt)
  | .symbol .le => some (.order .le)
  | .symbol .gt => some (.order .gt)
  | .symbol .ge => some (.order .ge)
  | _ => none

def sumOp? : Token → Option BinaryOp
  | .symbol .plus => some (.arith .add)
  | .symbol .minus => some (.arith .sub)
  | .symbol .tilde => some .concat
  | _ => none

def productOp? : Token → Option BinaryOp
  | .symbol .star => some (.arith .mul)
  | .symbol .slash => some (.arith .div)
  | .symbol .percent => some (.arith .rem)
  | _ => none

def unaryOp? : Token → Option UnaryOp
  | .symbol .not => some .not
  | .symbol .minus => some .neg
  | .symbol .plus => some .pos
  | .name n => if isKeyword "not" n then some .not else none
  | _ => none

/-- Signs and negations before an operand. -/
def unary (operand : Parser Expr) : Parser Expr
  | [] => operand []
  | t :: ts =>
    match unaryOp? t with
    | none => operand (t :: ts)
    | some op =>
      match unary operand ts with
      | .error e => .error e
      | .ok (e, ts) => .ok (.unary op e, ts)

/-- The items up to the closing bracket, with commas between them and perhaps after the last. -/
def itemsFrom (nested : Parser Expr) (close : Symbol) : Nat → Parser (List Expr)
  | 0, ts => .error (.expectedExpression ts.head?)
  | fuel + 1, ts =>
    if let .symbol s :: rest := ts then
      if s = close then .ok ([], rest) else item fuel ts
    else item fuel ts
where
  item (fuel : Nat) (ts : List Token) : Except SyntaxError (List Expr × List Token) :=
    match nested ts with
    | .error e => .error e
    | .ok (e, .symbol .comma :: ts) =>
      match itemsFrom nested close fuel ts with
      | .error e => .error e
      | .ok (es, ts) => .ok (e :: es, ts)
    | .ok (e, ts) =>
      match expect close ts with
      | .error e => .error e
      | .ok (_, ts) => .ok ([e], ts)

def items (nested : Parser Expr) (close : Symbol) : Parser (List Expr) := fun ts =>
  itemsFrom nested close (ts.length + 1) ts

def lowerName (name : String) : String := String.ofList (lowerAscii name.toList)

/-- A bare name, which may be one of the literal words. -/
def ofName (name : String) : Expr :=
  if isKeyword "true" name then .literal (.bool true)
  else if isKeyword "false" name then .literal (.bool false)
  else if isKeyword "null" name then .literal .null
  else .name name

def primary (nested : Parser Expr) : Parser Expr
  | .int n :: ts => .ok (.literal (.int n), ts)
  | .float x :: ts => .ok (.literal (.float x), ts)
  | .str s :: ts => .ok (.literal (.str s), ts)
  | .var n :: ts => .ok (.var n, ts)
  | .name n :: .symbol .lParen :: ts =>
    match items nested .rParen ts with
    | .error e => .error e
    | .ok (args, ts) => .ok (.call (lowerName n) args, ts)
  | .name n :: ts => .ok (ofName n, ts)
  | .symbol .lParen :: ts =>
    match nested ts with
    | .error e => .error e
    | .ok (e, ts) =>
      match expect .rParen ts with
      | .error e => .error e
      | .ok (_, ts) => .ok (e, ts)
  | .symbol .lBracket :: ts =>
    match items nested .rBracket ts with
    | .error e => .error e
    | .ok (es, ts) => .ok (.list es, ts)
  | ts => .error (.expectedExpression ts.head?)

/-- What stands after a point or an arrow: a name, a call with the object as first argument, or an
index. -/
def member (nested : Parser Expr) (object : Expr) : Parser Expr
  | .name n :: .symbol .lParen :: ts =>
    match items nested .rParen ts with
    | .error e => .error e
    | .ok (args, ts) => .ok (.call (lowerName n) (object :: args), ts)
  | .name n :: ts => .ok (.member object n, ts)
  | .int n :: ts => .ok (.index object (.literal (.int n)), ts)
  | ts => .error (.expectedMember ts.head?)

def suffixesFrom (nested : Parser Expr) : Nat → Expr → Parser Expr
  | 0, e, ts => .ok (e, ts)
  | fuel + 1, e, .symbol .dot :: ts | fuel + 1, e, .symbol .arrow :: ts =>
    match member nested e ts with
    | .error e => .error e
    | .ok (e, ts) => suffixesFrom nested fuel e ts
  | fuel + 1, e, .symbol .lBracket :: ts =>
    match nested ts with
    | .error e => .error e
    | .ok (i, ts) =>
      match expect .rBracket ts with
      | .error e => .error e
      | .ok (_, ts) => suffixesFrom nested fuel (.index e i) ts
  | _ + 1, e, ts => .ok (e, ts)

/-- A primary expression with its suffixes. -/
def suffixed (nested : Parser Expr) : Parser Expr := fun ts =>
  match primary nested ts with
  | .error e => .error e
  | .ok (e, ts) => suffixesFrom nested ts.length e ts

/-- The levels from or down to primary. -/
def disjunction (nested : Parser Expr) : Parser Expr :=
  chain orOp? <| chain andOp? <| chain equalityOp? <| chain orderOp? <| chain sumOp? <|
    chain productOp? <| unary <| suffixed nested

/-- Operands joined by `??`, which groups to the right. -/
def coalesceFrom (operand : Parser Expr) : Nat → Parser Expr
  | 0, ts => operand ts
  | fuel + 1, ts =>
    match operand ts with
    | .error e => .error e
    | .ok (left, .symbol .coalesce :: ts) =>
      match coalesceFrom operand fuel ts with
      | .error e => .error e
      | .ok (right, ts) => .ok (.coalesce left right, ts)
    | .ok (left, ts) => .ok (left, ts)

def coalesced (operand : Parser Expr) : Parser Expr := fun ts => coalesceFrom operand ts.length ts

/-- The loosest level, `c ? a : b` and `c ?: b`. -/
def conditional (nested : Parser Expr) : Parser Expr := fun ts =>
  match coalesced (disjunction nested) ts with
  | .error e => .error e
  | .ok (c, .symbol .question :: .symbol .colon :: ts) =>
    match nested ts with
    | .error e => .error e
    | .ok (no, ts) => .ok (.orElse c no, ts)
  | .ok (c, .symbol .question :: ts) =>
    match nested ts with
    | .error e => .error e
    | .ok (yes, ts) =>
      match expect .colon ts with
      | .error e => .error e
      | .ok (_, ts) =>
        match nested ts with
        | .error e => .error e
        | .ok (no, ts) => .ok (.ternary c yes no, ts)
  | .ok (c, ts) => .ok (c, ts)

/-- The parser for expressions that nest at most `depth` deep. -/
def expression : Nat → Parser Expr
  | 0 => fun ts => .error (.expectedExpression ts.head?)
  | depth + 1 => conditional (expression depth)

end Grammar

/-- The expression that the whole token list spells. -/
def ofTokens (ts : List Token) : Except SyntaxError Expr :=
  if ts.isEmpty then .error .emptyExpression
  else
    match Grammar.expression ts.length ts with
    | .error e => .error e
    | .ok (e, []) => .ok e
    | .ok (_, t :: _) => .error (.unexpectedToken t)

def parse (s : List Char) : Except SyntaxError Expr :=
  match lex s with
  | .error e => .error e
  | .ok ts => ofTokens ts

end Stencil.Expr
