import Stencil.Expr.Error
import Stencil.Text.Blank
import Stencil.Text.Word

/-!
From the text of an expression to its tokens.

White space separates tokens and is dropped. A number starts with a digit, may have underscores
between its digits, and takes a point into itself only when a digit follows, so that `list.0` stays
a member access. An integer too large for sixty-four bits becomes a float. In a string a backslash
takes the next character literally, except for the three control letters.
-/

namespace Stencil.Expr

def byteSize (s : List Char) : Nat := s.foldl (fun n c => n + c.utf8Size) 0

def isNumberChar (c : Char) : Bool := c.isDigit || c == '_'

/-- A run of digits and underscores without the underscores, and what follows it. -/
def splitDigits (s : List Char) : List Char × List Char :=
  ((s.takeWhile isNumberChar).filter Char.isDigit, s.dropWhile isNumberChar)

/-- The digits after a point that a digit follows. -/
def splitFraction (s : List Char) : Option (List Char) × List Char :=
  match s with
  | '.' :: d :: rest =>
    if d.isDigit then
      let (ds, rest) := splitDigits (d :: rest)
      (some ds, rest)
    else (none, s)
  | _ => (none, s)

/-- The digits of an exponent and its sign: an `e`, perhaps a sign, and a digit. -/
def splitExponent (s : List Char) : Option Int × List Char :=
  match s with
  | e :: rest =>
    if e == 'e' || e == 'E' then
      let (negative, rest) := match rest with
        | '-' :: rest => (true, rest)
        | '+' :: rest => (false, rest)
        | rest => (false, rest)
      if rest.head?.any Char.isDigit then
        let (ds, rest) := splitDigits rest
        (some (if negative then -(valueOf ds : Int) else valueOf ds), rest)
      else (none, s)
    else (none, s)
  | [] => (none, s)

/-- The number at the front of a text that starts with a digit. -/
def lexNumber (s : List Char) : Token × List Char :=
  let (whole, rest) := splitDigits s
  let (fraction?, rest) := splitFraction rest
  let (exponent?, rest) := splitExponent rest
  let float := fun (fraction : List Char) (exponent : Int) =>
    FloatText.nearest (valueOf (whole ++ fraction)) (exponent - fraction.length)
  match fraction?, exponent? with
  | none, none =>
    match fit? (valueOf whole) with
    | some n => (.int n, rest)
    | none => (.float (float [] 0), rest)
  | _, _ => (.float (float (fraction?.getD []) (exponent?.getD 0)), rest)

/-- What a backslash and a character stand for. -/
def unescape : Char → Char
  | 'n' => '\n'
  | 't' => '\t'
  | 'r' => '\r'
  | c => c

/-- The contents of a string up to its closing quote, in front of `done` backwards, and the text
after it. -/
def lexString (quote : Char) (done : List Char) : List Char → Option (List Char × List Char)
  | [] => none
  | '\\' :: [] => none
  | '\\' :: c :: cs => lexString quote (unescape c :: done) cs
  | c :: cs => if c == quote then some (done.reverse, cs) else lexString quote (c :: done) cs

def lexSymbol (s : List Char) : Option (Symbol × List Char) :=
  (Symbol.spellings.find? fun (spelling, _) => spelling.isPrefixOf s).map
    fun (spelling, symbol) => (symbol, s.drop spelling.length)

/-- The token at the front of the text `c :: cs`, the last part of a source of `total` bytes. -/
def lexToken (total : Nat) (c : Char) (cs : List Char) : Except SyntaxError (Token × List Char) :=
  if c.isDigit then .ok (lexNumber (c :: cs))
  else if c == '\'' || c == '"' then
    match lexString c [] cs with
    | some (s, rest) => .ok (.str (String.ofList s), rest)
    | none => .error (.unterminatedString (total - byteSize (c :: cs)))
  else if c == '$' then
    match splitName cs with
    | ([], _) => .error (.missingName (total - byteSize (c :: cs)))
    | (name, rest) => .ok (.var (String.ofList name), rest)
  else
    match splitName (c :: cs) with
    | ([], _) =>
      match lexSymbol (c :: cs) with
      | some (s, rest) => .ok (.symbol s, rest)
      | none => .error (.unexpectedCharacter c (total - byteSize (c :: cs)))
    | (name, rest) => .ok (.name (String.ofList name), rest)

/-- The tokens of the last part `s` of a source of `total` bytes. -/
def lexFrom (total : Nat) : Nat → List Char → Except SyntaxError (List Token)
  | 0, _ => .ok []
  | fuel + 1, s =>
    match trimStart s with
    | [] => .ok []
    | c :: cs =>
      match lexToken total c cs with
      | .error e => .error e
      | .ok (t, rest) =>
        match lexFrom total fuel rest with
        | .error e => .error e
        | .ok ts => .ok (t :: ts)

/-- The tokens of a text. Each takes at least one character, so there are no more tokens than
characters. -/
def lex (s : List Char) : Except SyntaxError (List Token) := lexFrom (byteSize s) s.length s

end Stencil.Expr
