import Stencil.Entries
import Stencil.Text.Blank
import Stencil.Text.Quoted
import Stencil.Text.Split
import Stencil.Text.Word

/-!
Tag lines.

A tag is a name, perhaps with `.class` and `#id` glued to it, a list of attributes in parentheses,
attributes between spaces, and text. Attribute values stay unevaluated. Of the words after the name
those that assign a value or name a boolean attribute are attributes; the first other word starts
the text. Values given for `class` are joined, every other attribute keeps the last one.
-/

namespace Stencil

structure Tag where
  name : String
  /-- The raw value of each attribute. -/
  attrs : Entries String
  text : Option String
  /-- Void elements have no text, no children and no closing tag. -/
  isVoid : Bool

/-- Whether the deeper lines that follow belong to the tag. -/
def Tag.opensBlock (t : Tag) : Bool := !t.isVoid && t.text.isNone

namespace Tag

def voidNames : List String :=
  ["br", "img", "hr", "input", "meta", "link", "source", "area", "base", "col", "embed", "param",
   "track", "wbr"]

/-- The names that stand for an attribute without a value among the words of a tag line. -/
def booleanNames : List String :=
  ["disabled", "checked", "selected", "readonly", "required", "multiple", "autofocus", "hidden",
   "async", "defer", "novalidate", "open", "controls", "autoplay", "loop", "muted", "reversed",
   "ismap", "default", "formnovalidate", "nomodule", "playsinline", "allowfullscreen", "inert",
   "itemscope"]

def isVoidName (name : List Char) : Bool := voidNames.contains (String.ofList (lowerAscii name))

def isBooleanName (name : List Char) : Bool :=
  booleanNames.contains (String.ofList (lowerAscii name))

def isAttrStart (c : Char) : Bool := c.isAlpha || c == '_' || c == ':'

def isAttrChar (c : Char) : Bool := c.isAlphanum || c == '_' || c == ':' || c == '-'

def isAttrName : List Char → Bool
  | [] => false
  | c :: cs => isAttrStart c && cs.all isAttrChar

/-- The two sides of `name=value`, for a name that an attribute can have and a value that is not
empty. -/
def assignment? (word : List Char) : Option (List Char × List Char) :=
  match splitOnce '=' word with
  | some (name, value) => if isAttrName name && !value.isEmpty then some (name, value) else none
  | none => none

/-- Joins two raw class values. Two quoted ones become one quoted text, so that their markers stay
markers; anything else becomes an expression that puts a space between them. -/
def mergeClass (first second : List Char) : List Char :=
  if isQuoted first && isQuoted second then
    let quote := second.take 1
    quote ++ unquote first ++ ' ' :: unquote second ++ quote
  else '(' :: first ++ ") ~ ' ' ~ (".toList ++ second ++ [')']

def addAttr (attrs : Entries String) (name value : List Char) : Entries String :=
  let name := String.ofList name
  let value :=
    match attrs.get? name with
    | some old => if name == "class" then mergeClass old.toList value else value
    | none => value
  Entries.insert name (String.ofList value) attrs

def isShorthandChar (c : Char) : Bool := c.isAlphanum || c == '_' || c == '-'

/-- The `.class` and `#id` parts at the front of a text, each with its sign, and what follows. -/
def shorthandsFrom : Nat → List Char → List (Char × List Char) × List Char
  | 0, s => ([], s)
  | _ + 1, [] => ([], [])
  | _ + 1, [c] => ([], [c])
  | fuel + 1, sign :: c :: cs =>
    if (sign == '.' || sign == '#') && isNameStart c then
      let (more, rest) := shorthandsFrom fuel (cs.dropWhile isShorthandChar)
      ((sign, c :: cs.takeWhile isShorthandChar) :: more, rest)
    else ([], sign :: c :: cs)

/-- The attributes of the shorthands: all classes as one value, and the last id. -/
def shorthandAttrs (parts : List (Char × List Char)) : Entries String :=
  let quoted (s : List Char) : List Char := '"' :: s ++ ['"']
  let classes := (parts.filter (·.1 == '.')).map (·.2)
  let ids := (parts.filter (·.1 == '#')).map (·.2)
  let attrs :=
    if classes.isEmpty then [] else addAttr [] "class".toList (quoted ([' '].intercalate classes))
  match ids.getLast? with
  | none => attrs
  | some id => addAttr attrs "id".toList (quoted id)

/-- Adds a part of the list in parentheses, where a bare name counts as true. -/
def addListed (attrs : Entries String) (word : List Char) : Entries String :=
  match assignment? word with
  | some (name, value) => addAttr attrs name value
  | none => if isAttrName word then addAttr attrs word "true".toList else attrs

/-- The attributes in parentheses at the front of a text, and what follows them. -/
def listedAttrs (attrs : Entries String) (s : List Char) : Entries String × List Char :=
  match s with
  | '(' :: inside =>
    match splitParens inside with
    | some (inside, rest) =>
      ((splitUnquoted (fun c => c == ' ' || c == ',') inside).foldl addListed attrs, rest)
    | none => (attrs, s)
  | _ => (attrs, s)

/-- The attributes at the front of a list of words, and the words of the text. -/
def wordAttrs (attrs : Entries String) : List (List Char) → Entries String × List (List Char)
  | [] => (attrs, [])
  | word :: rest =>
    match assignment? word with
    | some (name, value) => wordAttrs (addAttr attrs name value) rest
    | none =>
      if isAttrName word && isBooleanName word then
        wordAttrs (addAttr attrs word "true".toList) rest
      else (attrs, word :: rest)

/-- The tag that a line spells: it starts with a letter, and no underscore follows its name. -/
def ofLine? (line : List Char) : Option Tag :=
  let name := line.takeWhile Char.isAlphanum
  let rest := line.dropWhile Char.isAlphanum
  if !line.head?.any Char.isAlpha || rest.head? == some '_' then none
  else
    let (parts, rest) := shorthandsFrom rest.length rest
    let (attrs, rest) := listedAttrs (shorthandAttrs parts) rest
    let (attrs, text) := wordAttrs attrs (words (trim rest))
    some
      { name := String.ofList name
        attrs := attrs
        text := if text.isEmpty || isVoidName name then none
          else some (String.ofList ([' '].intercalate text))
        isVoid := isVoidName name }

end Tag

end Stencil
