import Stencil.Render.Error
import Stencil.Template.LoopHeader
import Stencil.Template.Marker
import Stencil.Template.Tree

/-!
Rendering a forest.

A `Rendering` goes from a context to a text, or an error, and the context after it. Loops bind their
variables for one entry at a time and roll them back, also after an error, so that a rendering
leaves the context as it was.

An `if` and the `elseif` and `else` siblings right after it on its level are one chain, of which the
first branch that holds is rendered. While the siblings are gone through, a `Chain` says whether one
is open and whether it has its branch.

How an include is rendered is a parameter.
-/

namespace Stencil

abbrev Rendering := Context → Except Stop String × Context

namespace Rendering

def emit (s : String) : Rendering := fun c => (.ok s, c)

/-- One rendering after the other; the first error ends both. -/
def append (a b : Rendering) : Rendering := fun c =>
  match a c with
  | (.error e, c) => (.error e, c)
  | (.ok s, c) =>
    match b c with
    | (.error e, c) => (.error e, c)
    | (.ok t, c) => (.ok (s ++ t), c)

end Rendering

instance : Append Rendering := ⟨Rendering.append⟩

/-- What an include with these arguments gives in a context. -/
abbrev Includer := String → Context → Except Stop String

inductive Chain where
  | closed
  /-- A chain on a level, and whether a branch of it was taken. -/
  | opened (level : Nat) (taken : Bool)
  deriving DecidableEq

/-- Whether an argument text counts as true. -/
def holds (args : String) (c : Context) : Bool :=
  args != "" && (Expr.evaluate args.toList c).truthy

/-- For a branch of a chain: whether it is rendered, and the chain after it. -/
def Chain.branch (chain : Chain) (level : Nat) (kind : DirectiveKind) (args : String)
    (c : Context) : Bool × Chain :=
  match kind, chain with
  | .ifCase, _ =>
    let taken := holds args c
    (taken, .opened level taken)
  | .elseIf, .opened l taken =>
    if l != level then (false, .closed)
    else if taken then (false, .opened l true)
    else
      let now := holds args c
      (now, .opened l now)
  | .otherwise, .opened l taken =>
    if l != level then (false, .closed) else (!taken, .opened l true)
  | _, _ => (false, .closed)

/-- The context with the loop variables of one entry. -/
def LoopHeader.bind (h : LoopHeader) (key value : Value) (c : Context) : Context :=
  let c := match h.key with
    | some k => c.set k key
    | none => c
  c.set h.value value

def LoopHeader.names (h : LoopHeader) : List String := h.key.toList ++ [h.value]

/-- Renders the body for one entry after the other, in front of which `done` was rendered. -/
def renderEntries (h : LoopHeader) (body : Rendering) (done : String) :
    List (Value × Value) → Rendering
  | [] => Rendering.emit done
  | (key, value) :: rest => fun c =>
    let cp := c.checkpoint h.names
    match body (h.bind key value c) with
    | (.error e, c) => (.error e, c.rollback cp)
    | (.ok s, c) => renderEntries h body (done ++ s) rest (c.rollback cp)

/-- A malformed header, or a value that is no collection, renders nothing. -/
def renderLoop (args : String) (body : Rendering) : Rendering := fun c =>
  match LoopHeader.ofText? args.toList with
  | none => (.ok "", c)
  | some h =>
    match (Expr.evaluate h.iterable c).entries? with
    | none => (.ok "", c)
    | some entries => renderEntries h body "" entries c

/-- An attribute in a start tag: left out when null or false, a bare name when true. -/
def attributeText (c : Context) (attr : String × String) : String :=
  match attributeValue attr.2.toList c with
  | .bool true => " " ++ attr.1
  | .bool false | .null => ""
  | v => " " ++ attr.1 ++ "=\"" ++ String.ofList (escape v.attributeText.toList) ++ "\""

def startTag (t : Tag) (c : Context) : String :=
  "<" ++ t.name ++ String.join (t.attrs.map (attributeText c)) ++ ">"

def endTag (t : Tag) : String := "</" ++ t.name ++ ">\n"

def renderTag (t : Tag) (children : Rendering) : Rendering := fun c =>
  if t.isVoid then (.ok (startTag t c ++ "\n"), c)
  else
    match t.text with
    | some text =>
      (.ok (startTag t c ++ String.ofList (interpolate .html text.toList c) ++ endTag t), c)
    | none =>
      (Rendering.emit (startTag t c ++ "\n") ++ children ++ Rendering.emit (endTag t)) c

/-- Renders everything but the branches of chains. -/
def renderContent (includer : Includer) (children : Rendering) : Content → Rendering
  | .doctype => Rendering.emit "<!DOCTYPE html>\n"
  | .text s => Rendering.emit (String.ofList (escape s.toList) ++ "\n")
  | .tag t => renderTag t children
  | .directive .forLoop args | .directive .foreachLoop args => renderLoop args children
  | .directive .includeFile args => fun c => (includer args c, c)
  | .directive .. => Rendering.emit ""

/-- Whether a content belongs to a chain, as its `if` or as a branch. -/
def Content.branch? : Content → Option (DirectiveKind × String)
  | .directive .ifCase args => some (.ifCase, args)
  | .directive .elseIf args => some (.elseIf, args)
  | .directive .otherwise args => some (.otherwise, args)
  | _ => none

/-- Renders siblings that follow an open or closed chain. -/
def renderNodes (includer : Includer) (chain : Chain) : List Node → Rendering
  | [] => Rendering.emit ""
  | .mk level content children :: rest => fun c =>
    match content.branch? with
    | some (kind, args) =>
      match chain.branch level kind args c with
      | (true, chain) =>
        (renderNodes includer .closed children ++ renderNodes includer chain rest) c
      | (false, chain) => renderNodes includer chain rest c
    | none =>
      (renderContent includer (renderNodes includer .closed children) content ++
        renderNodes includer .closed rest) c

def renderForest (includer : Includer) (forest : Forest) : Rendering :=
  renderNodes includer .closed forest

end Stencil
