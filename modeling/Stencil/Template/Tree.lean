import Stencil.Template.Line

/-!
The tree of a template.

A line that opens a block takes the lines after it that lie deeper as its children. Read from the
last line to the first: of the trees that the later lines make, the leading ones that are rooted
deeper than a line are its children, and the others are its siblings.
-/

namespace Stencil

inductive Node where
  | mk (level : Nat) (content : Content) (children : List Node)

namespace Node

def level : Node → Nat
  | mk level _ _ => level

def content : Node → Content
  | mk _ content _ => content

def children : Node → List Node
  | mk _ _ children => children

@[simp] theorem level_mk (level : Nat) (content : Content) (children : List Node) :
    (mk level content children).level = level := rfl

end Node

abbrev Forest := List Node

/-- Puts a line before the trees of the lines after it. -/
def attach (line : Line) (later : Forest) : Forest :=
  if line.content.opensBlock then
    .mk line.level line.content (later.takeWhile fun n => line.level < n.level) ::
      later.dropWhile fun n => line.level < n.level
  else .mk line.level line.content [] :: later

def Forest.ofLines (lines : List Line) : Forest := lines.foldr attach []

def Forest.parse (source : List Char) : Forest := Forest.ofLines (linesOf source)

end Stencil
