import Stencil.Template.Line

/-!
The arena of a template.

An arena is one list of all nodes in the order of their lines, each with the numbers of its
children. It is built line by line. The nodes that are still open stand on a stack; a line closes
those that it does not lie deeper than and goes under the innermost one that is left, or to the top
level. Lines that say nothing close nothing.
-/

namespace Stencil

/-- A node with the numbers of its children. -/
structure Arena.Entry where
  level : Nat
  content : Content
  children : List Nat

structure Arena where
  roots : List Nat
  nodes : List Arena.Entry

namespace Arena

def Entry.adopt (ids : List Nat) (e : Entry) : Entry := { e with children := e.children ++ ids }

/-- Appends a node for a line, as the last child of a node or as the last root. -/
def push (a : Arena) (parent? : Option Nat) (line : Line) : Arena :=
  let id := a.nodes.length
  let nodes := a.nodes ++ [⟨line.level, line.content, []⟩]
  match parent? with
  | some parent => ⟨a.roots, nodes.modify parent (Entry.adopt [id])⟩
  | none => ⟨a.roots ++ [id], nodes⟩

/-- An open node, under which lines go that lie deeper than its level. -/
structure Frame where
  level : Nat
  id : Nat

/-- What is built so far, and the open nodes from the innermost outwards. Around all of them is the
top level, which no line closes. -/
structure Builder where
  arena : Arena
  stack : List Frame

namespace Builder

def start : Builder := ⟨⟨[], []⟩, []⟩

def push (b : Builder) (line : Line) : Builder :=
  let stack := b.stack.dropWhile fun frame => line.level ≤ frame.level
  let arena := b.arena.push (stack.head?.map Frame.id) line
  ⟨arena, if line.content.opensBlock then ⟨line.level, b.arena.nodes.length⟩ :: stack else stack⟩

/-- A line that says nothing leaves everything as it is. -/
def pushLine (b : Builder) (raw : List Char) : Builder :=
  match Line.ofText? raw with
  | some line => b.push line
  | none => b

end Builder

def parse (source : List Char) : Arena :=
  ((splitLines source).foldl Builder.pushLine .start).arena

end Arena

end Stencil
