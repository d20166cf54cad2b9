/-!
Paths of template files.

A path is its text; joining and taking the parent work on the text and leave `..` alone. An absolute
target replaces the base it is joined to. The parent drops the last part that is a name, together
with the slashes and single points around it; the root and the empty path have none.
-/

namespace Stencil

structure Path where
  text : String
  deriving DecidableEq

namespace Path

def isAbsolute (p : Path) : Bool := p.text.toList.head? == some '/'

/-- The target as seen from the base. -/
def join (base target : Path) : Path :=
  if target.isAbsolute || base.text == "" then target
  else if base.text.toList.getLast? == some '/' then ⟨base.text ++ target.text⟩
  else ⟨base.text ++ "/" ++ target.text⟩

/-- Takes slashes and single points off the end of a text that is given backwards. -/
def dropDots : List Char → List Char
  | [] => []
  | '/' :: s => dropDots s
  | ['.'] => []
  | '.' :: '/' :: s => dropDots s
  | s => s

/-- The start of a path that is no name: the root, or the point for the present directory. -/
def splitStart (s : List Char) : List Char × List Char :=
  match s with
  | '/' :: rest => (['/'], rest)
  | ['.'] => (['.'], [])
  | '.' :: '/' :: rest => (['.'], '/' :: rest)
  | _ => ([], s)

def parent? (p : Path) : Option Path :=
  let (start, body) := splitStart p.text.toList
  match dropDots body.reverse with
  | [] => if start == ['.'] then some ⟨""⟩ else none
  | body =>
    let rest := dropDots ((body.dropWhile (· != '/')).drop 1)
    some ⟨String.ofList (start ++ rest.reverse)⟩

/-- The directory of a file, against which the includes inside it are resolved. -/
def directory (p : Path) : Path := p.parent?.getD ⟨"."⟩

example : (⟨"a/b/c"⟩ : Path).directory = ⟨"a/b"⟩ := by decide
example : (⟨"./a//"⟩ : Path).directory = ⟨"."⟩ := by decide
example : (⟨"a"⟩ : Path).directory = ⟨""⟩ ∧ (⟨"/"⟩ : Path).directory = ⟨"."⟩ := by decide

end Path

end Stencil
