import Stencil.Text.Blank
import Stencil.Text.Split
import Stencil.Text.Word

/-!
Loop headers.

A header names the loop variables and the collection: `v in E`, `k, v in E`, `E as v` or `E as k =>
v`. The word `in` counts where it first stands between spaces, the word `as`, in any case, where it
last does. A header that the first two forms do not fit is tried with the other two.
-/

namespace Stencil

structure LoopHeader where
  key : Option String
  value : String
  iterable : List Char

namespace LoopHeader

def isSpace (c : Char) : Bool :=
  c == ' ' || c == '\t' || c == '\n' || c == '\x0c' || c == '\r'

/-- The texts before and after each place where a word of `size` characters that `isWord` accepts
stands between spaces; `before` is what was passed, backwards. -/
def wordSplits (isWord : List Char → Bool) (size : Nat) :
    List Char → List Char → List (List Char × List Char)
  | _, [] => []
  | before, c :: cs =>
    let after := (c :: cs).drop size
    let more := wordSplits isWord size (c :: before) cs
    if before.head?.any isSpace && isWord ((c :: cs).take size) && after.head?.any isSpace then
      (before.reverse, after) :: more
    else more

/-- A loop variable: a name, with or without a dollar sign. -/
def bindingName? (s : List Char) : Option String :=
  let s := trim s
  let name := match s with
    | '$' :: name => name
    | name => name
  if isName name then some (String.ofList name) else none

/-- The header with these texts for its variables and its collection. -/
def make? (key? : Option (List Char)) (value iterable : List Char) : Option LoopHeader :=
  let iterable := trim iterable
  if iterable.isEmpty then none
  else
    match key? with
    | none => (bindingName? value).map fun v => ⟨none, v, iterable⟩
    | some key =>
      match bindingName? key, bindingName? value with
      | some k, some v => some ⟨some k, v, iterable⟩
      | _, _ => none

def ofIn? (s : List Char) : Option LoopHeader :=
  match (wordSplits (· == ['i', 'n']) 2 [] s).head? with
  | none => none
  | some (before, after) =>
    match splitOnce ',' before with
    | some (key, value) => make? (some key) value after
    | none => make? none before after

def ofAs? (s : List Char) : Option LoopHeader :=
  match (wordSplits (sameWord · ['a', 's']) 2 [] s).getLast? with
  | none => none
  | some (before, after) =>
    match splitOnceText ['=', '>'] after with
    | some (key, value) => make? (some key) value before
    | none => make? none after before

def ofText? (s : List Char) : Option LoopHeader :=
  let s := trim s
  match ofIn? s with
  | some header => some header
  | none => ofAs? s

end LoopHeader

end Stencil
