import Stencil.Expr.Eval
import Stencil.Markup.Escape
import Stencil.Text.Quoted

/-!
Markers in text.

`#{expr}` and `!{expr}` stand for the value of an expression. A marker ends at the first closing
brace; without one it is literal text. `pieces` cuts a text into literal characters and markers, and
`interpolate` puts the pieces together again with the markers replaced. In HTML everything but the
value of a `!{expr}` is escaped. Main statement: `infix_of_mem_markerPieces`, a marker is in the text
with its sign and its braces.
-/

namespace Stencil

inductive Piece where
  | literal (c : Char)
  | marker (raw : Bool) (expr : List Char)

/-- A marker under way: its sign, and the characters of its expression backwards. -/
structure OpenMarker where
  raw : Bool
  expr : List Char

/-- The marker as the literal text that it is when it does not end. -/
def OpenMarker.literal (m : OpenMarker) : List Piece :=
  ((if m.raw then '!' else '#') :: '\x7b' :: m.expr.reverse).map .literal

/-- The pieces of the rest of a text, inside a marker or outside. -/
def scanMarkers : Option OpenMarker → List Char → List Piece
  | none, [] => []
  | none, '#' :: '\x7b' :: cs => scanMarkers (some ⟨false, []⟩) cs
  | none, '!' :: '\x7b' :: cs => scanMarkers (some ⟨true, []⟩) cs
  | none, c :: cs => .literal c :: scanMarkers none cs
  | some m, [] => m.literal
  | some m, c :: cs =>
    if c == '\x7d' then .marker m.raw m.expr.reverse :: scanMarkers none cs
    else scanMarkers (some { m with expr := c :: m.expr }) cs

def markerPieces (s : List Char) : List Piece := scanMarkers none s

/-- A marker as it stands in a text, up to its closing brace. -/
def markerText (raw : Bool) (expr : List Char) : List Char :=
  (if raw then '!' else '#') :: '\x7b' :: expr

theorem infix_of_mem_scanMarkers {m? : Option OpenMarker} {s : List Char} {raw : Bool}
    {expr : List Char} (h : Piece.marker raw expr ∈ scanMarkers m? s) :
    markerText raw (expr ++ ['\x7d']) <:+:
      (m?.map fun m => markerText m.raw m.expr.reverse).getD [] ++ s := by
  fun_induction scanMarkers m? s with
  | case1 => cases h
  | case2 cs ih => exact ih h
  | case3 cs ih => exact ih h
  | case4 c cs _ _ ih =>
    rcases List.mem_cons.mp h with h | h
    · cases h
    · exact (ih h).trans (List.suffix_cons c cs).isInfix
  | case5 m =>
    rw [OpenMarker.literal, List.mem_map] at h
    obtain ⟨c, _, hc⟩ := h
    cases hc
  | case6 m c cs hc ih =>
    rw [beq_iff_eq] at hc
    rcases List.mem_cons.mp h with h | h
    · cases h
      exact ⟨[], cs, by simp [markerText, hc]⟩
    · exact (ih h).trans ((List.suffix_cons c cs).trans (List.suffix_append _ _)).isInfix
  | case7 m c cs _ ih => simpa [markerText] using ih h

/-- The markers among the pieces stand in the text as they are. -/
theorem infix_of_mem_markerPieces {s : List Char} {raw : Bool} {expr : List Char}
    (h : .marker raw expr ∈ markerPieces s) : markerText raw (expr ++ ['\x7d']) <:+: s :=
  infix_of_mem_scanMarkers h

/-- Where a text goes: into HTML, or into a value that is escaped later. -/
inductive Escaping where
  | html
  | none
  deriving DecidableEq

def Escaping.apply : Escaping → List Char → List Char
  | html, s => escape s
  | none, s => s

def Piece.text (escaping : Escaping) (c : Context) : Piece → List Char
  | literal ch => escaping.apply [ch]
  | marker raw expr =>
    let value := (Expr.evaluate expr c).text.toList
    if raw then value else escaping.apply value

def interpolate (escaping : Escaping) (s : List Char) (c : Context) : List Char :=
  (markerPieces s).flatMap (Piece.text escaping c)

/-- The value of a raw attribute: a quoted text with its markers filled in, one of the words for
true, false and null, or an expression. -/
def attributeValue (raw : List Char) (c : Context) : Value :=
  let raw := trim raw
  if isQuoted raw then .str (String.ofList (interpolate .none (unquote raw) c))
  else if sameWord raw "true".toList then .bool true
  else if sameWord raw "false".toList then .bool false
  else if sameWord raw "null".toList then .null
  else Expr.evaluate raw c

end Stencil
