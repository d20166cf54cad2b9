/-!
Texts with quoted runs.

A quoted run starts at a single or double quote outside any run and ends at the next equal quote, or
at the end of the text. `splitUnquoted` cuts at separators outside quoted runs and drops empty
parts, `splitParens` finds the parenthesis that closes the first one, `unquote` takes off one pair
of surrounding quotes.
-/

namespace Stencil

def isQuote (c : Char) : Bool := c == '"' || c == '\''

/-- The quote that is open after `c`, given the one that was open before it. -/
def quoteAfter : Option Char → Char → Option Char
  | some q, c => if c == q then none else some q
  | none, c => if isQuote c then some c else none

/-- The parts of the text between unquoted separators; `part` is the present one backwards. -/
def splitUnquotedFrom (isSep : Char → Bool) : Option Char → List Char → List Char →
    List (List Char)
  | _, part, [] => if part.isEmpty then [] else [part.reverse]
  | quote, part, c :: cs =>
    if quote.isNone && !isQuote c && isSep c then
      if part.isEmpty then splitUnquotedFrom isSep none [] cs
      else part.reverse :: splitUnquotedFrom isSep none [] cs
    else splitUnquotedFrom isSep (quoteAfter quote c) (c :: part) cs

/-- The non-empty parts of the text between separators that stand outside quoted runs. -/
def splitUnquoted (isSep : Char → Bool) (s : List Char) : List (List Char) :=
  splitUnquotedFrom isSep none [] s

/-- The words of a line: its parts between unquoted spaces. -/
def words (s : List Char) : List (List Char) := splitUnquoted (· == ' ') s

/-- Looks for the parenthesis that closes the outermost one, with `depth` more of them open;
`inside` holds what was passed, backwards. -/
def splitParensFrom : Option Char → Nat → List Char → List Char → Option (List Char × List Char)
  | _, _, _, [] => none
  | some q, depth, inside, c :: cs => splitParensFrom (quoteAfter (some q) c) depth (c :: inside) cs
  | none, depth, inside, c :: cs =>
    if c == '(' then splitParensFrom none (depth + 1) (c :: inside) cs
    else if c == ')' then
      match depth with
      | 0 => some (inside.reverse, cs)
      | depth + 1 => splitParensFrom none depth (c :: inside) cs
    else splitParensFrom (quoteAfter none c) depth (c :: inside) cs

/-- For a text after an opening parenthesis: what the parentheses hold and what follows them. -/
def splitParens (s : List Char) : Option (List Char × List Char) := splitParensFrom none 0 [] s

/-- Whether the text starts and ends with the same quote, and the two are not one character. -/
def isQuoted (s : List Char) : Bool :=
  match s with
  | q :: c :: cs => isQuote q && (c :: cs).getLast? == some q
  | _ => false

/-- What stands between surrounding quotes; the text itself when it has none. -/
def unquote (s : List Char) : List Char :=
  if isQuoted s then s.tail.dropLast else s

/-- The parts of a text stand in it one after the other. -/
theorem infix_of_mem_splitUnquotedFrom {isSep : Char → Bool} {quote : Option Char}
    {part s word : List Char} (h : word ∈ splitUnquotedFrom isSep quote part s) :
    word <:+: part.reverse ++ s := by
  induction s generalizing quote part with
  | nil =>
    simp only [splitUnquotedFrom] at h
    split at h
    · cases h
    · rw [List.mem_singleton] at h
      rw [h]
      exact (List.prefix_append _ _).isInfix
  | cons c cs ih =>
    have htail : cs <:+: part.reverse ++ c :: cs :=
      ((List.suffix_cons c cs).trans (List.suffix_append _ _)).isInfix
    simp only [splitUnquotedFrom] at h
    split at h
    · split at h
      · exact (ih h).trans htail
      · rcases List.mem_cons.mp h with rfl | h
        · exact (List.prefix_append _ _).isInfix
        · exact (ih h).trans htail
    · have := ih h
      rwa [List.reverse_cons, List.append_assoc, List.singleton_append] at this

theorem infix_of_mem_words {s word : List Char} (h : word ∈ words s) : word <:+: s :=
  infix_of_mem_splitUnquotedFrom h

theorem splitParensFrom_eq_some {quote : Option Char} {depth : Nat}
    {inside s result rest : List Char}
    (h : splitParensFrom quote depth inside s = some (result, rest)) :
    inside.reverse ++ s = result ++ ')' :: rest := by
  induction s generalizing quote depth inside with
  | nil => cases quote <;> cases h
  | cons c cs ih =>
    have hnext : ∀ {quote depth},
        splitParensFrom quote depth (c :: inside) cs = some (result, rest) →
          inside.reverse ++ c :: cs = result ++ ')' :: rest := by
      intro quote depth h
      have := ih h
      rwa [List.reverse_cons, List.append_assoc, List.singleton_append] at this
    cases quote with
    | some q => exact hnext h
    | none =>
      simp only [splitParensFrom] at h
      split at h
      · exact hnext h
      · split at h
        · next hc =>
          split at h
          · cases h
            rw [beq_iff_eq.mp hc]
          · exact hnext h
        · exact hnext h

theorem splitParens_eq_some {s inside rest : List Char} (h : splitParens s = some (inside, rest)) :
    s = inside ++ ')' :: rest :=
  splitParensFrom_eq_some h

end Stencil
