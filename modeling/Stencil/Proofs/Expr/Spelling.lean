import Stencil.Proofs.Expr.Shortcut
import Stencil.Proofs.Text.Quoted

/-!
Spelling tokens.

A token has one or more spellings (`Spells`): an integer may have underscores between and after its
digits, a string may stand in either quote, and one symbol has two texts. Negative integers and
floats have none, since a sign is a token of its own and no float is written here. A list of tokens
is spelled by spelling one after the other with white space between any two (`Spelled`). Such a text
exists whenever all tokens have a spelling, and lexing it gives back the list (`lex_spelled`).
-/

namespace Stencil.Expr

/-! ## Spellings -/

def Symbol.texts : Symbol → List String
  | lParen => ["("]
  | rParen => [")"]
  | lBracket => ["["]
  | rBracket => ["]"]
  | comma => [","]
  | dot => ["."]
  | arrow => ["->"]
  | question => ["?"]
  | colon => [":"]
  | coalesce => ["??"]
  | not => ["!"]
  | andAnd => ["&&"]
  | orOr => ["||"]
  | eqEq => ["=="]
  | notEq => ["!=", "<>"]
  | strictEq => ["==="]
  | strictNotEq => ["!=="]
  | lt => ["<"]
  | le => ["<="]
  | gt => [">"]
  | ge => [">="]
  | plus => ["+"]
  | minus => ["-"]
  | star => ["*"]
  | slash => ["/"]
  | percent => ["%"]
  | tilde => ["~"]

/-- A character of a string, after a backslash where it would not stand for itself. -/
def guarded (quote c : Char) : List Char := if c = quote ∨ c = '\\' then ['\\', c] else [c]

/-- The texts that a token is spelled with. -/
inductive Spells : Token → List Char → Prop
  /-- The digits of the number, with underscores anywhere after the first. -/
  | int {n : Int64} {k : Nat} {w : List Char} (hn : n.toInt = k) (hfirst : w.head? ≠ some '_')
    (hdigits : w.filter (· != '_') = digits k) : Spells (.int n) w
  | str {quote : Char} {s : String} (hquote : isQuote quote = true) :
    Spells (.str s) (quote :: (s.toList.flatMap (guarded quote) ++ [quote]))
  | var {n : String} (hn : isName n.toList = true) : Spells (.var n) ('$' :: n.toList)
  | name {n : String} (hn : isName n.toList = true) : Spells (.name n) n.toList
  | symbol {s : Symbol} {w : String} (hw : w ∈ s.texts) : Spells (.symbol s) w.toList

/-- The tokens one after the other, with white space around them and between any two. -/
inductive Spelled : List Token → List Char → Prop
  | nil {gap : List Char} (hgap : ∀ c ∈ gap, isBlank c = true) : Spelled [] gap
  | cons {t : Token} {ts : List Token} {gap w rest : List Char} (hgap : ∀ c ∈ gap, isBlank c = true)
    (hw : Spells t w) (hrest : Spelled ts rest)
    (hapart : ts ≠ [] → rest.head?.any isBlank = true) : Spelled (t :: ts) (gap ++ (w ++ rest))

/-- The token has a spelling: names are names, and no number is negative or a float. -/
def Token.IsSpellable : Token → Prop
  | .int n => 0 ≤ n.toInt
  | .float _ => False
  | .var n | .name n => isName n.toList = true
  | .str _ | .symbol _ => True

/-! ## There is a spelling -/

theorem filter_underscore_digits (k : Nat) : (digits k).filter (· != '_') = digits k := by
  rw [List.filter_eq_self]
  intro c hc
  rw [bne_iff_ne]
  rintro rfl
  exact absurd (isDigit_of_mem_digits hc) (by decide)

theorem head?_digits_ne (k : Nat) : (digits k).head? ≠ some '_' := by
  intro h
  have hdigit := isDigit_of_mem_digits (List.mem_of_mem_head? h)
  exact absurd hdigit (by decide)

theorem exists_spells {t : Token} (h : t.IsSpellable) : ∃ w, Spells t w := by
  cases t with
  | int n =>
    have hn : n.toInt = n.toInt.toNat := (Int.toNat_of_nonneg h).symm
    exact ⟨_, .int hn (head?_digits_ne _) (filter_underscore_digits _)⟩
  | float x => exact False.elim h
  | str s =>
    have hquote : isQuote '"' = true := rfl
    exact ⟨_, .str hquote⟩
  | var n => exact ⟨_, .var h⟩
  | name n => exact ⟨_, .name h⟩
  | symbol s =>
    obtain ⟨w, hw⟩ : ∃ w, w ∈ s.texts := by cases s <;> exact ⟨_, List.mem_cons_self⟩
    exact ⟨_, .symbol hw⟩

theorem exists_spelled {ts : List Token} (h : ∀ t ∈ ts, t.IsSpellable) :
    ∃ s, Spelled ts (' ' :: s) := by
  induction ts with
  | nil => exact ⟨[], .nil (by simp [isBlank])⟩
  | cons t ts ih =>
    obtain ⟨ht, hts⟩ := List.forall_mem_cons.mp h
    obtain ⟨w, hw⟩ := exists_spells ht
    obtain ⟨rest, hrest⟩ := ih hts
    have hgap : ∀ c ∈ [' '], isBlank c = true := by simp [isBlank]
    exact ⟨w ++ ' ' :: rest, .cons hgap hw hrest fun _ => rfl⟩

/-! ## The token of a spelling -/

theorem isNumberChar_iff {c : Char} : isNumberChar c = true ↔ c.isDigit = true ∨ c = '_' := by
  rw [isNumberChar, Bool.or_eq_true, beq_iff_eq]

/-- Without its underscores the text is the digits of the number. -/
theorem splitDigits_of_filter {w : List Char} {k : Nat} (h : w.filter (· != '_') = digits k) :
    splitDigits w = (digits k, []) := by
  have hchar : ∀ c ∈ w, c = '_' ∨ c.isDigit = true := by
    intro c hc
    by_cases hunderscore : c = '_'
    · exact Or.inl hunderscore
    · have hmem : c ∈ w.filter (· != '_') := List.mem_filter.mpr ⟨hc, by simpa using hunderscore⟩
      rw [h] at hmem
      exact Or.inr (isDigit_of_mem_digits hmem)
  have hall : ∀ c ∈ w, isNumberChar c = true := fun c hc => isNumberChar_iff.mpr (hchar c hc).symm
  have hfilter : w.filter Char.isDigit = w.filter (· != '_') := by
    apply List.filter_congr
    intro c hc
    rcases hchar c hc with rfl | hdigit
    · rfl
    · have hne : c ≠ '_' := by
        rintro rfl
        cases hdigit
      simp [hdigit, hne]
  rw [splitDigits_of_forall hall, hfilter, h]

theorem lexes_int {n : Int64} {k : Nat} {w : List Char} (hn : n.toInt = k)
    (hfirst : w.head? ≠ some '_') (hdigits : w.filter (· != '_') = digits k) :
    Lexes w [.int n] := by
  have hsplit := splitDigits_of_filter hdigits
  cases w with
  | nil => exact absurd hdigits.symm (digits_ne_nil k)
  | cons c cs =>
    have hc : c.isDigit = true := by
      have hne : c ≠ '_' := by simpa using hfirst
      have hmem : c ∈ (c :: cs).filter (· != '_') := by simp [hne]
      rw [hdigits] at hmem
      exact isDigit_of_mem_digits hmem
    have hblank : isBlank c = false := by
      cases hblank : isBlank c with
      | false => rfl
      | true =>
        rw [isDigit_of_not_joins (joins_of_isBlank hblank)] at hc
        cases hc
    have hnumber : lexNumber (c :: cs) = (.int n, []) := by
      have hfit : fit? (valueOf (digits k)) = some n := by
        rw [valueOf_digits, ← hn, fit?_toInt]
      simp only [lexNumber, hsplit, splitFraction, splitExponent, hfit]
    have htoken : lexToken 0 c cs = .ok (.int n, []) := by rw [lexToken, if_pos hc, hnumber]
    exact .cons (List.dropWhile_cons_of_neg (by simp [hblank])) htoken (.nil rfl)

theorem lexString_of_ne {quote c : Char} (hc : c ≠ '\\') (done cs : List Char) :
    lexString quote done (c :: cs) =
      if c == quote then some (done.reverse, cs) else lexString quote (c :: done) cs := by
  rw [lexString]
  · exact fun h => absurd h hc
  · exact fun _ _ h => absurd h hc

/-- What is guarded by a backslash is read as itself. -/
theorem lexString_guarded {quote : Char} (hquote : isQuote quote = true) (s done rest : List Char) :
    lexString quote done (s.flatMap (guarded quote) ++ quote :: rest) =
      some (done.reverse ++ s, rest) := by
  have hbackslash : quote ≠ '\\' := by
    rintro rfl
    cases hquote
  have hunescape : unescape quote = quote := by
    rcases eq_of_isQuote hquote with rfl | rfl <;> rfl
  induction s generalizing done with
  | nil => simp [lexString_of_ne hbackslash]
  | cons c s ih =>
    rw [List.flatMap_cons, List.append_assoc, guarded]
    split
    · next hc =>
      have hself : unescape c = c := by
        rcases hc with rfl | rfl
        · exact hunescape
        · rfl
      simp [lexString, hself, ih]
    · next hc =>
      obtain ⟨hne, hplain⟩ := not_or.mp hc
      simp [lexString_of_ne hplain, hne, ih]

theorem lexes_str {quote : Char} (hquote : isQuote quote = true) (s : String) :
    Lexes (quote :: (s.toList.flatMap (guarded quote) ++ [quote])) [.str s] := by
  have hstring := lexString_guarded hquote s.toList [] []
  rcases eq_of_isQuote hquote with rfl | rfl <;>
  · refine @Lexes.cons _ _ [] _ 0 _ _ rfl ?_ (.nil rfl)
    rw [lexToken, hstring]
    simp

theorem lexes_symbol {s : Symbol} {w : String} (h : w ∈ s.texts) : Lexes w.toList [.symbol s] := by
  apply lex_eq_ok_iff.mp
  cases s with
  | notEq =>
    simp only [Symbol.texts, List.mem_cons, List.not_mem_nil, or_false] at h
    rcases h with rfl | rfl <;> rfl
  | _ =>
    obtain rfl := List.mem_singleton.mp h
    rfl

theorem Spells.lexes {t : Token} {w : List Char} (h : Spells t w) : Lexes w [t] := by
  cases h with
  | int hn hfirst hdigits => exact lexes_int hn hfirst hdigits
  | str hquote => exact lexes_str hquote _
  | @var n hn => simpa using lexes_var hn
  | @name n hn => simpa using lexes_name hn
  | symbol hw => exact lexes_symbol hw

/-! ## The tokens of a text -/

theorem Spelled.lexes {ts : List Token} {s : List Char} (h : Spelled ts s) : Lexes s ts := by
  induction h with
  | nil hgap => exact .nil (trimStart_eq_nil.mpr hgap)
  | @cons t ts gap w rest hgap hw hrest hapart ih =>
    have hstart : trimStart (gap ++ (w ++ rest)) = trimStart (w ++ rest) :=
      trimStart_append_of_nil (trimStart_eq_nil.mpr hgap) _
    -- nothing but white space follows the last token, and white space comes first after any other
    have happart : Apart rest := by
      cases hrest with
      | nil hblank => exact apart_of_isBlank hblank
      | cons =>
        intro c hc
        have hhead := hapart (by simp)
        rw [Option.mem_def.mp hc] at hhead
        exact joins_of_isBlank hhead
    exact (hw.lexes.append ih happart).of_trimStart hstart

/-- Every list of tokens that have spellings has a text, and each such text has just these
tokens. -/
theorem lex_spelled {ts : List Token} (h : ∀ t ∈ ts, t.IsSpellable) :
    (∃ s, Spelled ts s) ∧ ∀ s, Spelled ts s → lex s = .ok ts := by
  constructor
  · obtain ⟨s, hs⟩ := exists_spelled h
    exact ⟨_, hs⟩
  · intro s hs
    exact lex_eq_ok_iff.mpr hs.lexes

/-- Underscores in a number, and a quote and a backslash in a string. -/
theorem lex_spelled_escapes :
    let ts := [Token.int 1000, .symbol .notEq, .str "it's\\"]
    let s := " 1_000_ <>\t'it\\'s\\\\'".toList
    (∀ t ∈ ts, t.IsSpellable) ∧ Spelled ts s ∧ lex s = .ok ts := by
  intro ts s
  have hspellable : ∀ t ∈ ts, t.IsSpellable := by simp [ts, Token.IsSpellable]
  have htab : ∀ c ∈ ['\t'], isBlank c = true := by simp [isBlank]
  have hspace : ∀ c ∈ [' '], isBlank c = true := by simp [isBlank]
  have hquote : isQuote '\'' = true := rfl
  have hstr : Spells (.str "it's\\") "'it\\'s\\\\'".toList := .str hquote
  have hsymbol : Spells (.symbol .notEq) "<>".toList := .symbol (by simp [Symbol.texts])
  have hint : Spells (.int 1000) "1_000_".toList := by
    have hvalue : (1000 : Int64).toInt = (1000 : Nat) := rfl
    exact .int hvalue (by decide) rfl
  have hend : ∀ c ∈ [], isBlank c = true := fun c hc => absurd hc List.not_mem_nil
  have hspelled : Spelled ts s :=
    .cons hspace hint (.cons hspace hsymbol (.cons htab hstr (.nil hend) (absurd rfl))
      fun _ => rfl) fun _ => rfl
  exact ⟨hspellable, hspelled, (lex_spelled hspellable).2 s hspelled⟩

end Stencil.Expr
