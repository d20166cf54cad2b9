import Mathlib.Data.List.Chain
import Stencil.Proofs.Expr.Completeness
import Stencil.Proofs.Expr.Shortcut

/-!
Paths into a variable.

A path goes from a variable on by names of members and positions in lists. It may be written with
points, with arrows, or with its positions in brackets. With arrows or brackets every path is read
as the expression that takes its steps one after the other. With points this is so exactly if no
position follows another (`Path.parse_text`): the lexer does not know that a point stands before the
digits, and takes two positions with the point between them for one number, so that the parser finds
a number with a fraction where it expects a member.
-/

namespace Stencil.Expr

/-! ## Paths -/

/-- The name of a member, or a position in a list. -/
inductive Step where
  | name (n : String) (hn : isName n.toList = true)
  | position (n : Int64) (hn : 0 ≤ n.toInt)

def Step.isPosition : Step → Bool
  | name _ _ => false
  | position _ _ => true

def Step.apply (object : Expr) : Step → Expr
  | name n _ => .member object n
  | position n _ => .index object (.literal (.int n))

structure Path where
  root : String
  isName_root : isName root.toList = true
  steps : List Step

/-- The expression that a path stands for. -/
def Path.expr (p : Path) : Expr := p.steps.foldl Step.apply (.var p.root)

/-- How the steps are written. In the last style it is only the positions that are in brackets. -/
inductive Style where
  | dotted | arrowed | bracketed
  deriving DecidableEq

def Style.sign : Style → Symbol
  | arrowed => .arrow
  | dotted | bracketed => .dot

def Style.signText : Style → List Char
  | arrowed => ['-', '>']
  | dotted | bracketed => ['.']

/-- The digits of an integer that is not negative. -/
def positionText (n : Int64) : List Char := digits n.toInt.toNat

def Step.text (style : Style) : Step → List Char
  | name n _ => style.signText ++ n.toList
  | position n _ =>
    if style = .bracketed then '[' :: (positionText n ++ [']'])
    else style.signText ++ positionText n

def Path.text (style : Style) (p : Path) : List Char :=
  '$' :: (p.root.toList ++ p.steps.flatMap (Step.text style))

/-- No position follows a position. -/
def Separated (steps : List Step) : Prop :=
  steps.IsChain fun s t => ¬ (s.isPosition = true ∧ t.isPosition = true)

theorem separated_cons {step : Step} {steps : List Step}
    (h : step.isPosition = false ∨ ∀ next ∈ steps.head?, next.isPosition = false) :
    Separated (step :: steps) ↔ Separated steps := by
  rw [Separated, List.isChain_cons]
  refine and_iff_right fun next hnext ⟨hstep, hposition⟩ => ?_
  rcases h with h | h
  · rw [h] at hstep
    cases hstep
  · rw [h next hnext] at hposition
    cases hposition

theorem not_separated_positions {i j : Int64} {hi : 0 ≤ i.toInt} {hj : 0 ≤ j.toInt}
    {steps : List Step} : ¬ Separated (.position i hi :: .position j hj :: steps) := by
  intro h
  exact (List.isChain_cons_cons.mp h).1 ⟨rfl, rfl⟩

/-! ## Tokens -/

def Step.tokens (style : Style) : Step → List Token
  | name n _ => [.symbol style.sign, .name n]
  | position n _ =>
    if style = .bracketed then [.symbol .lBracket, .int n, .symbol .rBracket]
    else [.symbol style.sign, .int n]

/-- Two positions with a point between them as a number. -/
def fused (i j : Int64) : Float :=
  FloatText.nearest (valueOf (positionText i ++ positionText j)) (-(positionText j).length)

/-- The tokens of steps that are written with points. -/
def dottedTokens : List Step → List Token
  | [] => []
  | .position i _ :: .position j _ :: steps =>
    .symbol .dot :: .float (fused i j) :: dottedTokens steps
  | .position i _ :: steps => .symbol .dot :: .int i :: dottedTokens steps
  | .name n _ :: steps => .symbol .dot :: .name n :: dottedTokens steps

theorem isPosition_head {steps : List Step}
    (h : ∀ (n : Int64) (hn : 0 ≤ n.toInt) (rest : List Step),
      steps = .position n hn :: rest → False) :
    ∀ step ∈ steps.head?, step.isPosition = false := by
  intro step hstep
  cases step with
  | name n hn => rfl
  | position n hn => exact absurd (List.eq_cons_of_mem_head? hstep) (h n hn _)

/-- What follows a step is empty or starts another one. -/
def Parted (rest : List Char) : Prop := ∀ c ∈ rest.head?, c = '.' ∨ c = '-' ∨ c = '[' ∨ c = ']'

section

variable {rest : List Char} {ts : List Token}

theorem lexes_dot (h : Lexes rest ts) : Lexes ('.' :: rest) (.symbol .dot :: ts) :=
  .token (by decide) rfl h

theorem lexes_arrow (h : Lexes rest ts) : Lexes ('-' :: '>' :: rest) (.symbol .arrow :: ts) :=
  .token (by decide) rfl h

theorem lexes_lBracket (h : Lexes rest ts) : Lexes ('[' :: rest) (.symbol .lBracket :: ts) :=
  .token (by decide) rfl h

theorem lexes_rBracket (h : Lexes rest ts) : Lexes (']' :: rest) (.symbol .rBracket :: ts) :=
  .token (by decide) rfl h

theorem lexes_sign (style : Style) (h : Lexes rest ts) :
    Lexes (style.signText ++ rest) (.symbol style.sign :: ts) := by
  cases style with
  | dotted | bracketed => exact lexes_dot h
  | arrowed => exact lexes_arrow h

/-! ### Names and numbers -/

theorem Parted.openAfter (h : Parted rest) : OpenAfter rest := by
  intro c hc
  rcases h c hc with rfl | rfl | rfl | rfl <;> decide

theorem Parted.not_isNumberChar (h : Parted rest) : ∀ c ∈ rest.head?, isNumberChar c = false := by
  intro c hc
  rcases h c hc with rfl | rfl | rfl | rfl <;> decide

theorem Parted.splitExponent (h : Parted rest) : splitExponent rest = (none, rest) := by
  cases rest with
  | nil => rfl
  | cons c cs => rcases h c rfl with rfl | rfl | rfl | rfl <;> rfl

theorem takeWhile_append_of_head {p : Char → Bool} {w : List Char} (hw : ∀ c ∈ w, p c = true)
    (hrest : ∀ c ∈ rest.head?, p c = false) :
    (w ++ rest).takeWhile p = w ∧ (w ++ rest).dropWhile p = rest := by
  rw [List.takeWhile_append_of_pos hw, List.dropWhile_append_of_pos hw]
  cases rest with
  | nil => simp
  | cons c cs => simp [hrest c rfl]

theorem splitDigits_append_of_head (k : Nat)
    (hrest : ∀ c ∈ rest.head?, isNumberChar c = false) :
    splitDigits (digits k ++ rest) = (digits k, rest) := by
  have hdigits : ∀ c ∈ digits k, isNumberChar c = true := fun c hc =>
    Bool.or_eq_true_iff.mpr (.inl (isDigit_of_mem_digits hc))
  obtain ⟨htake, hdrop⟩ := takeWhile_append_of_head hdigits hrest
  have hfilter : (digits k).filter Char.isDigit = digits k :=
    List.filter_eq_self.mpr fun c hc => isDigit_of_mem_digits hc
  rw [splitDigits, htake, hdrop, hfilter]

/-- A number at the front of a text is a token of its own. -/
theorem lexes_number {w : List Char} {t : Token} (hw : w.head?.any Char.isDigit = true)
    (ht : lexNumber (w ++ rest) = (t, rest)) (h : Lexes rest ts) : Lexes (w ++ rest) (t :: ts) := by
  cases w with
  | nil => cases hw
  | cons c cs =>
    have hc : c.isDigit = true := hw
    have hname : isNameChar c = true := by simp [isNameChar, Char.isAlphanum, hc]
    have hblank : isBlank c = false := Bool.eq_false_iff.mpr (not_isBlank_of_isNameChar hname)
    have htoken : lexToken 0 c (cs ++ rest) = .ok (t, rest) := by
      rw [lexToken, if_pos hc, ← List.cons_append, ht]
    exact .token hblank htoken h

theorem head?_positionText (n : Int64) : (positionText n).head?.any Char.isDigit = true := by
  unfold positionText
  cases h : digits n.toInt.toNat with
  | nil => exact absurd h (digits_ne_nil _)
  | cons c cs => exact isDigit_of_mem_digits (n := n.toInt.toNat) (by rw [h]; simp)

theorem fit?_positionText {n : Int64} (hn : 0 ≤ n.toInt) :
    fit? (valueOf (positionText n)) = some n := by
  rw [positionText, valueOf_digits, Int.toNat_of_nonneg hn, fit?_toInt]

/-- A position at the end of a path or in front of anything but a point and a digit. -/
theorem lexes_position {n : Int64} (hn : 0 ≤ n.toInt) (hrest : Parted rest)
    (hfraction : splitFraction rest = (none, rest)) (h : Lexes rest ts) :
    Lexes (positionText n ++ rest) (.int n :: ts) := by
  refine lexes_number (head?_positionText n) ?_ h
  have hsplit : splitDigits (positionText n ++ rest) = (positionText n, rest) :=
    splitDigits_append_of_head _ hrest.not_isNumberChar
  simp only [lexNumber, hsplit, hfraction, hrest.splitExponent, fit?_positionText hn]

theorem splitFraction_positionText (n : Int64) (hrest : Parted rest) :
    splitFraction ('.' :: (positionText n ++ rest)) = (some (positionText n), rest) := by
  have hsplit : splitDigits (positionText n ++ rest) = (positionText n, rest) :=
    splitDigits_append_of_head _ hrest.not_isNumberChar
  have hdigit := head?_positionText n
  cases hn : positionText n with
  | nil =>
    rw [hn] at hdigit
    cases hdigit
  | cons d ds =>
    rw [hn] at hsplit hdigit
    have hd : d.isDigit = true := hdigit
    rw [List.cons_append] at hsplit ⊢
    rw [splitFraction, if_pos hd, hsplit]

/-- Two positions with a point between them are one number. -/
theorem lexes_fused (i j : Int64) (hrest : Parted rest) (h : Lexes rest ts) :
    Lexes (positionText i ++ '.' :: (positionText j ++ rest)) (.float (fused i j) :: ts) := by
  have hsplit : splitDigits (positionText i ++ '.' :: (positionText j ++ rest)) =
      (positionText i, '.' :: (positionText j ++ rest)) :=
    splitDigits_append_of_head _ (by rintro c ⟨⟩; decide)
  have hnumber : lexNumber (positionText i ++ '.' :: (positionText j ++ rest)) =
      (.float (fused i j), rest) := by
    simp only [lexNumber, hsplit, splitFraction_positionText j hrest, hrest.splitExponent]
    simp [fused]
  have htext : positionText i ++ '.' :: (positionText j ++ rest) =
      (positionText i ++ '.' :: positionText j) ++ rest := by simp
  have hdigit : (positionText i ++ '.' :: positionText j).head?.any Char.isDigit = true := by
    have hdigit := head?_positionText i
    cases hi : positionText i with
    | nil =>
      rw [hi] at hdigit
      cases hdigit
    | cons d ds => rwa [hi] at hdigit
  rw [htext] at hnumber ⊢
  exact lexes_number hdigit hnumber h

end

/-! ### Steps -/

theorem parted_text (style : Style) (steps : List Step) :
    Parted (steps.flatMap (Step.text style)) := by
  cases steps with
  | nil => exact nofun
  | cons step steps =>
    cases step <;> cases style <;> rintro c ⟨⟩ <;> simp

/-- One step in front of others, where no digits run into a fraction. -/
theorem lexes_step (style : Style) (step : Step) {rest : List Char} {ts : List Token}
    (hrest : Parted rest)
    (hfraction : style ≠ .bracketed → step.isPosition = true → splitFraction rest = (none, rest))
    (h : Lexes rest ts) : Lexes (step.text style ++ rest) (step.tokens style ++ ts) := by
  cases step with
  | name n hn =>
    have hname := lexes_name_append hn hrest.openAfter h
    rw [String.ofList_toList] at hname
    simpa [Step.text, Step.tokens] using lexes_sign style hname
  | position n hn =>
    by_cases hstyle : style = .bracketed
    · have hclose : Parted (']' :: rest) := by
        rintro c ⟨⟩
        simp
      have hnumber := lexes_position hn hclose rfl (lexes_rBracket h)
      simpa [Step.text, Step.tokens, hstyle] using lexes_lBracket hnumber
    · have hnumber := lexes_position hn hrest (hfraction hstyle rfl) h
      simpa [Step.text, Step.tokens, hstyle] using lexes_sign style hnumber

theorem head?_arrowed (steps : List Step) :
    ∀ c ∈ (steps.flatMap (Step.text .arrowed)).head?, c ≠ '.' := by
  cases steps with
  | nil => exact nofun
  | cons step steps => cases step <;> rintro c ⟨⟩ <;> decide

/-- With arrows or brackets every step has its own tokens. -/
theorem lexes_steps {style : Style} (hstyle : style ≠ .dotted) (steps : List Step) :
    Lexes (steps.flatMap (Step.text style)) (steps.flatMap (Step.tokens style)) := by
  induction steps with
  | nil => exact .nil rfl
  | cons step steps ih =>
    rw [List.flatMap_cons, List.flatMap_cons]
    refine lexes_step style step (parted_text style steps) (fun hbracketed _ => ?_) ih
    cases style with
    | dotted => exact absurd rfl hstyle
    | arrowed => exact splitFraction_of_head (head?_arrowed steps)
    | bracketed => exact absurd rfl hbracketed

/-- A point that a name follows is not taken into a number. -/
theorem splitFraction_dotted {steps : List Step}
    (h : ∀ step ∈ steps.head?, step.isPosition = false) :
    splitFraction (steps.flatMap (Step.text .dotted)) =
      (none, steps.flatMap (Step.text .dotted)) := by
  cases steps with
  | nil => rfl
  | cons step steps =>
    cases step with
    | position n hn => cases h _ rfl
    | name n hn =>
      rw [List.flatMap_cons, Step.text, Style.signText, List.append_assoc]
      cases hlist : n.toList with
      | nil =>
        rw [hlist] at hn
        cases hn
      | cons c cs =>
        rw [hlist] at hn
        have hc : c.isDigit = false := isDigit_of_isNameStart (Bool.and_eq_true_iff.mp hn).1
        simp [splitFraction, hc]

/-- With points two positions in a row have one token. -/
theorem lexes_dotted (steps : List Step) :
    Lexes (steps.flatMap (Step.text .dotted)) (dottedTokens steps) := by
  fun_induction dottedTokens steps with
  | case1 => exact .nil rfl
  | case2 i hi j hj steps ih =>
    have hfused := lexes_dot (lexes_fused i j (parted_text .dotted steps) ih)
    simpa [Step.text, Style.signText] using hfused
  | case3 i hi steps hnext ih =>
    exact lexes_step .dotted (.position i hi) (parted_text .dotted steps)
      (fun _ _ => splitFraction_dotted (isPosition_head hnext)) ih
  | case4 n hn steps ih =>
    exact lexes_step .dotted (.name n hn) (parted_text .dotted steps) (fun _ => nofun) ih

/-! ## Expressions -/

open Grammar in
/-- Every step is a suffix. -/
theorem suffixed_steps (style : Style) (steps : List Step) {ts : List Token} {e : Expr}
    (h : Suffixed Expression ts e) :
    Suffixed Expression (ts ++ steps.flatMap (Step.tokens style)) (steps.foldl Step.apply e) := by
  have haccess : Grammar.Access (.symbol style.sign) := by
    cases style with
    | dotted | bracketed => exact .dot
    | arrowed => exact .arrow
  induction steps generalizing ts e with
  | nil => simpa using h
  | cons step steps ih =>
    rw [List.flatMap_cons, List.foldl_cons, ← List.append_assoc]
    refine ih ?_
    cases step with
    | name n hn => exact .member n h haccess
    | position n hn =>
      by_cases hstyle : style = .bracketed
      · have hindex := Suffixed.index h (expression_of_primary (.int n))
        simpa [Step.tokens, Step.apply, hstyle] using hindex
      · simpa [Step.tokens, Step.apply, hstyle] using Suffixed.position n h haccess

theorem ofTokens_steps (style : Style) (x : String) (steps : List Step) :
    ofTokens (.var x :: steps.flatMap (Step.tokens style)) =
      .ok (steps.foldl Step.apply (.var x)) := by
  have hsuffixed := suffixed_steps style steps (.primary (.var x))
  exact ofTokens_of_expression
    (Grammar.expression_of_sum (.operand (.operand (.operand hsuffixed))))

theorem dottedTokens_of_separated {steps : List Step} (h : Separated steps) :
    dottedTokens steps = steps.flatMap (Step.tokens .dotted) := by
  fun_induction dottedTokens steps with
  | case1 => rfl
  | case2 i hi j hj steps ih => exact absurd h not_separated_positions
  | case3 i hi steps hnext ih =>
    rw [separated_cons (.inr (isPosition_head hnext))] at h
    rw [ih h]
    rfl
  | case4 n hn steps ih =>
    rw [separated_cons (.inl rfl)] at h
    rw [ih h]
    rfl

theorem head?_dottedTokens (steps : List Step) :
    ∀ t ∈ (dottedTokens steps).head?, t = .symbol .dot := by
  fun_cases dottedTokens steps <;> rintro t ⟨⟩
  all_goals rfl

theorem member_dotted {nested : Grammar.Parser Expr} (e : Expr) (n : String) (steps : List Step) :
    Grammar.member nested e (.name n :: dottedTokens steps) =
      .ok (.member e n, dottedTokens steps) := by
  rw [Grammar.member]
  intro ts hts
  have hhead := head?_dottedTokens steps
  rw [hts] at hhead
  cases hhead _ rfl

/-- A number with a fraction is no member. -/
theorem suffixesFrom_fused {steps : List Step} (h : ¬ Separated steps) :
    ∃ z, ∀ (nested : Grammar.Parser Expr) (fuel : Nat) (e : Expr),
      (dottedTokens steps).length ≤ fuel →
      Grammar.suffixesFrom nested fuel e (dottedTokens steps) =
        .error (.expectedMember (some (.float z))) := by
  fun_induction dottedTokens steps with
  | case1 => exact absurd .nil h
  | case2 i hi j hj steps ih =>
    refine ⟨fused i j, fun nested fuel e hfuel => ?_⟩
    cases fuel with
    | zero => cases hfuel
    | succ fuel => rfl
  | case3 i hi steps hnext ih =>
    rw [separated_cons (.inr (isPosition_head hnext))] at h
    obtain ⟨z, hz⟩ := ih h
    refine ⟨z, fun nested fuel e hfuel => ?_⟩
    rw [List.length_cons, List.length_cons] at hfuel
    cases fuel with
    | zero => omega
    | succ fuel => exact hz nested fuel _ (by omega)
  | case4 n hn steps ih =>
    rw [separated_cons (.inl rfl)] at h
    obtain ⟨z, hz⟩ := ih h
    refine ⟨z, fun nested fuel e hfuel => ?_⟩
    rw [List.length_cons, List.length_cons] at hfuel
    cases fuel with
    | zero => omega
    | succ fuel =>
      rw [← hz nested fuel (.member e n) (by omega)]
      simp only [Grammar.suffixesFrom, member_dotted]

/-- What fails in the suffixes of a variable fails on all levels above. -/
theorem ofTokens_of_suffixes_error {x : String} {ts : List Token} {err : SyntaxError}
    (h : ∀ nested, Grammar.suffixesFrom nested ts.length (.var x) ts = .error err) :
    ofTokens (.var x :: ts) = .error err := by
  simp [ofTokens, Grammar.expression, Grammar.conditional, Grammar.coalesced,
    Grammar.coalesceFrom, Grammar.disjunction, Grammar.chain, Grammar.unary, Grammar.unaryOp?,
    Grammar.suffixed, Grammar.primary, h]

namespace Path

theorem parse_eq_ofTokens {p : Path} {style : Style} {ts : List Token}
    (h : Lexes (p.steps.flatMap (Step.text style)) ts) :
    parse (p.text style) = ofTokens (.var p.root :: ts) := by
  have hlexes := lexes_var_append p.isName_root (parted_text style p.steps).openAfter h
  rw [String.ofList_toList] at hlexes
  rw [parse, text, lex_eq_ok_iff.mpr hlexes]

theorem parse_of_ne_dotted (p : Path) {style : Style} (h : style ≠ .dotted) :
    parse (p.text style) = .ok p.expr := by
  rw [parse_eq_ofTokens (lexes_steps h p.steps)]
  exact ofTokens_steps style p.root p.steps

theorem parse_of_separated {p : Path} (h : Separated p.steps) :
    parse (p.text .dotted) = .ok p.expr := by
  rw [parse_eq_ofTokens (lexes_dotted p.steps), dottedTokens_of_separated h]
  exact ofTokens_steps .dotted p.root p.steps

theorem parse_of_not_separated {p : Path} (h : ¬ Separated p.steps) :
    ∃ z, parse (p.text .dotted) = .error (.expectedMember (some (.float z))) := by
  obtain ⟨z, hz⟩ := suffixesFrom_fused h
  refine ⟨z, ?_⟩
  rw [parse_eq_ofTokens (lexes_dotted p.steps)]
  exact ofTokens_of_suffixes_error fun nested => hz nested _ _ (Nat.le_refl _)

/-- **Paths.** For every variable and every sequence of steps: with its positions in brackets, or
with arrows, the path is read as the expression that takes the steps one after the other. With
points it is read as that expression exactly if no position follows another one, and otherwise not
at all: a number with a fraction stands where the parser expects a member. -/
theorem parse_text (p : Path) :
    parse (p.text .bracketed) = .ok p.expr ∧ parse (p.text .arrowed) = .ok p.expr ∧
    (parse (p.text .dotted) = .ok p.expr ↔ Separated p.steps) ∧
    ((∃ z, parse (p.text .dotted) = .error (.expectedMember (some (.float z)))) ↔
      ¬ Separated p.steps) := by
  refine ⟨p.parse_of_ne_dotted (by decide), p.parse_of_ne_dotted (by decide),
    ⟨fun h => ?_, parse_of_separated⟩, ⟨fun ⟨z, hz⟩ h => ?_, parse_of_not_separated⟩⟩
  · by_contra hnot
    obtain ⟨z, hz⟩ := parse_of_not_separated hnot
    cases h.symm.trans hz
  · cases (parse_of_separated h).symm.trans hz

/-- The element `1` of the element `0`: with brackets it is an expression, with points it is not. -/
theorem parse_two_positions :
    let p : Path := ⟨"x", by decide, [.position 0 (by decide), .position 1 (by decide)]⟩
    (p.text .bracketed = "$x[0][1]".toList ∧ parse (p.text .bracketed) = .ok p.expr) ∧
    p.text .dotted = "$x.0.1".toList ∧
      ∃ z, parse (p.text .dotted) = .error (.expectedMember (some (.float z))) := by
  intro p
  exact ⟨⟨by decide, p.parse_of_ne_dotted (by decide)⟩, by decide,
    parse_of_not_separated not_separated_positions⟩

end Path

end Stencil.Expr
