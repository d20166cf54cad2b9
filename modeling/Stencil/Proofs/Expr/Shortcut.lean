import Stencil.Expr.Eval
import Stencil.Proofs.Expr.Lexing

/-!
The shortcut for lone names.

Templates look a lone name up without reading it as an expression. To read it gives the same: the
white space around it plays no part, a text that is one name has that one token, and the expression
that the token spells is looked up (`evaluate_eq_tryEvaluate`). It is different only for the four
words that are no names where an operand is expected, and only when the context has such a name.
-/

namespace Stencil.Expr

/-! ## White space around an expression -/

theorem parse_eq_ok_iff {s : List Char} {e : Expr} :
    parse s = .ok e ↔ ∃ ts, Lexes s ts ∧ ofTokens ts = .ok e := by
  rw [parse]
  constructor
  · intro h
    split at h
    · cases h
    · next ts hts => exact ⟨ts, lex_eq_ok_iff.mp hts, h⟩
  · rintro ⟨ts, hts, h⟩
    rw [lex_eq_ok_iff.mpr hts]
    exact h

/-- White space around a text neither makes an expression of it nor changes the one that it is. -/
theorem parse_trim_eq_ok_iff {s : List Char} {e : Expr} :
    parse (trim s) = .ok e ↔ parse s = .ok e := by
  simp only [parse_eq_ok_iff, lexes_trim_iff]

theorem toOption_tryEvaluate_trim (s : List Char) (c : Context) :
    (tryEvaluate (trim s) c).toOption = (tryEvaluate s c).toOption := by
  cases h : parse s with
  | ok e => rw [tryEvaluate, tryEvaluate, h, parse_trim_eq_ok_iff.mpr h]
  | error err =>
    cases htrim : parse (trim s) with
    | ok e =>
      rw [parse_trim_eq_ok_iff.mp htrim] at h
      cases h
    | error err' =>
      rw [tryEvaluate, tryEvaluate, h, htrim]
      rfl

/-! ## Lone names -/

/-- A name is taken off the front of a text that does not go on with it. -/
theorem splitName_append_of_isName {x rest : List Char} (h : isName x = true)
    (hafter : OpenAfter rest) : splitName (x ++ rest) = (x, rest) := by
  cases x with
  | nil => cases h
  | cons c cs =>
    rw [isName, Bool.and_eq_true, List.all_eq_true] at h
    obtain ⟨hc, hcs⟩ := h
    rw [List.cons_append, splitName, if_pos hc, List.takeWhile_append_of_pos hcs,
      List.dropWhile_append_of_pos hcs]
    cases rest with
    | nil => simp
    | cons d rest => simp [hafter d rfl]

theorem lexToken_var {x rest : List Char} (h : isName x = true) (hafter : OpenAfter rest) :
    lexToken 0 '$' (x ++ rest) = .ok (.var (String.ofList x), rest) := by
  have hsplit := splitName_append_of_isName h hafter
  cases x with
  | nil => cases h
  | cons c cs =>
    rw [List.cons_append] at hsplit ⊢
    simp [lexToken, hsplit]

theorem isDigit_of_isNameStart {c : Char} (h : isNameStart c = true) : c.isDigit = false := by
  rw [← Bool.not_eq_true, isDigit_iff]
  rw [isNameStart, Bool.or_eq_true, isAlpha_iff, beq_iff_eq] at h
  rcases h with h | rfl
  · omega
  · decide

theorem lexToken_name {c : Char} {cs rest : List Char} (h : isName (c :: cs) = true)
    (hafter : OpenAfter rest) :
    lexToken 0 c (cs ++ rest) = .ok (.name (String.ofList (c :: cs)), rest) := by
  have hsplit := splitName_append_of_isName h hafter
  have hstart : isNameStart c = true := (Bool.and_eq_true_iff.mp h).1
  have hdigit : c.isDigit = false := isDigit_of_isNameStart hstart
  have hother : ∀ d, isNameStart d = false → c ≠ d := by
    rintro d hd rfl
    rw [hstart] at hd
    cases hd
  rw [List.cons_append] at hsplit
  simp [lexToken, hsplit, hdigit, hother '\'' rfl, hother '"' rfl, hother '$' rfl]

theorem Lexes.token {c : Char} {cs rest : List Char} {t : Token} {ts : List Token}
    (hblank : isBlank c = false) (ht : lexToken 0 c cs = .ok (t, rest)) (h : Lexes rest ts) :
    Lexes (c :: cs) (t :: ts) :=
  .cons (List.dropWhile_cons_of_neg (by simp [hblank])) ht h

theorem lexes_var_append {x rest : List Char} {ts : List Token} (h : isName x = true)
    (hafter : OpenAfter rest) (hrest : Lexes rest ts) :
    Lexes ('$' :: (x ++ rest)) (.var (String.ofList x) :: ts) :=
  .token (by decide) (lexToken_var h hafter) hrest

theorem lexes_name_append {x rest : List Char} {ts : List Token} (h : isName x = true)
    (hafter : OpenAfter rest) (hrest : Lexes rest ts) :
    Lexes (x ++ rest) (.name (String.ofList x) :: ts) := by
  cases x with
  | nil => cases h
  | cons c cs =>
    have hchar := isNameChar_of_isNameStart (Bool.and_eq_true_iff.mp h).1
    exact .token (Bool.eq_false_iff.mpr (not_isBlank_of_isNameChar hchar)) (lexToken_name h hafter)
      hrest

theorem lexes_var {x : List Char} (h : isName x = true) :
    Lexes ('$' :: x) [.var (String.ofList x)] := by
  have happend := @lexes_var_append x [] [] h .nil (.nil rfl)
  rwa [List.append_nil] at happend

theorem lexes_name {x : List Char} (h : isName x = true) : Lexes x [.name (String.ofList x)] := by
  have happend := @lexes_name_append x [] [] h .nil (.nil rfl)
  rwa [List.append_nil] at happend

theorem ofTokens_var (n : String) : ofTokens [.var n] = .ok (.var n) := rfl

theorem ofTokens_name {n : String} (h : Grammar.isKeyword "not" n = false) :
    ofTokens [.name n] = .ok (Grammar.ofName n) := by
  have hsign : Grammar.unaryOp? (.name n) = none := by rw [Grammar.unaryOp?, h]; rfl
  simp [ofTokens, Grammar.expression, Grammar.conditional, Grammar.coalesced,
    Grammar.coalesceFrom, Grammar.disjunction, Grammar.chain, Grammar.chainFrom, Grammar.unary,
    hsign, Grammar.suffixed, Grammar.suffixesFrom, Grammar.primary]

/-- The words that are no names where an operand is expected. -/
def reservedWords : List String := ["true", "false", "null", "not"]

theorem parse_var {x : List Char} (h : isName x = true) :
    parse ('$' :: x) = .ok (.var (String.ofList x)) :=
  parse_eq_ok_iff.mpr ⟨_, lexes_var h, ofTokens_var _⟩

theorem parse_name {x : List Char} (h : isName x = true)
    (hword : ∀ w ∈ reservedWords, sameWord x w.toList = false) :
    parse x = .ok (.name (String.ofList x)) := by
  have hkeyword : ∀ w ∈ reservedWords, Grammar.isKeyword w (String.ofList x) = false := by
    intro w hw
    rw [Grammar.isKeyword, String.toList_ofList, hword w hw]
  have hname : Grammar.ofName (String.ofList x) = .name (String.ofList x) := by
    rw [Grammar.ofName, hkeyword "true" (by decide), hkeyword "false" (by decide),
      hkeyword "null" (by decide)]
    rfl
  rw [← hname]
  exact parse_eq_ok_iff.mpr ⟨_, lexes_name h, ofTokens_name (hkeyword "not" (by decide))⟩

/-- What is looked up at once is what the expression evaluates to. -/
theorem tryEvaluate_of_lookUp? {s : List Char} {c : Context} {v : Value} (h : lookUp? s c = some v)
    (hword : ∀ w ∈ reservedWords, sameWord s w.toList = true → c.get? (String.ofList s) = none) :
    tryEvaluate s c = .ok v := by
  unfold lookUp? at h
  split at h
  · next x =>
    split at h
    · next hx =>
      cases h
      rw [tryEvaluate, parse_var hx]
      rfl
    · cases h
  · split at h
    · next hs =>
      have hother : ∀ w ∈ reservedWords, sameWord s w.toList = false := by
        intro w hw
        rw [← Bool.not_eq_true]
        intro hsame
        rw [hword w hw hsame] at h
        cases h
      rw [tryEvaluate, parse_name hs hother]
      simp only [eval, h]
    · cases h

/-! ## The shortcut -/

/-- A text that templates evaluate has the value of the expression that it is, and null if it is
none, for every text and every context in which no reserved word is looked up. -/
theorem evaluate_eq_tryEvaluate {s : List Char} {c : Context}
    (hword : ∀ w ∈ reservedWords, sameWord (trim s) w.toList = true →
      c.get? (String.ofList (trim s)) = none) :
    evaluate s c = (tryEvaluate s c).toOption.getD .null := by
  rw [← toOption_tryEvaluate_trim, evaluate]
  cases h : lookUp? (trim s) c with
  | some v =>
    rw [tryEvaluate_of_lookUp? h hword]
    rfl
  | none => cases tryEvaluate (trim s) c <;> rfl

/-- A reserved word as a key does no harm as long as another name is looked up. -/
theorem evaluate_eq_tryEvaluate_title :
    let s := "\t title\n".toList
    let c := Context.ofList [("Not", .bool true), ("title", .str "Home")]
    (∀ w ∈ reservedWords, sameWord (trim s) w.toList = true →
      c.get? (String.ofList (trim s)) = none) ∧
    evaluate s c = (tryEvaluate s c).toOption.getD .null := by
  intro s c
  have hword : ∀ w ∈ reservedWords, sameWord (trim s) w.toList = true →
      c.get? (String.ofList (trim s)) = none := by
    decide
  exact ⟨hword, evaluate_eq_tryEvaluate hword⟩

example : evaluate "True".toList (.ofList [("True", .int 1)]) = .int 1 := rfl

end Stencil.Expr
