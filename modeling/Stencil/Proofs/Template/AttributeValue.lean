import Mathlib.Data.List.Basic
import Stencil.Proofs.Template.Classes

/-!
What the value of an attribute is read as.

Whether a raw value is a text in quotes is decided by its first and its last character, and whether
it is one of the words for true, false and null by the whole of it. The tokens of the value say the
same where it is a single token: a string is what is in quotes on both sides (`isQuoted_of_lexes`),
and a name is the value without the white space around it (`trim_of_lexes_name`). A value of several
tokens can only be taken for one text in quotes when the first and the last of them are strings
(`strings_of_isQuoted`). So a value is an expression unless it is one string or one of the three
words, with the exception of several tokens between two strings in the same quotes
(`attributeValue_of_lex`).
-/

namespace Stencil

/-! ## Names and words -/

theorem trim_of_isName {x : List Char} (h : isName x = true) : trim x = x :=
  trim_of_forall fun _ hc =>
    Bool.eq_false_iff.mpr (not_isBlank_of_isNameChar (isNameChar_of_mem h hc))

theorem isAlpha_of_toLower {c : Char} (h : c.toLower.isAlpha = true) : c.isAlpha = true := by
  by_cases hupper : 'A'.val ≤ c.val ∧ c.val ≤ 'Z'.val
  · exact Bool.or_eq_true_iff.mpr (Or.inl (decide_eq_true hupper))
  · have hsame : c.toLower = c := dif_neg hupper
    rwa [hsame] at h

/-- In any case, a word of letters is a name. -/
theorem isName_of_sameWord {s word : List Char} (hne : word ≠ [])
    (hletters : (lowerAscii word).all Char.isAlpha = true) (h : sameWord s word = true) :
    isName s = true := by
  have hs : lowerAscii s = lowerAscii word := beq_iff_eq.mp h
  rw [List.all_eq_true] at hletters
  have hall : ∀ c ∈ s, c.isAlpha = true := fun c hc =>
    isAlpha_of_toLower (hletters _ (hs ▸ List.mem_map_of_mem hc))
  cases s with
  | nil => exact absurd (List.map_eq_nil_iff.mp hs.symm) hne
  | cons c s =>
    rw [isName, Bool.and_eq_true, List.all_eq_true]
    exact ⟨by simp [isNameStart, hall c], fun d hd =>
      isNameChar_of_isAlpha (hall d (List.mem_cons_of_mem c hd))⟩

namespace Expr

/-! ## Strings at the ends of a text -/

/-- A quote is the start of a string and of nothing else. -/
theorem lexToken_of_isQuote {total : Nat} {q : Char} (hq : isQuote q = true) {cs rest : List Char}
    {t : Token} (h : lexToken total q cs = .ok (t, rest)) :
    ∃ s w, t = .str s ∧ cs = w ++ q :: rest := by
  have hquote : (q == '\'' || q == '"') = true := by rwa [isQuote, Bool.or_comm] at hq
  have hdigit : ¬ q.isDigit = true := by
    rcases eq_of_isQuote hq with rfl | rfl <;> decide
  rw [lexToken, if_neg hdigit, if_pos hquote] at h
  split at h
  · next s rest' hs =>
    cases h
    obtain ⟨w, rfl⟩ := lexString_eq_some hs
    exact ⟨_, w, rfl, rfl⟩
  · cases h

theorem isQuote_of_lexToken {total : Nat} {c : Char} {cs rest : List Char} {s : String}
    (h : lexToken total c cs = .ok (.str s, rest)) : isQuote c = true := by
  unfold lexToken at h
  split at h
  · have hnumber : ∀ u, (lexNumber u).1 ≠ .str s := by
      intro u
      unfold lexNumber
      dsimp only
      split
      · split <;> exact nofun
      · exact nofun
    exact absurd (congrArg Prod.fst (Except.ok.inj h)) (hnumber _)
  · split at h
    · next hquote => rwa [isQuote, Bool.or_comm]
    · split at h
      · split at h <;> cases h
      · split at h
        · split at h <;> cases h
        · cases h

/-- The token that takes a quote at the end of the text is a string, since no other token goes on
with a quote. -/
theorem str_of_lexToken_getLast {total : Nat} {q c : Char} (hq : isQuote q = true) {cs : List Char}
    {t : Token} (hlast : (c :: cs).getLast? = some q) (h : lexToken total c cs = .ok (t, [])) :
    ∃ s, t = .str s := by
  by_cases hc : isQuote c = true
  · obtain ⟨s, _, ht, _⟩ := lexToken_of_isQuote hc h
    exact ⟨s, ht⟩
  · have hne : cs ≠ [] := by
      rintro rfl
      cases hlast
      exact hc hq
    obtain ⟨before, rfl⟩ : ∃ before, cs = before ++ [q] := by
      rw [List.getLast?_cons_of_ne_nil hne] at hlast
      exact List.getLast?_eq_some_iff.mp hlast
    have hapart : Apart [q] := by
      rcases eq_of_isQuote hq with rfl | rfl <;> exact apart_cons.mpr rfl
    have hother : ¬ (c == '\'' || c == '"') = true := by rwa [Bool.or_comm]
    -- without the quote the text has the same token, which leaves the quote as its rest
    have hsplit : (lexToken total c (before ++ [q])).toOption =
        (lexToken total c before).toOption.map fun found => (found.1, found.2 ++ [q]) :=
      hapart.toOption_lexToken_append total total fun hquote => absurd hquote hother
    rw [h] at hsplit
    obtain ⟨found, _, hfound⟩ := Option.map_eq_some_iff.mp hsplit.symm
    exact absurd (congrArg Prod.snd hfound) (by simp)

theorem Lexes.head_str {s cs : List Char} {q : Char} {ts : List Token} (h : Lexes s ts)
    (hq : isQuote q = true) (hs : trimStart s = q :: cs) :
    ∃ first more, ts = .str first :: more := by
  cases h with
  | nil hnil =>
    rw [hs] at hnil
    cases hnil
  | cons hcons ht =>
    rw [hs] at hcons
    cases hcons
    obtain ⟨first, _, rfl, _⟩ := lexToken_of_isQuote hq ht
    exact ⟨first, _, rfl⟩

theorem Lexes.last_str {s : List Char} {q : Char} {ts : List Token} (h : Lexes s ts)
    (hq : isQuote q = true) (hlast : s.getLast? = some q) :
    ∃ before last, ts = before ++ [.str last] := by
  induction h with
  | @nil s hs =>
    have hblank := trimStart_eq_nil.mp hs q (List.mem_of_getLast? hlast)
    rw [isBlank_of_isQuote hq] at hblank
    cases hblank
  | @cons s cs rest c total t ts hs ht hrest ih =>
    have hend : (c :: cs).getLast? = some q := by
      obtain ⟨blanks, heq⟩ := isSuffix_trimStart s
      rw [← heq, hs] at hlast
      rwa [List.getLast?_append_of_ne_nil _ (List.cons_ne_nil c cs)] at hlast
    cases rest with
    | nil =>
      obtain ⟨last, rfl⟩ := str_of_lexToken_getLast hq hend ht
      cases hrest with
      | nil => exact ⟨[], last, rfl⟩
      | cons hcons => cases hcons
    | cons d rest =>
      obtain ⟨w, heq, _⟩ := lexeme_of_lexToken ht
      rw [heq, List.getLast?_append_of_ne_nil _ (List.cons_ne_nil d rest)] at hend
      obtain ⟨before, last, rfl⟩ := ih hend
      exact ⟨t :: before, last, rfl⟩

/-- A value that starts and ends with the same quote starts and ends with strings. -/
theorem Lexes.strings_of_isQuoted {raw : List Char} {ts : List Token} (h : Lexes raw ts)
    (hquoted : isQuoted (trim raw) = true) :
    (∃ s, ts = [.str s]) ∨ ∃ first middle last, ts = .str first :: (middle ++ [.str last]) := by
  obtain ⟨q, hq, heq⟩ := isQuoted_eq_true hquoted
  rw [← lexes_trim_iff, heq] at h
  have hstart : trimStart (q :: (unquote (trim raw) ++ [q])) = q :: (unquote (trim raw) ++ [q]) :=
    List.dropWhile_cons_of_neg (by simp [isBlank_of_isQuote hq])
  obtain ⟨first, more, rfl⟩ := h.head_str hq hstart
  obtain ⟨before, last, hlast⟩ :=
    h.last_str hq (List.getLast?_concat (l := q :: unquote (trim raw)))
  cases before with
  | nil => exact Or.inl ⟨last, hlast⟩
  | cons t middle =>
    cases hlast
    exact Or.inr ⟨first, middle, last, rfl⟩

/-! ## Values of one token -/

/-- A text of one token is that token between white space. -/
theorem trim_of_lexes_nil {raw w rest : List Char} (hs : trimStart raw = w ++ rest)
    (hrest : Lexes rest []) : trim raw = trim w := by
  have hblank : ∀ c ∈ rest, isBlank c = true := by
    cases hrest with
    | nil hnil => exact trimStart_eq_nil.mp hnil
  calc trim raw = trim (trimStart raw) := by rw [trim, trim, trimStart_trimStart]
    _ = trim (w ++ rest) := by rw [hs]
    _ = trim w := trim_append_of_isBlank_right hblank w

theorem isQuoted_of_lexes {raw : List Char} {s : String} (h : Lexes raw [.str s]) :
    isQuoted (trim raw) = true := by
  cases h with
  | @cons _ cs rest q _ _ _ hs ht hrest =>
    have hq := isQuote_of_lexToken ht
    obtain ⟨_, w, _, rfl⟩ := lexToken_of_isQuote hq ht
    have hstart : trimStart raw = q :: (w ++ [q]) ++ rest := by simpa using hs
    rw [trim_of_lexes_nil hstart hrest, trim_quoted hq]
    exact isQuoted_quoted hq w

theorem trim_of_lexes_name {raw : List Char} {n : String} (h : Lexes raw [.name n]) :
    trim raw = n.toList := by
  cases h with
  | @cons _ cs rest c _ _ _ hs ht hrest =>
    obtain ⟨w, heq, hlexeme⟩ := lexeme_of_lexToken ht
    obtain ⟨hname, rfl, _⟩ := hlexeme.name n rfl
    rw [trim_of_lexes_nil (hs.trans heq) hrest, trim_of_isName hname]

/-! ## Two strings -/

open Grammar in
theorem reads_concat_str {raw : List Char} {a b : String}
    (h : Lexes raw [.str a, .symbol .tilde, .str b]) (c : Context) :
    Reads c raw (.str (a ++ b)) := by
  have hsum := Chain.join (.operand (operand_of_primary (.str a))) Sign.concat
    (operand_of_primary (.str b))
  exact ⟨_, _, h, expression_of_sum hsum, rfl⟩

end Expr

/-! ## Values -/

/-- The words that are values of their own. -/
def wordValue? (word : List Char) : Option Value :=
  if sameWord word "true".toList then some (.bool true)
  else if sameWord word "false".toList then some (.bool false)
  else if sameWord word "null".toList then some .null
  else none

theorem isName_of_wordValue? {word : List Char} {v : Value} (h : wordValue? word = some v) :
    isName word = true := by
  unfold wordValue? at h
  split at h
  · next hword => exact isName_of_sameWord (by decide) (by decide) hword
  · split at h
    · next hword => exact isName_of_sameWord (by decide) (by decide) hword
    · split at h
      · next hword => exact isName_of_sameWord (by decide) (by decide) hword
      · cases h

theorem attributeValue_of_not_isQuoted {raw : List Char} (h : isQuoted (trim raw) = false)
    (c : Context) : attributeValue raw c = (wordValue? (trim raw)).getD (Expr.evaluate raw c) := by
  simp only [attributeValue, h, Bool.false_eq_true, if_false, wordValue?, Expr.evaluate, trim_trim]
  split_ifs <;> rfl

/-- The value by its tokens: one string is a text with its markers filled in, one of the words is
the value that it stands for, and everything else is an expression. -/
def valueOfTokens (raw : List Char) (c : Context) : List Expr.Token → Value
  | [.str _] => .str (String.ofList (interpolate .none (unquote (trim raw)) c))
  | [.name n] => (wordValue? n.toList).getD (Expr.evaluate raw c)
  | _ => Expr.evaluate raw c

/-- The value starts and ends with the same quote, but these are the quotes of two strings. -/
def SpansStrings (raw : List Char) (ts : List Expr.Token) : Prop :=
  isQuoted (trim raw) = true ∧ ∃ first middle last, ts = .str first :: (middle ++ [.str last])

/-- Unless it spans two strings, the value of an attribute is what its tokens call for. -/
theorem attributeValue_of_lex {raw : List Char} {ts : List Expr.Token}
    (hlex : Expr.lex raw = .ok ts) (hspan : ¬ SpansStrings raw ts) (c : Context) :
    attributeValue raw c = valueOfTokens raw c ts := by
  have hlexes := Expr.lex_eq_ok_iff.mp hlex
  cases hquoted : isQuoted (trim raw) with
  | true =>
    have hone := (hlexes.strings_of_isQuoted hquoted).resolve_right fun h => hspan ⟨hquoted, h⟩
    obtain ⟨s, rfl⟩ := hone
    simp only [attributeValue, hquoted, if_true, valueOfTokens]
  | false =>
    rw [attributeValue_of_not_isQuoted hquoted]
    cases hword : wordValue? (trim raw) with
    | some v =>
      have hname := Expr.lexes_trim_iff.mp (Expr.lexes_name (isName_of_wordValue? hword))
      obtain rfl : ts = [.name (String.ofList (trim raw))] :=
        Except.ok.inj (hlex.symm.trans (Expr.lex_eq_ok_iff.mpr hname))
      rw [valueOfTokens, String.toList_ofList, hword]
    | none =>
      unfold valueOfTokens
      split
      · rw [Expr.isQuoted_of_lexes hlexes] at hquoted
        cases hquoted
      · rw [← Expr.trim_of_lexes_name hlexes, hword]
      · rfl

/-- Two strings in different quotes are no text in quotes. -/
theorem attributeValue_of_lex_different_quotes :
    let raw := " 'a' ~ \"b\"".toList
    let ts := [Expr.Token.str "a", .symbol .tilde, .str "b"]
    let c := Context.ofList []
    Expr.lex raw = .ok ts ∧ ¬ SpansStrings raw ts ∧
      attributeValue raw c = valueOfTokens raw c ts ∧ valueOfTokens raw c ts = .str "ab" := by
  intro raw ts c
  have hlex : Expr.lex raw = .ok ts := rfl
  have hspan : ¬ SpansStrings raw ts := fun h => absurd h.1 (by decide)
  have hreads := Expr.reads_concat_str (Expr.lex_eq_ok_iff.mp hlex) c
  have hvalue : Expr.evaluate raw c = .str "ab" := Expr.evaluate_of_reads hreads rfl
  have htokens : valueOfTokens raw c ts = Expr.evaluate raw c := rfl
  exact ⟨hlex, hspan, attributeValue_of_lex hlex hspan c, htokens.trans hvalue⟩

/-- Two strings in the same quotes are taken for one text in quotes, together with the operator
between them. -/
theorem attributeValue_same_quotes :
    let raw := "\"a\" ~ \"b\"".toList
    let c := Context.ofList []
    Expr.lex raw = .ok [.str "a", .symbol .tilde, .str "b"] ∧
      Expr.evaluate raw c = .str "ab" ∧ attributeValue raw c = .str "a\" ~ \"b" := by
  intro raw c
  have hlex : Expr.lex raw = .ok [.str "a", .symbol .tilde, .str "b"] := rfl
  have hreads := Expr.reads_concat_str (Expr.lex_eq_ok_iff.mp hlex) c
  exact ⟨hlex, Expr.evaluate_of_reads hreads rfl, rfl⟩

end Stencil
