import Mathlib.Data.List.Find
import Mathlib.Data.List.TakeWhile
import Stencil.Proofs.Expr.Lexeme

/-!
Lexing one text after another.

`Lexes` says which tokens a text has, without the offsets that only errors mention and without a
bound on the number of tokens. A token that was read to its end is read again when the text goes on
with a character that no token goes on with (`lexToken_append`), so the tokens of two texts that
meet at such a character are those of the one and then those of the other (`Lexes.append`). White
space around a text neither adds a token nor takes one away, and it mends no text that has none
(`lexes_trim_iff`).
-/

namespace Stencil.Expr

/-- The characters with which a number, a name or a symbol can go on. -/
def joins (c : Char) : Bool := isNameChar c || ['.', '+', '-', '=', '&', '|', '?', '>'].contains c

/-- The text is empty or starts with a character that no token goes on with. -/
def Apart (s : List Char) : Prop := ∀ c ∈ s.head?, joins c = false

theorem apart_nil : Apart [] := nofun

theorem apart_cons {c : Char} {s : List Char} : Apart (c :: s) ↔ joins c = false := by
  simp [Apart]

theorem joins_of_isBlank {c : Char} (h : isBlank c = true) : joins c = false := by
  rw [joins, isNameChar_of_isBlank h, Bool.false_or, ← Bool.not_eq_true, List.contains_iff_mem]
  intro hc
  have hnone : ∀ d ∈ ['.', '+', '-', '=', '&', '|', '?', '>'], isBlank d = false := by
    simp [isBlank]
  rw [hnone c hc] at h
  cases h

theorem apart_of_isBlank {s : List Char} (h : ∀ c ∈ s, isBlank c = true) : Apart s :=
  fun c hc => joins_of_isBlank (h c (List.mem_of_mem_head? hc))

section

variable {s after : List Char}

theorem Apart.takeWhile_append {p : Char → Bool} (ha : Apart after)
    (hp : ∀ c, joins c = false → p c = false) (s : List Char) :
    (s ++ after).takeWhile p = s.takeWhile p := by
  induction s with
  | nil =>
    cases after with
    | nil => rfl
    | cons d after => simp [hp d (ha d rfl)]
  | cons c s ih =>
    rw [List.cons_append, List.takeWhile_cons, List.takeWhile_cons, ih]

theorem Apart.dropWhile_append {p : Char → Bool} (ha : Apart after)
    (hp : ∀ c, joins c = false → p c = false) (s : List Char) :
    (s ++ after).dropWhile p = s.dropWhile p ++ after := by
  induction s with
  | nil =>
    cases after with
    | nil => rfl
    | cons d after => simp [hp d (ha d rfl)]
  | cons c s ih =>
    rw [List.cons_append, List.dropWhile_cons, List.dropWhile_cons, ih]
    split <;> rfl

theorem isNameChar_of_not_joins {c : Char} (h : joins c = false) : isNameChar c = false := by
  rw [joins, Bool.or_eq_false_iff] at h
  exact h.1

theorem isNameChar_of_isNumberChar {c : Char} (h : isNumberChar c = true) :
    isNameChar c = true := by
  rw [isNumberChar, Bool.or_eq_true] at h
  rw [isNameChar, Char.isAlphanum, Bool.or_eq_true, Bool.or_eq_true]
  exact h.imp_left .inr

theorem isNumberChar_of_not_joins {c : Char} (h : joins c = false) : isNumberChar c = false := by
  refine Bool.eq_false_iff.mpr fun hnumber => ?_
  have hname := isNameChar_of_isNumberChar hnumber
  rw [isNameChar_of_not_joins h] at hname
  cases hname

theorem isDigit_of_not_joins {c : Char} (h : joins c = false) : c.isDigit = false := by
  have hnumber := isNumberChar_of_not_joins h
  rw [isNumberChar, Bool.or_eq_false_iff] at hnumber
  exact hnumber.1

/-! ## Numbers -/

theorem splitDigits_of_forall {s : List Char} (hs : ∀ c ∈ s, isNumberChar c = true) :
    splitDigits s = (s.filter Char.isDigit, []) := by
  rw [splitDigits, List.takeWhile_eq_self_iff.mpr hs, List.dropWhile_eq_nil_iff.mpr hs]

theorem Apart.splitDigits_append (ha : Apart after) (s : List Char) :
    splitDigits (s ++ after) = ((splitDigits s).1, (splitDigits s).2 ++ after) := by
  have hp : ∀ c, joins c = false → isNumberChar c = false := fun c => isNumberChar_of_not_joins
  rw [splitDigits, ha.takeWhile_append hp, ha.dropWhile_append hp, splitDigits]

theorem Apart.any_isDigit_append (ha : Apart after) (s : List Char) :
    (s ++ after).head?.any Char.isDigit = s.head?.any Char.isDigit := by
  cases s with
  | cons c s => rfl
  | nil =>
    cases after with
    | nil => rfl
    | cons d after => exact isDigit_of_not_joins (ha d rfl)

theorem splitFraction_of_head {s : List Char} (h : ∀ c ∈ s.head?, c ≠ '.') :
    splitFraction s = (none, s) := by
  unfold splitFraction
  split
  · exact absurd rfl (h '.' rfl)
  · rfl

theorem Apart.splitFraction_append (ha : Apart after) (s : List Char) :
    splitFraction (s ++ after) = ((splitFraction s).1, (splitFraction s).2 ++ after) := by
  have hdot : ∀ c ∈ after.head?, c ≠ '.' := by
    rintro c hc rfl
    exact absurd (ha '.' hc) (by decide)
  cases s with
  | nil => exact splitFraction_of_head hdot
  | cons c s =>
    by_cases hc : c = '.'
    · subst hc
      cases s with
      | nil =>
        cases after with
        | nil => rfl
        | cons d after => simp [splitFraction, isDigit_of_not_joins (ha d rfl)]
      | cons d s =>
        have hdigits := ha.splitDigits_append (d :: s)
        simp only [List.cons_append] at hdigits
        simp only [List.cons_append, splitFraction, hdigits]
        split <;> rfl
    · have hother : ∀ t : List Char, ∀ c' ∈ (c :: t).head?, c' ≠ '.' := by
        rintro t c' ⟨⟩
        exact hc
      rw [List.cons_append, splitFraction_of_head (hother _), splitFraction_of_head (hother _)]
      rfl

theorem splitExponent_unsigned {e : Char} (he : (e == 'e' || e == 'E') = true) {s : List Char}
    (hsign : ∀ c ∈ s.head?, c ≠ '-' ∧ c ≠ '+') :
    splitExponent (e :: s) =
      if s.head?.any Char.isDigit then
        (some (valueOf (splitDigits s).1 : Int), (splitDigits s).2)
      else (none, e :: s) := by
  cases s with
  | nil => simp [splitExponent, he]
  | cons c s =>
    obtain ⟨hminus, hplus⟩ := hsign c rfl
    simp [splitExponent, he, hminus, hplus]
    rfl

theorem Apart.splitExponent_append (ha : Apart after) (s : List Char) :
    splitExponent (s ++ after) = ((splitExponent s).1, (splitExponent s).2 ++ after) := by
  have hhead : ∀ c ∈ after.head?, c ≠ 'e' ∧ c ≠ 'E' ∧ c ≠ '-' ∧ c ≠ '+' := by
    intro c hc
    refine ⟨?_, ?_, ?_, ?_⟩ <;>
    · rintro rfl
      exact absurd (ha _ hc) (by decide)
  have hdigit := ha.any_isDigit_append
  have hdigits := ha.splitDigits_append
  cases s with
  | nil =>
    cases after with
    | nil => rfl
    | cons d after =>
      obtain ⟨he, hE, _, _⟩ := hhead d rfl
      simp [splitExponent, he, hE]
  | cons e s =>
    by_cases he : (e == 'e' || e == 'E') = true
    · by_cases hsign : ∀ c ∈ s.head?, c ≠ '-' ∧ c ≠ '+'
      · have hsign' : ∀ c ∈ (s ++ after).head?, c ≠ '-' ∧ c ≠ '+' := by
          cases s with
          | nil => exact fun c hc => (hhead c hc).2.2
          | cons c s => exact hsign
        rw [List.cons_append, splitExponent_unsigned he hsign, splitExponent_unsigned he hsign',
          hdigit, hdigits]
        split <;> rfl
      · -- a sign stands between the letter and the digits
        cases s with
        | nil => exact absurd nofun hsign
        | cons c s =>
          have hc : c = '-' ∨ c = '+' := Decidable.or_iff_not_imp_left.mpr (by simpa using hsign)
          rcases hc with rfl | rfl <;>
          · simp only [List.cons_append, splitExponent, he, if_true, hdigit s, hdigits s]
            split <;> rfl
    · simp only [List.cons_append, splitExponent, he]
      rfl

theorem Apart.lexNumber_append (ha : Apart after) (s : List Char) :
    lexNumber (s ++ after) = ((lexNumber s).1, (lexNumber s).2 ++ after) := by
  simp only [lexNumber, ha.splitDigits_append, ha.splitFraction_append, ha.splitExponent_append]
  split
  · split <;> rfl
  · rfl

/-! ## Strings, symbols and names -/

theorem lexString_append {quote : Char} {done s str rest : List Char}
    (h : lexString quote done s = some (str, rest)) (after : List Char) :
    lexString quote done (s ++ after) = some (str, rest ++ after) := by
  fun_induction lexString quote done s with
  | case1 => cases h
  | case2 => cases h
  | case3 done c cs ih => exact ih h
  | case4 done c cs hlone hpair hc =>
    have hother : c ≠ '\\' := by
      rintro rfl
      cases cs with
      | nil => exact hlone rfl rfl
      | cons d cs => exact hpair d cs rfl rfl
    cases h
    rw [List.cons_append, lexString, if_pos hc]
    · exact fun hbackslash => absurd hbackslash hother
    · exact fun _ _ hbackslash => absurd hbackslash hother
  | case5 done c cs hlone hpair hc ih =>
    have hother : c ≠ '\\' := by
      rintro rfl
      cases cs with
      | nil => exact hlone rfl rfl
      | cons d cs => exact hpair d cs rfl rfl
    rw [List.cons_append, lexString, if_neg hc]
    · exact ih h
    · exact fun hbackslash => absurd hbackslash hother
    · exact fun _ _ hbackslash => absurd hbackslash hother

theorem lexString_of_not_mem {quote : Char} {done s : List Char} (h : quote ∉ s) :
    lexString quote done s = none := by
  fun_induction lexString quote done s with
  | case1 => rfl
  | case2 => rfl
  | case3 done c cs ih => exact ih fun hc => h (by simp [hc])
  | case4 done c cs _ _ hc => exact absurd (by simp [beq_iff_eq.mp hc]) h
  | case5 done c cs _ _ _ ih => exact ih fun hc => h (List.mem_cons_of_mem _ hc)

theorem lexString_append_of_not_mem {quote : Char} {done s : List Char}
    (h : lexString quote done s = none) (ha : quote ∉ after) :
    lexString quote done (s ++ after) = none := by
  fun_induction lexString quote done s with
  | case1 => exact lexString_of_not_mem ha
  | case2 =>
    cases after with
    | nil => rfl
    | cons d after =>
      rw [List.cons_append, List.nil_append, lexString]
      exact lexString_of_not_mem fun hd => ha (List.mem_cons_of_mem _ hd)
  | case3 done c cs ih => exact ih h
  | case4 => cases h
  | case5 done c cs hlone hpair hc ih =>
    have hother : c ≠ '\\' := by
      rintro rfl
      cases cs with
      | nil => exact hlone rfl rfl
      | cons d cs => exact hpair d cs rfl rfl
    rw [List.cons_append, lexString, if_neg hc]
    · exact ih h
    · exact fun hbackslash => absurd hbackslash hother
    · exact fun _ _ hbackslash => absurd hbackslash hother

theorem Apart.isPrefixOf_append (ha : Apart after) {w : List Char} (hw : ∀ c ∈ w, joins c = true)
    (s : List Char) : w.isPrefixOf (s ++ after) = w.isPrefixOf s := by
  induction w generalizing s with
  | nil => simp
  | cons c w ih =>
    cases s with
    | cons d s => simp [List.isPrefixOf, ih (fun c hc => hw c (List.mem_cons_of_mem _ hc))]
    | nil =>
      cases after with
      | nil => rfl
      | cons d after =>
        have hne : c ≠ d := by
          rintro rfl
          exact absurd (ha c rfl) (by simp [hw c])
        simp [List.isPrefixOf, hne]

theorem Apart.lexSymbol_append (ha : Apart after) (c : Char) (cs : List Char) :
    lexSymbol (c :: cs ++ after) =
      (lexSymbol (c :: cs)).map fun found => (found.1, found.2 ++ after) := by
  have hspellings : Symbol.spellings.all fun entry => entry.1.tail.all joins := by decide
  have hprefix : ∀ entry ∈ Symbol.spellings,
      entry.1.isPrefixOf (c :: cs ++ after) = entry.1.isPrefixOf (c :: cs) := by
    rintro ⟨spelling, symbol⟩ hentry
    have htail := List.all_eq_true.mp (List.all_eq_true.mp hspellings _ hentry)
    cases spelling with
    | nil => rfl
    | cons d w =>
      have hw : w.isPrefixOf (cs ++ after) = w.isPrefixOf cs := ha.isPrefixOf_append htail cs
      simp [List.isPrefixOf, hw]
  have hfind : (Symbol.spellings.find? fun entry => entry.1.isPrefixOf (c :: cs ++ after)) =
      Symbol.spellings.find? fun entry => entry.1.isPrefixOf (c :: cs) :=
    List.find?_congr hprefix
  rw [lexSymbol, lexSymbol, hfind]
  cases hfound : Symbol.spellings.find? fun entry => entry.1.isPrefixOf (c :: cs) with
  | none => rfl
  | some entry =>
    have hlength : entry.1.length ≤ (c :: cs).length :=
      (List.isPrefixOf_iff_prefix.mp (by simpa using List.find?_some hfound)).length_le
    simp only [Option.map_some, List.drop_append_of_le_length hlength]

theorem isNameStart_of_not_joins {c : Char} (h : joins c = false) : isNameStart c = false := by
  have hname := isNameChar_of_not_joins h
  rw [isNameChar, Char.isAlphanum, Bool.or_eq_false_iff, Bool.or_eq_false_iff] at hname
  rw [isNameStart, hname.1.1, hname.2]
  rfl

theorem Apart.splitName_append (ha : Apart after) (s : List Char) :
    splitName (s ++ after) = ((splitName s).1, (splitName s).2 ++ after) := by
  have hp : ∀ c, joins c = false → isNameChar c = false := fun c => isNameChar_of_not_joins
  cases s with
  | nil =>
    cases after with
    | nil => rfl
    | cons d after => simp [splitName, isNameStart_of_not_joins (ha d rfl)]
  | cons c s =>
    rw [List.cons_append, splitName, splitName, ha.takeWhile_append hp, ha.dropWhile_append hp]
    split <;> rfl

/-! ## Tokens -/

/-- A token is read again in front of a text that stays apart from it, unless that text closes a
string. How long the whole source is plays no part. -/
theorem Apart.toOption_lexToken_append (ha : Apart after) (total total' : Nat) {c : Char}
    {cs : List Char} (hstring : (c == '\'' || c == '"') = true → lexString c [] (cs ++ after) =
      (lexString c [] cs).map fun found => (found.1, found.2 ++ after)) :
    (lexToken total' c (cs ++ after)).toOption =
      (lexToken total c cs).toOption.map fun found => (found.1, found.2 ++ after) := by
  unfold lexToken
  simp only [← List.cons_append, ha.lexNumber_append, ha.splitName_append, ha.lexSymbol_append]
  split
  · rfl
  · split
    · next hquote =>
      rw [hstring hquote]
      cases lexString c [] cs <;> rfl
    · split
      · obtain ⟨name, rest⟩ := splitName cs
        cases name <;> rfl
      · obtain ⟨name, rest⟩ := splitName (c :: cs)
        cases name with
        | nil => cases lexSymbol (c :: cs) <;> rfl
        | cons => rfl

theorem toOption_eq_some {ε α : Type} {r : Except ε α} {a : α} :
    r.toOption = some a ↔ r = .ok a := by
  cases r <;> simp [Except.toOption]

theorem Apart.lexToken_append (ha : Apart after) {total : Nat} {c : Char} {cs rest : List Char}
    {t : Token} (h : lexToken total c cs = .ok (t, rest)) (total' : Nat) :
    lexToken total' c (cs ++ after) = .ok (t, rest ++ after) := by
  have hstring : (c == '\'' || c == '"') = true → lexString c [] (cs ++ after) =
      (lexString c [] cs).map fun found => (found.1, found.2 ++ after) := by
    intro hquote
    cases hfound : lexString c [] cs with
    | some found => exact lexString_append hfound after
    | none =>
      have hdigit : c.isDigit = false := by
        rw [Bool.or_eq_true, beq_iff_eq, beq_iff_eq] at hquote
        rcases hquote with rfl | rfl <;> rfl
      simp [lexToken, hdigit, hquote, hfound] at h
  rw [← toOption_eq_some, ha.toOption_lexToken_append total total' hstring, h]
  rfl

theorem lexToken_of_append_blank {after : List Char} (hblank : ∀ c ∈ after, isBlank c = true)
    (total : Nat) {total' : Nat} {c : Char} {cs rest : List Char} {t : Token}
    (h : lexToken total' c (cs ++ after) = .ok (t, rest)) :
    ∃ rest', lexToken total c cs = .ok (t, rest') ∧ rest = rest' ++ after := by
  have hstring : (c == '\'' || c == '"') = true → lexString c [] (cs ++ after) =
      (lexString c [] cs).map fun found => (found.1, found.2 ++ after) := by
    intro hquote
    have hnot : c ∉ after := by
      intro hc
      rw [Bool.or_eq_true, beq_iff_eq, beq_iff_eq] at hquote
      rcases hquote with rfl | rfl <;> exact absurd (hblank _ hc) (by decide)
    cases hfound : lexString c [] cs with
    | some found => exact lexString_append hfound after
    | none => exact lexString_append_of_not_mem hfound hnot
  have heq := (apart_of_isBlank hblank).toOption_lexToken_append total total' hstring
  rw [toOption_eq_some.mpr h] at heq
  obtain ⟨⟨t', rest'⟩, htoken, hfound⟩ := Option.map_eq_some_iff.mp heq.symm
  cases hfound
  exact ⟨rest', toOption_eq_some.mp htoken, rfl⟩

end

/-! ## Texts -/

/-- The text has these tokens. -/
inductive Lexes : List Char → List Token → Prop
  | nil {s : List Char} (hs : trimStart s = []) : Lexes s []
  | cons {s cs rest : List Char} {c : Char} {total : Nat} {t : Token} {ts : List Token}
    (hs : trimStart s = c :: cs) (ht : lexToken total c cs = .ok (t, rest))
    (hrest : Lexes rest ts) : Lexes s (t :: ts)

theorem length_lt_of_lexToken {total : Nat} {s cs rest : List Char} {c : Char} {t : Token}
    (hs : trimStart s = c :: cs) (ht : lexToken total c cs = .ok (t, rest)) :
    rest.length < s.length := by
  obtain ⟨w, hw, hlexeme⟩ := lexeme_of_lexToken ht
  have hpos : 0 < w.length := List.length_pos_iff.mpr hlexeme.ne_nil
  have hle : (w ++ rest).length ≤ s.length := by
    rw [← hw, ← hs]
    exact (isSuffix_trimStart s).length_le
  rw [List.length_append] at hle
  omega

theorem lexFrom_eq_ok_iff {total fuel : Nat} {s : List Char} (hfuel : s.length ≤ fuel)
    {ts : List Token} : lexFrom total fuel s = .ok ts ↔ Lexes s ts := by
  constructor
  · intro h
    induction fuel generalizing s ts with
    | zero =>
      cases h
      exact .nil (by rw [List.length_eq_zero_iff.mp (Nat.le_zero.mp hfuel)]; rfl)
    | succ fuel ih =>
      rw [lexFrom] at h
      split at h
      · next hs =>
        cases h
        exact .nil hs
      · next c cs hs =>
        split at h
        · cases h
        · next t rest ht =>
          have hlt := length_lt_of_lexToken hs ht
          split at h
          · cases h
          · next ts' hrest =>
            cases h
            exact .cons hs ht (ih (by omega) hrest)
  · intro h
    induction h generalizing fuel with
    | nil hs =>
      cases fuel with
      | zero => rfl
      | succ fuel => simp only [lexFrom, hs]
    | cons hs ht hrest ih =>
      have hlt := length_lt_of_lexToken hs ht
      cases fuel with
      | zero => omega
      | succ fuel =>
        have ht' := apart_nil.lexToken_append ht total
        rw [List.append_nil, List.append_nil] at ht'
        have hmore := ih (Nat.le_of_lt_succ (Nat.lt_of_lt_of_le hlt hfuel))
        simp only [lexFrom, hs, ht', hmore]

theorem lex_eq_ok_iff {s : List Char} {ts : List Token} : lex s = .ok ts ↔ Lexes s ts :=
  lexFrom_eq_ok_iff (Nat.le_refl _)

/-- White space in front of a text plays no part. -/
theorem Lexes.of_trimStart {s s' : List Char} {ts : List Token} (h : Lexes s ts)
    (hs : trimStart s' = trimStart s) : Lexes s' ts := by
  cases h with
  | nil hnil => exact .nil (hs.trans hnil)
  | cons hcons ht hrest => exact .cons (hs.trans hcons) ht hrest

theorem Lexes.append {s after : List Char} {ts us : List Token} (h : Lexes s ts)
    (h' : Lexes after us) (ha : Apart after) : Lexes (s ++ after) (ts ++ us) := by
  induction h with
  | nil hs => exact h'.of_trimStart (trimStart_append_of_nil hs after)
  | cons hs ht hrest ih =>
    exact .cons (trimStart_append_of_cons hs after) (ha.lexToken_append ht 0) ih

/-- White space after a text mends no text that has no tokens. -/
theorem Lexes.of_append_blank {s after : List Char} {ts : List Token}
    (hblank : ∀ c ∈ after, isBlank c = true) (h : Lexes (s ++ after) ts) : Lexes s ts := by
  have hnone : trimStart after = [] := trimStart_eq_nil.mpr hblank
  generalize htext : s ++ after = text at h
  induction h generalizing s with
  | nil hs =>
    subst htext
    exact .nil (trimStart_eq_nil.mpr fun c hc =>
      trimStart_eq_nil.mp hs c (List.mem_append_left _ hc))
  | @cons _ cs rest c _ t ts hs ht hrest ih =>
    subst htext
    cases hstart : trimStart s with
    | nil =>
      rw [trimStart_append_of_nil hstart, hnone] at hs
      cases hs
    | cons d ds =>
      rw [trimStart_append_of_cons hstart] at hs
      cases hs
      obtain ⟨rest', ht', rfl⟩ := lexToken_of_append_blank hblank 0 ht
      exact .cons hstart ht' (ih rfl)

theorem lexes_trim_iff {s : List Char} {ts : List Token} : Lexes (trim s) ts ↔ Lexes s ts := by
  obtain ⟨before, after, heq, hbefore, hafter⟩ := exists_eq_append_trim s
  have hstart : trimStart s = trimStart (trim s ++ after) := by
    conv_lhs => rw [heq]
    rw [List.append_assoc, trimStart_append_of_nil (trimStart_eq_nil.mpr hbefore)]
  constructor
  · intro h
    have hnone : Lexes after [] := .nil (trimStart_eq_nil.mpr hafter)
    have happend := h.append hnone (apart_of_isBlank hafter)
    rw [List.append_nil] at happend
    exact happend.of_trimStart hstart
  · intro h
    exact (h.of_trimStart hstart.symm).of_append_blank hafter

end Stencil.Expr
