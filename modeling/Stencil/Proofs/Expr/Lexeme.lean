import Stencil.Expr.Lexer
import Stencil.Proofs.Text.Mention

/-!
Names among the tokens.

The tokens of a text stand in it one after the other, with nothing but white space between them. No
token ends in a letter that a word character follows (`Lexeme.closed`): names are as long as they
can be, and a number, a string or a symbol ends in no letter. So a name among the tokens is part of
nothing longer in the text (`mentioned_of_lex`).
-/

namespace Stencil.Expr

/-! ## Numbers -/

theorem isAlpha_of_isNumberChar {c : Char} (h : isNumberChar c = true) : c.isAlpha = false := by
  cases hletter : c.isAlpha with
  | false => rfl
  | true =>
    rw [isAlpha_iff] at hletter
    rw [isNumberChar, Bool.or_eq_true, isDigit_iff, beq_iff_eq] at h
    rcases h with h | rfl
    · omega
    · revert hletter
      decide

/-- The rest is what follows a part of the text that is not empty and ends in no letter. -/
def Takes (s rest : List Char) : Prop := ∃ w, s = w ++ rest ∧ w ≠ [] ∧ OpenBefore w

theorem Takes.trans {s t u : List Char} (h : Takes s t) (h' : u = t ∨ Takes t u) : Takes s u := by
  rcases h' with rfl | ⟨w, rfl, hne, hw⟩
  · exact h
  · obtain ⟨v, rfl, _, _⟩ := h
    exact ⟨v ++ w, by rw [List.append_assoc], by simp [hne], hw.append_left hne v⟩

/-- A digit is taken, together with whatever stands before it. -/
theorem takes_splitDigits (before : List Char) {s : List Char}
    (h : s.head?.any Char.isDigit = true) : Takes (before ++ s) (splitDigits s).2 := by
  cases s with
  | nil => cases h
  | cons d s =>
    have hd : isNumberChar d = true := by
      rw [isNumberChar, Bool.or_eq_true]
      exact Or.inl h
    have hall : ∀ c ∈ d :: s.takeWhile isNumberChar, c.isAlpha = false := by
      intro c hc
      refine isAlpha_of_isNumberChar ?_
      rcases List.mem_cons.mp hc with rfl | hc
      · exact hd
      · exact List.all_eq_true.mp (List.all_takeWhile (p := isNumberChar) (l := s)) c hc
    have hrest : (splitDigits (d :: s)).2 = s.dropWhile isNumberChar :=
      List.dropWhile_cons_of_pos hd
    refine ⟨before ++ d :: s.takeWhile isNumberChar, ?_, by simp,
      (OpenBefore.of_forall hall).append_left (List.cons_ne_nil _ _) before⟩
    rw [hrest, List.append_assoc, List.cons_append, List.takeWhile_append_dropWhile]

theorem splitFraction_takes (s : List Char) :
    (splitFraction s).2 = s ∨ Takes s (splitFraction s).2 := by
  unfold splitFraction
  split
  · next d rest =>
    split
    · next hd => exact Or.inr (takes_splitDigits ['.'] hd)
    · exact Or.inl rfl
  · exact Or.inl rfl

theorem splitExponent_takes (s : List Char) :
    (splitExponent s).2 = s ∨ Takes s (splitExponent s).2 := by
  have hsigned : ∀ (sign digits : List Char) (exponent : Option Int) (r : Option Int × List Char),
      r = (if digits.head?.any Char.isDigit then (exponent, (splitDigits digits).2)
        else (none, sign ++ digits)) → r.2 = sign ++ digits ∨ Takes (sign ++ digits) r.2 := by
    rintro sign digits exponent r rfl
    split
    · next hd => exact Or.inr (takes_splitDigits sign hd)
    · exact Or.inl rfl
  unfold splitExponent
  split
  · next e rest =>
    split
    · dsimp only
      split
      · exact hsigned [e, '-'] _ _ _ rfl
      · exact hsigned [e, '+'] _ _ _ rfl
      · exact hsigned [e] _ _ _ rfl
    · exact Or.inl rfl
  · exact Or.inl rfl

theorem takes_lexNumber {s : List Char} (h : s.head?.any Char.isDigit = true) :
    Takes s (lexNumber s).2 := by
  have hrest : (lexNumber s).2 = (splitExponent (splitFraction (splitDigits s).2).2).2 := by
    unfold lexNumber
    dsimp only
    split
    · split <;> rfl
    · rfl
  rw [hrest]
  exact ((takes_splitDigits [] h).trans (splitFraction_takes _)).trans (splitExponent_takes _)

/-! ## Strings, symbols and names -/

theorem lexString_eq_some {quote : Char} {done s str rest : List Char}
    (h : lexString quote done s = some (str, rest)) : ∃ w, s = w ++ quote :: rest := by
  fun_induction lexString quote done s with
  | case1 => cases h
  | case2 => cases h
  | case3 done c cs ih =>
    obtain ⟨w, rfl⟩ := ih h
    exact ⟨'\\' :: c :: w, rfl⟩
  | case4 done c cs _ _ hc =>
    cases h
    exact ⟨[], by rw [beq_iff_eq.mp hc]; rfl⟩
  | case5 done c cs _ _ _ ih =>
    obtain ⟨w, rfl⟩ := ih h
    exact ⟨c :: w, rfl⟩

theorem lexSymbol_eq_some {s rest : List Char} {symbol : Symbol}
    (h : lexSymbol s = some (symbol, rest)) : Takes s rest := by
  have hspellings : Symbol.spellings.all fun entry =>
      !entry.1.isEmpty && entry.1.all fun c => !c.isAlpha := by decide
  obtain ⟨⟨spelling, symbol'⟩, hfound, heq⟩ := Option.map_eq_some_iff.mp h
  cases heq
  obtain ⟨hne, hopen⟩ : spelling ≠ [] ∧ ∀ c ∈ spelling, c.isAlpha = false := by
    simpa using List.all_eq_true.mp hspellings _ (List.mem_of_find?_eq_some hfound)
  have hprefix : spelling.isPrefixOf s = true := by simpa using List.find?_some hfound
  obtain ⟨rest, rfl⟩ := List.isPrefixOf_iff_prefix.mp hprefix
  exact ⟨spelling, by rw [List.drop_left], hne, .of_forall hopen⟩

theorem splitName_eq {s name rest : List Char} (h : splitName s = (name, rest))
    (hne : name ≠ []) : s = name ++ rest ∧ isName name = true ∧ OpenAfter rest := by
  have happend := splitName_append s
  rw [h] at happend
  refine ⟨happend.symm, ?_⟩
  cases s with
  | nil =>
    cases h
    exact absurd rfl hne
  | cons c cs =>
    rw [splitName] at h
    split at h
    · next hc =>
      cases h
      constructor
      · simp [isName, hc, List.all_takeWhile]
      · intro d hd
        have := List.head?_dropWhile_not isNameChar cs
        rw [Option.mem_def.mp hd] at this
        simpa using this
    · cases h
      exact absurd rfl hne

/-! ## Tokens -/

/-- The token as it stands in a text, between whatever comes before and the rest. -/
structure Lexeme (t : Token) (w rest : List Char) : Prop where
  ne_nil : w ≠ []
  closed : OpenBefore w ∨ OpenAfter rest
  var : ∀ n, t = .var n → isName n.toList = true ∧ w = '$' :: n.toList
  name : ∀ n, t = .name n → isName n.toList = true ∧ w = n.toList ∧ OpenAfter rest

theorem Lexeme.of_takes {t : Token} {s rest : List Char} (h : Takes s rest)
    (hvar : ∀ n, t ≠ .var n) (hname : ∀ n, t ≠ .name n) : ∃ w, s = w ++ rest ∧ Lexeme t w rest := by
  obtain ⟨w, hs, hne, hw⟩ := h
  exact ⟨w, hs, hne, Or.inl hw, fun n ht => absurd ht (hvar n), fun n ht => absurd ht (hname n)⟩

theorem lexNumber_token (s : List Char) :
    (∀ n, (lexNumber s).1 ≠ .var n) ∧ ∀ n, (lexNumber s).1 ≠ .name n := by
  unfold lexNumber
  dsimp only
  split
  · split
    · exact ⟨nofun, nofun⟩
    · exact ⟨nofun, nofun⟩
  · exact ⟨nofun, nofun⟩

theorem lexeme_of_lexToken {total : Nat} {c : Char} {cs rest : List Char} {t : Token}
    (h : lexToken total c cs = .ok (t, rest)) : ∃ w, c :: cs = w ++ rest ∧ Lexeme t w rest := by
  unfold lexToken at h
  split at h
  · next hdigit =>
    obtain ⟨hvar, hname⟩ := lexNumber_token (c :: cs)
    have htakes := takes_lexNumber (s := c :: cs) hdigit
    rw [Except.ok.inj h] at hvar hname htakes
    exact Lexeme.of_takes htakes hvar hname
  · split at h
    · next hquote =>
      split at h
      · next str rest' hstr =>
        cases h
        obtain ⟨w, rfl⟩ := lexString_eq_some hstr
        have hc : c.isAlpha = false := by
          rw [Bool.or_eq_true, beq_iff_eq, beq_iff_eq] at hquote
          rcases hquote with rfl | rfl <;> decide
        have hclosing : OpenBefore [c] := .of_forall (by simpa using hc)
        exact Lexeme.of_takes ⟨c :: w ++ [c], by simp, by simp,
          hclosing.append_left (List.cons_ne_nil _ _) (c :: w)⟩ nofun nofun
      · cases h
    · split at h
      · next hdollar =>
        rw [beq_iff_eq] at hdollar
        split at h
        · cases h
        · next name rest' hne hsplit =>
          cases h
          obtain ⟨rfl, hname, hafter⟩ := splitName_eq hsplit hne
          refine ⟨c :: name, rfl, List.cons_ne_nil _ _, Or.inr hafter, ?_, nofun⟩
          rintro n ⟨⟩
          rw [String.toList_ofList, hdollar]
          exact ⟨hname, rfl⟩
      · split at h
        · split at h
          · next hsymbol =>
            cases h
            exact Lexeme.of_takes (lexSymbol_eq_some hsymbol) nofun nofun
          · cases h
        · next name rest' hne hsplit =>
          cases h
          obtain ⟨hs, hname, hafter⟩ := splitName_eq hsplit hne
          refine ⟨name, hs, hne, Or.inr hafter, nofun, ?_⟩
          rintro n ⟨⟩
          rw [String.toList_ofList]
          exact ⟨hname, rfl, hafter⟩

/-! ## Names among the tokens -/

/-- The token can stand for the value of the name. -/
def Token.LooksUp (t : Token) (n : String) : Prop :=
  t = .var n ∨ t = .name n ∧ n ≠ "true"

/-- White space in front keeps apart what comes before and after it. -/
theorem boundary_trimStart {before s : List Char} (h : OpenBefore before ∨ OpenAfter s) :
    OpenBefore (before ++ s.takeWhile isBlank) ∨ OpenAfter (trimStart s) := by
  have hs : s.takeWhile isBlank ++ trimStart s = s := List.takeWhile_append_dropWhile
  cases hblanks : s.takeWhile isBlank with
  | nil =>
    rw [hblanks, List.nil_append] at hs
    rwa [List.append_nil, hs]
  | cons b blanks =>
    refine Or.inl (OpenBefore.append_left ?_ (List.cons_ne_nil _ _) before)
    rw [← hblanks]
    exact .of_isBlank (List.all_eq_true.mp List.all_takeWhile)

/-- The invariant is that at the start of a token no letter goes on as a word. -/
theorem mentioned_of_lexFrom {total fuel : Nat} {before s : List Char} {ts : List Token}
    (hb : OpenBefore before ∨ OpenAfter s) (h : lexFrom total fuel s = .ok ts) {t : Token}
    (ht : t ∈ ts) {n : String} (hn : t.LooksUp n) : Mentioned (before ++ s) n := by
  induction fuel generalizing before s ts with
  | zero =>
    cases h
    cases ht
  | succ fuel ih =>
    have hs : s.takeWhile isBlank ++ trimStart s = s := List.takeWhile_append_dropWhile
    have hb' := boundary_trimStart hb
    rw [← hs, ← List.append_assoc]
    generalize before ++ s.takeWhile isBlank = before at hb' ⊢
    rw [lexFrom] at h
    split at h
    · cases h
      cases ht
    · next c cs hstart =>
      rw [hstart] at hb' ⊢
      split at h
      · cases h
      · next t' rest htoken =>
        obtain ⟨w, heq, hlexeme⟩ := lexeme_of_lexToken htoken
        rw [heq] at hb' ⊢
        split at h
        · cases h
        · next ts' hrest =>
          cases h
          rcases List.mem_cons.mp ht with rfl | ht
          · rcases hn with rfl | ⟨rfl, hn⟩
            · obtain ⟨hname, rfl⟩ := hlexeme.var n rfl
              exact ⟨hname, Or.inl ⟨before, rest, List.append_assoc ..⟩⟩
            · obtain ⟨hname, rfl, hafter⟩ := hlexeme.name n rfl
              have hbefore : OpenBefore before := by
                refine hb'.resolve_right fun hopen => ?_
                obtain ⟨d, w, hw⟩ := List.exists_cons_of_ne_nil hlexeme.ne_nil
                have hd := isNameChar_of_mem hname (c := d) (by rw [hw]; simp)
                rw [hw] at hopen
                rw [hopen d rfl] at hd
                cases hd
              have hstands : StandsIn n.toList (before ++ (n.toList ++ rest)) :=
                ⟨before, rest, (List.append_assoc ..).symm, hbefore, hafter⟩
              exact ⟨hname, Or.inr ⟨hstands, hn⟩⟩
          · rw [← List.append_assoc]
            refine ih ?_ hrest ht
            exact hlexeme.closed.imp_left fun hw => hw.append_left hlexeme.ne_nil before

/-- The names that tokens can stand for are mentioned in the text. -/
theorem mentioned_of_lex {s : List Char} {ts : List Token} (h : lex s = .ok ts) {t : Token}
    (ht : t ∈ ts) {n : String} (hn : t.LooksUp n) : Mentioned s n := by
  have hstart : OpenBefore [] ∨ OpenAfter s := Or.inl .nil
  exact mentioned_of_lexFrom hstart h ht hn

end Stencil.Expr
