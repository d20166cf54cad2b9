import Stencil.Text.Blank
import Stencil.Text.Quoted

/-!
Texts that the scanners pass over in one piece.

A text is whole when none of the characters that would end a part stands outside its quoted runs and
when it closes all of these (`Whole`). The scanner for separators keeps such a text together
(`splitUnquotedFrom_append`) and the scanner for parentheses passes it without counting
(`splitParens_append`), whatever is inside the quotes. So texts that are written next to each other
with separators between them are split into the same texts again (`Led.splitUnquoted_append`,
`Joined.splitUnquoted_append`).

The other way round, the scanner for separators gives texts that are not empty, of which all but the
last are whole (`parts_splitUnquoted`); one separator between any two of them, and they are split
into the same texts again (`Parts.splitUnquoted_intercalate`).
-/

namespace Stencil

/-! ## Quotes -/

theorem eq_of_isQuote {q : Char} (h : isQuote q = true) : q = '"' ∨ q = '\'' := by
  rwa [isQuote, Bool.or_eq_true, beq_iff_eq, beq_iff_eq] at h

theorem isBlank_of_isQuote {q : Char} (h : isQuote q = true) : isBlank q = false := by
  rcases eq_of_isQuote h with rfl | rfl <;> decide

/-! ## Whole texts -/

/-- No character with the property is outside the quoted runs, and no run is open at the end;
`quote` is the one that is open in front. -/
def Whole (p : Char → Bool) : Option Char → List Char → Prop
  | quote, [] => quote = none
  | quote, c :: cs =>
    (quote = none → isQuote c = false → p c = false) ∧ Whole p (quoteAfter quote c) cs

variable {p isSep : Char → Bool}

theorem Whole.append {quote : Option Char} {s t : List Char} (hs : Whole p quote s)
    (ht : Whole p none t) : Whole p quote (s ++ t) := by
  induction s generalizing quote with
  | nil =>
    cases hs
    exact ht
  | cons c s ih => exact ⟨hs.1, ih hs.2⟩

theorem whole_of_forall {s : List Char} (h : ∀ c ∈ s, isQuote c = false ∧ p c = false) :
    Whole p none s := by
  induction s with
  | nil => rfl
  | cons c s ih =>
    obtain ⟨⟨hquote, hp⟩, hs⟩ := List.forall_mem_cons.mp h
    refine ⟨fun _ _ => hp, ?_⟩
    rw [quoteAfter, hquote]
    exact ih hs

/-- A run ends at the next quote of its kind. -/
theorem whole_run (p : Char → Bool) {q : Char} {s : List Char} (h : q ∉ s) :
    Whole p (some q) (s ++ [q]) := by
  induction s with
  | nil => exact ⟨nofun, by simp [quoteAfter, Whole]⟩
  | cons c s ih =>
    rw [List.mem_cons, not_or] at h
    refine ⟨nofun, ?_⟩
    rw [quoteAfter, if_neg (by simpa using Ne.symm h.1)]
    exact ih h.2

theorem whole_quoted (p : Char → Bool) {q : Char} (hq : isQuote q = true) {s : List Char}
    (h : q ∉ s) : Whole p none (q :: (s ++ [q])) := by
  refine ⟨fun _ hquote => absurd hq (by rw [hquote]; decide), ?_⟩
  rw [quoteAfter, if_pos hq]
  exact whole_run p h

/-! ## The scanners -/

/-- A whole text is passed as a piece of the present part. -/
theorem splitUnquotedFrom_append {quote : Option Char} {w : List Char} (h : Whole isSep quote w)
    (part s : List Char) :
    splitUnquotedFrom isSep quote part (w ++ s) =
      splitUnquotedFrom isSep none (w.reverse ++ part) s := by
  induction w generalizing quote part with
  | nil =>
    cases h
    rfl
  | cons c w ih =>
    have hstay : (quote.isNone && !isQuote c && isSep c) = false := by
      cases quote with
      | some q => rfl
      | none =>
        cases hquote : isQuote c with
        | true => rfl
        | false => exact h.1 rfl hquote
    rw [List.cons_append, splitUnquotedFrom, if_neg (by rw [hstay]; decide), ih h.2]
    simp

/-- Parentheses in quotes do not count. -/
theorem splitParensFrom_append {quote : Option Char} {w : List Char}
    (h : Whole (fun c => c == '(' || c == ')') quote w) (depth : Nat) (inside s : List Char) :
    splitParensFrom quote depth inside (w ++ s) =
      splitParensFrom none depth (w.reverse ++ inside) s := by
  induction w generalizing quote inside with
  | nil =>
    cases h
    rfl
  | cons c w ih =>
    have hnext : splitParensFrom quote depth inside (c :: (w ++ s)) =
        splitParensFrom (quoteAfter quote c) depth (c :: inside) (w ++ s) := by
      cases quote with
      | some q => rfl
      | none =>
        have hc : (c == '(' || c == ')') = false := by
          cases hquote : isQuote c with
          | false => exact h.1 rfl hquote
          | true =>
            rcases eq_of_isQuote hquote with rfl | rfl <;> rfl
        rw [Bool.or_eq_false_iff] at hc
        simp only [splitParensFrom, hc.1, hc.2, Bool.false_eq_true, if_false]
    rw [List.cons_append, hnext, ih h.2]
    simp

theorem splitParens_append {inside : List Char}
    (h : Whole (fun c => c == '(' || c == ')') none inside) (rest : List Char) :
    splitParens (inside ++ ')' :: rest) = some (inside, rest) := by
  rw [splitParens, splitParensFrom_append h]
  simp [splitParensFrom]

/-! ## Texts with separators between them -/

/-- The texts one after the other, each behind one or more separators. -/
inductive Led (isSep : Char → Bool) : List (List Char) → List Char → Prop
  | nil : Led isSep [] []
  | cons {gap w s : List Char} {ws : List (List Char)} : gap ≠ [] → (∀ c ∈ gap, isSep c = true) →
      Led isSep ws s → Led isSep (w :: ws) (gap ++ (w ++ s))

/-- The texts one after the other, with one or more separators between neighbours. -/
inductive Joined (isSep : Char → Bool) : List (List Char) → List Char → Prop
  | nil : Joined isSep [] []
  | cons {w s : List Char} {ws : List (List Char)} : Led isSep ws s →
      Joined isSep (w :: ws) (w ++ s)

theorem Led.whole {ws : List (List Char)} {s : List Char} (h : Led isSep ws s)
    (hsep : ∀ c, isSep c = true → isQuote c = false ∧ p c = false)
    (hws : ∀ w ∈ ws, Whole p none w) : Whole p none s := by
  induction h with
  | nil => rfl
  | cons _ hgap _ ih =>
    obtain ⟨hw, hws⟩ := List.forall_mem_cons.mp hws
    exact (whole_of_forall fun c hc => hsep c (hgap c hc)).append (hw.append (ih hws))

theorem Joined.whole {ws : List (List Char)} {s : List Char} (h : Joined isSep ws s)
    (hsep : ∀ c, isSep c = true → isQuote c = false ∧ p c = false)
    (hws : ∀ w ∈ ws, Whole p none w) : Whole p none s := by
  cases h with
  | nil => rfl
  | cons hled =>
    obtain ⟨hw, hws⟩ := List.forall_mem_cons.mp hws
    exact hw.append (hled.whole hsep hws)

/-- The text ends here: nothing follows, or a separator. -/
def AtSeparator (isSep : Char → Bool) (s : List Char) : Prop := ∀ c ∈ s.head?, isSep c = true

theorem Led.atSeparator {ws : List (List Char)} {s after : List Char} (h : Led isSep ws s)
    (hafter : AtSeparator isSep after) : AtSeparator isSep (s ++ after) := by
  cases h with
  | nil => exact hafter
  | @cons gap w s ws hne hgap _ =>
    cases gap with
    | nil => exact absurd rfl hne
    | cons c gap =>
      intro d hd
      cases hd
      exact hgap c List.mem_cons_self

section Splitting

variable (hsep : ∀ c, isSep c = true → isQuote c = false)
include hsep

theorem splitUnquotedFrom_of_isSep {c : Char} (hc : isSep c = true) (part s : List Char) :
    splitUnquotedFrom isSep none part (c :: s) =
      if part.isEmpty then splitUnquoted isSep s else part.reverse :: splitUnquoted isSep s := by
  have hcut : ((none : Option Char).isNone && !isQuote c && isSep c) = true := by
    rw [hsep c hc, hc]
    rfl
  rw [splitUnquotedFrom, if_pos hcut, splitUnquoted]

theorem splitUnquoted_of_isSep {c : Char} (hc : isSep c = true) (s : List Char) :
    splitUnquoted isSep (c :: s) = splitUnquoted isSep s :=
  splitUnquotedFrom_of_isSep hsep hc [] s

theorem splitUnquoted_gap {gap : List Char} (hgap : ∀ c ∈ gap, isSep c = true) (s : List Char) :
    splitUnquoted isSep (gap ++ s) = splitUnquoted isSep s := by
  induction gap with
  | nil => rfl
  | cons c gap ih =>
    obtain ⟨hc, hgap⟩ := List.forall_mem_cons.mp hgap
    rw [List.cons_append, splitUnquoted_of_isSep hsep hc, ih hgap]

/-- A whole text in front of a separator is one part. -/
theorem splitUnquoted_word {w s : List Char} (hne : w ≠ []) (hw : Whole isSep none w)
    (hs : AtSeparator isSep s) : splitUnquoted isSep (w ++ s) = w :: splitUnquoted isSep s := by
  have hword : splitUnquoted isSep (w ++ s) = splitUnquotedFrom isSep none (w.reverse ++ []) s :=
    splitUnquotedFrom_append hw [] s
  cases s with
  | nil =>
    rw [hword]
    simp [splitUnquotedFrom, splitUnquoted, hne]
  | cons c s =>
    have hc : isSep c = true := hs c rfl
    rw [hword, splitUnquotedFrom_of_isSep hsep hc, splitUnquoted_of_isSep hsep hc,
      if_neg (by simpa using hne)]
    simp

theorem Led.splitUnquoted_append {ws : List (List Char)} {s : List Char} (h : Led isSep ws s)
    (hws : ∀ w ∈ ws, w ≠ [] ∧ Whole isSep none w) {after : List Char}
    (hafter : AtSeparator isSep after) :
    splitUnquoted isSep (s ++ after) = ws ++ splitUnquoted isSep after := by
  induction h with
  | nil => rfl
  | cons _ hgap hled ih =>
    obtain ⟨⟨hne, hw⟩, hws⟩ := List.forall_mem_cons.mp hws
    rw [List.append_assoc, List.append_assoc, splitUnquoted_gap hsep hgap,
      splitUnquoted_word hsep hne hw (hled.atSeparator hafter), ih hws, List.cons_append]

/-- What is joined is split into the same texts. -/
theorem Joined.splitUnquoted_append {ws : List (List Char)} {s : List Char}
    (h : Joined isSep ws s) (hws : ∀ w ∈ ws, w ≠ [] ∧ Whole isSep none w) {after : List Char}
    (hafter : AtSeparator isSep after) :
    splitUnquoted isSep (s ++ after) = ws ++ splitUnquoted isSep after := by
  cases h with
  | nil => rfl
  | cons hled =>
    obtain ⟨⟨hne, hw⟩, hws⟩ := List.forall_mem_cons.mp hws
    rw [List.append_assoc, splitUnquoted_word hsep hne hw (hled.atSeparator hafter),
      hled.splitUnquoted_append hsep hws hafter, List.cons_append]

end Splitting

/-! ## Parts -/

/-- No character with the property is outside the quoted runs; the last run may be open. -/
def Tight (p : Char → Bool) : Option Char → List Char → Prop
  | _, [] => True
  | quote, c :: cs =>
    (quote = none → isQuote c = false → p c = false) ∧ Tight p (quoteAfter quote c) cs

theorem Tight.concat {quote : Option Char} {s : List Char} {c : Char} (hs : Tight p quote s)
    (hc : s.foldl quoteAfter quote = none → isQuote c = false → p c = false) :
    Tight p quote (s ++ [c]) := by
  induction s generalizing quote with
  | nil => exact ⟨hc, trivial⟩
  | cons d s ih => exact ⟨hs.1, ih hs.2 hc⟩

theorem Tight.whole {quote : Option Char} {s : List Char} (hs : Tight p quote s)
    (hclosed : s.foldl quoteAfter quote = none) : Whole p quote s := by
  induction s generalizing quote with
  | nil => exact hclosed
  | cons c s ih => exact ⟨hs.1, ih hs.2 hclosed⟩

theorem Whole.tight {quote : Option Char} {s : List Char} (hs : Whole p quote s) :
    Tight p quote s := by
  induction s generalizing quote with
  | nil => trivial
  | cons c s ih => exact ⟨hs.1, ih hs.2⟩

/-- The parts that a text is split into: none is empty, and only the last may have an open run. -/
inductive Parts (isSep : Char → Bool) : List (List Char) → Prop
  | nil : Parts isSep []
  | last {w : List Char} : w ≠ [] → Tight isSep none w → Parts isSep [w]
  | cons {w : List Char} {ws : List (List Char)} : w ≠ [] → Whole isSep none w → Parts isSep ws →
      Parts isSep (w :: ws)

/-- The invariant is that the present part is tight and the quote that is open is the one it leaves
open. -/
theorem parts_splitUnquotedFrom {part : List Char} (hpart : Tight isSep none part.reverse)
    (s : List Char) :
    Parts isSep (splitUnquotedFrom isSep (part.reverse.foldl quoteAfter none) part s) := by
  induction s generalizing part with
  | nil =>
    rw [splitUnquotedFrom]
    split
    · exact .nil
    · next hne => exact .last (by simpa using hne) hpart
  | cons c s ih =>
    rw [splitUnquotedFrom]
    split
    · next hcut =>
      simp only [Bool.and_eq_true, Option.isNone_iff_eq_none] at hcut
      have hrest : Parts isSep (splitUnquotedFrom isSep none [] s) := @ih [] trivial
      split
      · exact hrest
      · next hne => exact .cons (by simpa using hne) (hpart.whole hcut.1.1) hrest
    · next hstay =>
      have hnext : Tight isSep none (c :: part).reverse := by
        rw [List.reverse_cons]
        refine hpart.concat fun hnone hquote => ?_
        simpa [hnone, hquote] using hstay
      have hstate : quoteAfter (part.reverse.foldl quoteAfter none) c =
          (c :: part).reverse.foldl quoteAfter none := by simp
      rw [hstate]
      exact ih hnext

theorem parts_splitUnquoted (isSep : Char → Bool) (s : List Char) :
    Parts isSep (splitUnquoted isSep s) :=
  @parts_splitUnquotedFrom isSep [] trivial s

theorem Parts.of_suffix {ws ws' : List (List Char)} (h : Parts isSep ws) (hws : ws' <:+ ws) :
    Parts isSep ws' := by
  induction h with
  | nil =>
    rw [List.suffix_nil.mp hws]
    exact .nil
  | last hne hw =>
    rcases List.suffix_cons_iff.mp hws with rfl | hws
    · exact .last hne hw
    · rw [List.suffix_nil.mp hws]
      exact .nil
  | cons hne hw hrest ih =>
    rcases List.suffix_cons_iff.mp hws with rfl | hws
    · exact .cons hne hw hrest
    · exact ih hws

theorem Parts.ne_nil {ws : List (List Char)} (h : Parts isSep ws) : ∀ w ∈ ws, w ≠ [] := by
  induction h with
  | nil => exact nofun
  | last hne => exact List.forall_mem_singleton.mpr hne
  | cons hne _ _ ih => exact List.forall_mem_cons.mpr ⟨hne, ih⟩

theorem Parts.tight {ws : List (List Char)} (h : Parts isSep ws) :
    ∀ w ∈ ws, Tight isSep none w := by
  induction h with
  | nil => exact nofun
  | last _ hw => exact List.forall_mem_singleton.mpr hw
  | cons _ hw _ ih => exact List.forall_mem_cons.mpr ⟨hw.tight, ih⟩

/-- A tight text is all of the present part. -/
theorem splitUnquotedFrom_of_tight {quote : Option Char} {w : List Char}
    (h : Tight isSep quote w) (part : List Char) (hne : w ≠ [] ∨ part ≠ []) :
    splitUnquotedFrom isSep quote part w = [part.reverse ++ w] := by
  induction w generalizing quote part with
  | nil =>
    have hpart : part ≠ [] := hne.resolve_left fun h => h rfl
    simp [splitUnquotedFrom, hpart]
  | cons c w ih =>
    have hstay : ¬ (quote.isNone && !isQuote c && isSep c) = true := by
      intro hcut
      simp only [Bool.and_eq_true, Bool.not_eq_true', Option.isNone_iff_eq_none] at hcut
      rw [h.1 hcut.1.1 hcut.1.2] at hcut
      cases hcut.2
    rw [splitUnquotedFrom, if_neg hstay, ih h.2 (c :: part) (Or.inr (List.cons_ne_nil c part))]
    simp

/-- With one separator between them, parts are split into the same parts again. -/
theorem Parts.splitUnquoted_intercalate (hsep : ∀ c, isSep c = true → isQuote c = false)
    {ws : List (List Char)} (h : Parts isSep ws) {sep : Char} (hc : isSep sep = true) :
    splitUnquoted isSep ([sep].intercalate ws) = ws := by
  induction h with
  | nil => rfl
  | @last w hne hw =>
    have hone := splitUnquotedFrom_of_tight hw [] (Or.inl hne)
    simpa [List.intercalate, splitUnquoted] using hone
  | @cons w ws hne hw _ ih =>
    cases ws with
    | nil =>
      have hone := splitUnquotedFrom_of_tight hw.tight [] (Or.inl hne)
      simpa [List.intercalate, splitUnquoted] using hone
    | cons w' ws =>
      have hjoin : [sep].intercalate (w :: w' :: ws) =
          w ++ sep :: [sep].intercalate (w' :: ws) := by simp [List.intercalate]
      have hat : AtSeparator isSep (sep :: [sep].intercalate (w' :: ws)) := by
        intro c hhead
        cases hhead
        exact hc
      rw [hjoin, splitUnquoted_word hsep hne hw hat, splitUnquoted_of_isSep hsep hc, ih]

/-- A part starts with no separator. -/
theorem Tight.head_not_isSep (hsep : ∀ c, isSep c = true → isQuote c = false) {w : List Char}
    (h : Tight isSep none w) : ∀ c ∈ w.head?, isSep c = false := by
  cases w with
  | nil => exact nofun
  | cons c w =>
    rintro d ⟨⟩
    cases hc : isSep c with
    | false => rfl
    | true => exact hc.symm.trans (h.1 rfl (hsep c hc))

/-- The last part ends where the text does, unless this is with a separator. -/
theorem getLast?_splitUnquotedFrom {quote : Option Char} {part s : List Char} {c : Char}
    (hlast : (part.reverse ++ s).getLast? = some c) (hc : isSep c = false) :
    (splitUnquotedFrom isSep quote part s).getLast?.bind List.getLast? = some c := by
  induction s generalizing quote part with
  | nil =>
    have hne : part ≠ [] := by
      rintro rfl
      cases hlast
    rw [List.append_nil] at hlast
    simpa [splitUnquotedFrom, hne] using hlast
  | cons d s ih =>
    rw [splitUnquotedFrom]
    split
    · next hcut =>
      have hd : isSep d = true := (Bool.and_eq_true_iff.mp hcut).2
      have hs : s.getLast? = some c := by
        cases s with
        | nil =>
          rw [List.getLast?_concat] at hlast
          cases hlast
          rw [hd] at hc
          cases hc
        | cons e s => simpa [List.getLast?_append, List.getLast?_cons_cons] using hlast
      have hrest := @ih none [] hs
      split
      · exact hrest
      · cases hws : splitUnquotedFrom isSep none [] s with
        | nil =>
          rw [hws] at hrest
          cases hrest
        | cons w ws =>
          rw [hws] at hrest
          rwa [List.getLast?_cons_cons]
    · exact ih (by simpa using hlast)

end Stencil
