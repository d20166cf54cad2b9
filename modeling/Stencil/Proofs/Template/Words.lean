import Stencil.Proofs.Template.WellFormed

/-!
The words of a line.

A text is cut at the separators outside its quoted runs. Which characters these are is said by marking
the quoted runs (`Marked`): a run starts at a quote outside any run and ends at the next equal quote,
or at the end of the text. The parts are slices of the marked text, one after the other, with nothing
but cut characters around them and at least one between neighbours (`Slices`), so that a part is
marked alone as it is in the text, and all parts together are the text without the cut characters.
Main statement: `splitUnquoted_loses_nothing`.
-/

namespace Stencil

/-! ## Quoted runs -/

/-- The text, and with each of its characters whether it is in a quoted run. -/
inductive Marked : List Char → List (Char × Bool) → Prop
  | nil : Marked [] []
  | plain {c : Char} {s : List Char} {m : List (Char × Bool)} : isQuote c = false → Marked s m →
      Marked (c :: s) ((c, false) :: m)
  | run {q : Char} {inside s : List Char} {m : List (Char × Bool)} : isQuote q = true →
      q ∉ inside → Marked s m →
      Marked (q :: (inside ++ q :: s)) ((q :: (inside ++ [q])).map (·, true) ++ m)
  | unended {q : Char} {inside : List Char} : isQuote q = true → q ∉ inside →
      Marked (q :: inside) ((q :: inside).map (·, true))

/-- Marks the text behind a place where `quote` is open. -/
def marksFrom : Option Char → List Char → List (Char × Bool)
  | _, [] => []
  | quote, c :: cs => (c, quote.isSome || isQuote c) :: marksFrom (quoteAfter quote c) cs

def marks (s : List Char) : List (Char × Bool) := marksFrom none s

theorem map_fst_marksFrom (quote : Option Char) (s : List Char) :
    (marksFrom quote s).map Prod.fst = s := by
  induction s generalizing quote with
  | nil => rfl
  | cons c s ih => rw [marksFrom, List.map_cons, ih]

theorem marks_ne_nil {s : List Char} (h : s ≠ []) : marks s ≠ [] := by
  obtain ⟨c, s, rfl⟩ := List.exists_cons_of_ne_nil h
  nofun

theorem marksFrom_append (quote : Option Char) (s t : List Char) :
    marksFrom quote (s ++ t) = marksFrom quote s ++ marksFrom (s.foldl quoteAfter quote) t := by
  induction s generalizing quote with
  | nil => rfl
  | cons c s ih => rw [List.cons_append, marksFrom, marksFrom, ih, List.foldl_cons, List.cons_append]

theorem marks_plain {c : Char} (hc : isQuote c = false) (s : List Char) :
    marks (c :: s) = (c, false) :: marks s := by
  simp [marks, marksFrom, quoteAfter, hc]

theorem marks_quote {q : Char} (hq : isQuote q = true) (s : List Char) :
    marks (q :: s) = (q, true) :: marksFrom (some q) s := by
  simp [marks, marksFrom, quoteAfter, hq]

theorem marksFrom_inside {q : Char} {inside : List Char} (h : q ∉ inside) (s : List Char) :
    marksFrom (some q) (inside ++ s) = inside.map (·, true) ++ marksFrom (some q) s := by
  induction inside with
  | nil => rfl
  | cons c inside ih =>
    rw [List.mem_cons, not_or] at h
    have hstay : quoteAfter (some q) c = some q := if_neg (by simpa using Ne.symm h.1)
    rw [List.cons_append, marksFrom, hstay, ih h.2]
    rfl

theorem marks_unended {q : Char} {inside : List Char} (hq : isQuote q = true) (h : q ∉ inside) :
    marks (q :: inside) = (q :: inside).map (·, true) := by
  have hinside := marksFrom_inside h []
  rw [List.append_nil] at hinside
  simp [marks_quote hq, hinside, marksFrom]

theorem marks_run {q : Char} {inside : List Char} (hq : isQuote q = true) (h : q ∉ inside)
    (s : List Char) :
    marks (q :: (inside ++ q :: s)) = (q :: (inside ++ [q])).map (·, true) ++ marks s := by
  rw [marks_quote hq, marksFrom_inside h]
  simp [marks, marksFrom, quoteAfter]

theorem marked_marks (s : List Char) : Marked s (marks s) := by
  induction hn : s.length using Nat.strongRecOn generalizing s with
  | _ n ih =>
    cases s with
    | nil => exact .nil
    | cons c s =>
      rw [List.length_cons] at hn
      cases hc : isQuote c with
      | false =>
        rw [marks_plain hc]
        exact .plain hc (ih s.length (by omega) s rfl)
      | true =>
        by_cases hmem : c ∈ s
        · obtain ⟨inside, rest, rfl, hinside⟩ := List.eq_append_cons_of_mem hmem
          rw [List.length_append, List.length_cons] at hn
          rw [marks_run hc hinside]
          exact .run hc hinside (ih rest.length (by omega) rest rfl)
        · rw [marks_unended hc hmem]
          exact .unended hc hmem

theorem marked_iff {s : List Char} {m : List (Char × Bool)} : Marked s m ↔ m = marks s := by
  constructor
  · intro h
    induction h with
    | nil => rfl
    | plain hc _ ih => rw [marks_plain hc, ih]
    | run hq hinside _ ih => rw [marks_run hq hinside, ih]
    | unended hq hinside => rw [marks_unended hq hinside]
  · rintro rfl
    exact marked_marks s

/-! ## Slices -/

/-- The slices one after the other in the text: none is empty or has a cut in it, around them is
nothing but cuts, and between neighbours is at least one. -/
inductive Slices {α : Type} (cut : α → Bool) : List (List α) → List α → Prop
  | nil {gap : List α} : (∀ x ∈ gap, cut x = true) → Slices cut [] gap
  | cons {gap w rest : List α} {ws : List (List α)} : (∀ x ∈ gap, cut x = true) → w ≠ [] →
      (∀ x ∈ w, cut x = false) → (ws ≠ [] → rest.head?.any cut = true) → Slices cut ws rest →
      Slices cut (w :: ws) (gap ++ (w ++ rest))

section

variable {α : Type} {cut : α → Bool} {ws : List (List α)} {m : List α}

theorem Slices.cut_cons {x : α} (h : Slices cut ws m) (hx : cut x = true) :
    Slices cut ws (x :: m) := by
  cases h with
  | nil hgap => exact .nil (List.forall_mem_cons.mpr ⟨hx, hgap⟩)
  | cons hgap hne hw hapart hrest =>
    exact .cons (List.forall_mem_cons.mpr ⟨hx, hgap⟩) hne hw hapart hrest

theorem filter_eq_nil_of_cut {gap : List α} (h : ∀ x ∈ gap, cut x = true) :
    gap.filter (fun x => !cut x) = [] :=
  List.filter_eq_nil_iff.mpr fun x hx => by rw [h x hx]; decide

/-- All slices together are the text without its cuts. -/
theorem Slices.flatten_eq (h : Slices cut ws m) : ws.flatten = m.filter fun x => !cut x := by
  induction h with
  | nil hgap => rw [filter_eq_nil_of_cut hgap, List.flatten_nil]
  | @cons _ w _ _ hgap _ hw _ _ ih =>
    have hkept : w.filter (fun x => !cut x) = w :=
      List.filter_eq_self.mpr fun x hx => by rw [hw x hx]; rfl
    rw [List.flatten_cons, ih, List.filter_append, List.filter_append, filter_eq_nil_of_cut hgap,
      hkept, List.nil_append]

end

/-- A separator outside quoted runs. -/
def isCut (isSep : Char → Bool) (x : Char × Bool) : Bool := !x.2 && isSep x.1

/-- The invariant is that the present part, marked alone, has no cut in it, and that the quote which
is open is the one it leaves open. -/
theorem slices_splitUnquotedFrom {isSep : Char → Bool} {part : List Char}
    (hpart : ∀ x ∈ marks part.reverse, isCut isSep x = false) (s : List Char) :
    Slices (isCut isSep)
      ((splitUnquotedFrom isSep (part.reverse.foldl quoteAfter none) part s).map marks)
      (marks part.reverse ++ marksFrom (part.reverse.foldl quoteAfter none) s) := by
  have hnothing : ∀ x ∈ [], isCut isSep x = true := List.forall_mem_nil _
  induction s generalizing part with
  | nil =>
    rw [splitUnquotedFrom]
    split
    · next hempty =>
      rw [List.isEmpty_iff.mp hempty]
      exact .nil hnothing
    · next hempty =>
      have hne := marks_ne_nil (by simpa using hempty : part.reverse ≠ [])
      exact .cons hnothing hne hpart (absurd rfl) (.nil hnothing)
  | cons c s ih =>
    rw [splitUnquotedFrom, marksFrom]
    split
    · next hcut =>
      simp only [Bool.and_eq_true, Bool.not_eq_true', Option.isNone_iff_eq_none] at hcut
      obtain ⟨⟨hnone, hquote⟩, hsep⟩ := hcut
      have hrest : Slices (isCut isSep) ((splitUnquotedFrom isSep none [] s).map marks)
          (marksFrom none s) := @ih [] (List.forall_mem_nil _)
      have hc : isCut isSep (c, (none : Option Char).isSome || isQuote c) = true := by
        simp [isCut, hquote, hsep]
      have hafter : quoteAfter none c = none := by simp [quoteAfter, hquote]
      rw [hnone, hafter]
      split
      · next hempty =>
        rw [List.isEmpty_iff.mp hempty]
        exact hrest.cut_cons hc
      · next hempty =>
        have hne := marks_ne_nil (by simpa using hempty : part.reverse ≠ [])
        exact .cons hnothing hne hpart (fun _ => hc) (hrest.cut_cons hc)
    · next hstay =>
      -- the character goes to the present part, as it is marked there
      have hmarks : marks (c :: part).reverse = marks part.reverse ++
          [(c, (part.reverse.foldl quoteAfter none).isSome || isQuote c)] := by
        rw [List.reverse_cons, marks, marksFrom_append]
        rfl
      have hstate : quoteAfter (part.reverse.foldl quoteAfter none) c =
          (c :: part).reverse.foldl quoteAfter none := by simp
      have hnext : ∀ x ∈ marks (c :: part).reverse, isCut isSep x = false := by
        rw [hmarks, List.forall_mem_append, List.forall_mem_singleton]
        refine ⟨hpart, ?_⟩
        rw [isCut]
        cases hopen : part.reverse.foldl quoteAfter none with
        | some q => rfl
        | none => simpa [hopen] using hstay
      have hall := ih hnext
      rwa [hmarks, List.append_assoc, List.singleton_append, ← hstate] at hall

theorem slices_splitUnquoted (isSep : Char → Bool) (s : List Char) :
    Slices (isCut isSep) ((splitUnquoted isSep s).map marks) (marks s) :=
  @slices_splitUnquotedFrom isSep [] (List.forall_mem_nil _) s

/-- The characters of the parts, in order, are those that are not cut. -/
theorem flatten_splitUnquoted (isSep : Char → Bool) (s : List Char) :
    (splitUnquoted isSep s).flatten =
      ((marks s).filter fun x => !isCut isSep x).map Prod.fst := by
  have hmap : ((splitUnquoted isSep s).map marks).map (List.map Prod.fst) =
      splitUnquoted isSep s := by
    rw [List.map_map]
    exact List.map_id'' (fun w => map_fst_marksFrom none w) _
  rw [← (slices_splitUnquoted isSep s).flatten_eq, List.map_flatten, hmap]

/-! ## One space between words -/

/-- The words of a line with one space between them. -/
def spaced (s : List Char) : List Char := [' '].intercalate (words s)

/-- The text of a tag has one space between its words. -/
theorem Tag.spaced_text {line : List Char} {t : Tag} {text : String} (h : ofLine? line = some t)
    (htext : t.text = some text) : spaced text.toList = text.toList := by
  obtain ⟨s, ws, heq, _, hws, _⟩ := exists_words_of_text h htext
  rw [heq, spaced, words_intercalate hws]

/-- **Cutting into words loses nothing.** Let the separators be any set of characters. A text has its
quoted runs marked in one way, and the parts it is split into are slices of the marked text: none is
empty, they stand one after the other, around them is nothing but separators outside quoted runs,
between neighbours is at least one, and inside a part is none. So all parts together are the text
without these separators. With one space between them, the words of a line are the words of this new
line, so that writing it so twice is the same as once, and the text of a tag is already written
so. -/
theorem splitUnquoted_loses_nothing (isSep : Char → Bool) (s : List Char) :
    (∀ m, Marked s m ↔ m = marks s) ∧ (marks s).map Prod.fst = s ∧
    Slices (isCut isSep) ((splitUnquoted isSep s).map marks) (marks s) ∧
    (splitUnquoted isSep s).flatten = ((marks s).filter fun x => !isCut isSep x).map Prod.fst ∧
    words (spaced s) = words s ∧ spaced (spaced s) = spaced s ∧
    ∀ line t text, Tag.ofLine? line = some t → t.text = some text →
      spaced text.toList = text.toList := by
  have hwords : words (spaced s) = words s := Tag.words_intercalate (List.suffix_refl _)
  refine ⟨fun _ => marked_iff, map_fst_marksFrom none s, slices_splitUnquoted isSep s,
    flatten_splitUnquoted isSep s, hwords, ?_, fun _ _ _ => Tag.spaced_text⟩
  rw [spaced, hwords, spaced]

/-- A run that starts inside a word, and one that is open at the end. -/
theorem splitUnquoted_loses_nothing_open :
    let line := "p say a'b  c'd  \"open  end".toList
    let text := "say a'b  c'd \"open  end"
    (∃ t, Tag.ofLine? line = some t ∧ t.text = some text ∧ spaced text.toList = text.toList) ∧
    words line = ["p".toList, "say".toList, "a'b  c'd".toList, "\"open  end".toList] ∧
    words (spaced line) = words line := by
  intro line text
  obtain ⟨t, ht, htext⟩ : ∃ t, Tag.ofLine? line = some t ∧ t.text = some text := ⟨_, rfl, rfl⟩
  obtain ⟨_, _, _, _, hwords, _, hspaced⟩ := splitUnquoted_loses_nothing (· == ' ') line
  exact ⟨⟨t, ht, htext, hspaced line t text ht htext⟩, rfl, hwords⟩

end Stencil
