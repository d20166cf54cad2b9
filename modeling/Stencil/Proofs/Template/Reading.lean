import Stencil.Proofs.Expr.Names
import Stencil.Proofs.Template.Tag
import Stencil.Proofs.Text.Quoted
import Stencil.Template.LoopHeader
import Stencil.Template.Marker

/-!
What the parts of a line read.

Expressions stand in a line as they are, with two exceptions. The text of a tag is its words put
together again, with a space between them that no name goes across. The value of an attribute may be
joined from several, or be the word `true`, which no line needs to have: where such a value is an
expression it does not mention that word (`Given.nameIn_of_mentioned`), and where it is a quoted
text, whose markers may look it up, the word was never put in (`Given.nameIn_of_isQuoted`).
-/

namespace Stencil

/-! ## Markers -/

theorem interpolate_congr (escaping : Escaping) {s : List Char} {c d : Context}
    (h : c.AgreeOn (NameIn s) d) : interpolate escaping s c = interpolate escaping s d := by
  have hpieces : ∀ piece ∈ markerPieces s, piece.text escaping c = piece.text escaping d := by
    intro piece hpiece
    cases piece with
    | literal ch => rfl
    | marker raw expr =>
      have hexpr : expr <:+: s := by
        refine List.IsInfix.trans ?_ (infix_of_mem_markerPieces hpiece)
        exact ⟨markerText raw [], ['\x7d'], by simp [markerText]⟩
      simp only [Piece.text, Expr.evaluate_congr (h.mono fun n hn => hn.mono hexpr)]
  unfold interpolate
  rw [List.flatMap_def, List.flatMap_def, List.map_congr_left hpieces]

/-! ## Values of attributes -/

theorem isQuoted_eq_true {s : List Char} (h : isQuoted s = true) :
    ∃ q, isQuote q = true ∧ s = q :: (unquote s ++ [q]) := by
  have hunquote : unquote s = s.tail.dropLast := if_pos h
  rw [hunquote]
  unfold isQuoted at h
  split at h
  · next q c cs =>
    rw [Bool.and_eq_true, beq_iff_eq] at h
    have hne : c :: cs ≠ [] := List.cons_ne_nil c cs
    have hlast : (c :: cs).getLast hne = q :=
      Option.some.inj ((List.getLast?_eq_some_getLast hne).symm.trans h.2)
    have hsplit := List.dropLast_concat_getLast hne
    rw [hlast] at hsplit
    exact ⟨q, h.1, congrArg (q :: ·) hsplit.symm⟩
  · cases h

theorem isNameChar_of_isQuote {q : Char} (h : isQuote q = true) : isNameChar q = false := by
  rcases eq_of_isQuote h with rfl | rfl <;> decide

theorem nameIn_of_quoted {q : Char} (hq : isQuote q = true) {s : List Char} {n : String}
    (h : NameIn (q :: (s ++ [q])) n) : NameIn s n := by
  have hchar := isNameChar_of_isQuote hq
  have hopened : NameIn ([] ++ q :: (s ++ q :: [])) n := h
  have hclosed := (hopened.append_cons hchar).resolve_left (not_nameIn_nil n)
  exact (hclosed.append_cons hchar).resolve_right (not_nameIn_nil n)

/-- What starts with a parenthesis is not quoted, also without the white space around it. -/
theorem not_isQuoted_parens (s : List Char) :
    ¬ (isQuoted ('(' :: s) = true ∨ isQuoted (trim ('(' :: s)) = true) := by
  have hfirst : ∀ t, t <+: '(' :: s → ¬ isQuoted t = true := by
    intro t ht hquoted
    obtain ⟨q, hq, heq⟩ := isQuoted_eq_true hquoted
    rw [heq] at ht
    rw [(List.cons_prefix_cons.mp ht).1] at hq
    exact absurd hq (by decide)
  have htrim : trim ('(' :: s) <+: '(' :: s := isPrefix_trimEnd ('(' :: s)
  rintro (h | h)
  · exact hfirst _ (List.prefix_refl _) h
  · exact hfirst _ htrim h

theorem infix_unquote (s : List Char) : unquote s <:+: s := by
  by_cases h : isQuoted s = true
  · obtain ⟨q, _, heq⟩ := isQuoted_eq_true h
    exact ⟨[q], [q], heq.symm⟩
  · exact ⟨[], [], by simp [unquote, h]⟩

namespace Tag

theorem mergeClass_of_not_isQuoted {first second : List Char}
    (h : ¬ (isQuoted first = true ∧ isQuoted second = true)) :
    mergeClass first second = '(' :: (first ++ ") ~ ' ' ~ (".toList ++ (second ++ [')'])) := by
  have hneg : ¬ (isQuoted first && isQuoted second) = true := by rwa [Bool.and_eq_true]
  rw [mergeClass, if_neg hneg]
  simp

/-- Nothing but a space and quotes is put around what stands between the quotes of the two. -/
theorem nameIn_of_nameIn_mergeClass {first second : List Char} (hf : isQuoted first = true)
    (hs : isQuoted second = true) {n : String} (hn : NameIn (mergeClass first second) n) :
    NameIn first n ∨ NameIn second n := by
  obtain ⟨q, hq, heq⟩ := isQuoted_eq_true hs
  have htake : second.take 1 = [q] := by rw [heq]; rfl
  have hmerge : mergeClass first second =
      q :: (unquote first ++ ' ' :: unquote second ++ [q]) := by
    simp [mergeClass, hf, hs, htake]
  rw [hmerge] at hn
  rcases (nameIn_of_quoted hq hn).append_cons (by decide) with h | h
  · exact Or.inl (h.mono (infix_unquote first))
  · exact Or.inr (h.mono (infix_unquote second))

theorem mentioned_of_mentioned_mergeClass {first second : List Char}
    (h : ¬ (isQuoted first = true ∧ isQuoted second = true)) {n : String}
    (hn : Mentioned (mergeClass first second) n) : Mentioned first n ∨ Mentioned second n := by
  have hempty := not_mentioned_nil n
  have hmerge : mergeClass first second =
      [] ++ '(' :: (first ++ ") ~ ' ' ~ (".toList ++ (second ++ ')' :: [])) :=
    mergeClass_of_not_isQuoted h
  rw [hmerge] at hn
  have hinside := (hn.append_cons (by decide)).resolve_left hempty
  rcases hinside.append_glue (by simp) (by decide) with h | h
  · exact Or.inl h
  · exact Or.inr ((h.append_cons (by decide)).resolve_right hempty)

variable {line raw : List Char} {n : String}

theorem nameIn_of_nameIn_shorthand {parts : List (List Char)}
    (hparts : ∀ part ∈ parts, part <:+: line)
    (hn : NameIn ('"' :: [' '].intercalate parts ++ ['"']) n) : NameIn line n := by
  have hwords : NameIn ([' '].intercalate parts) n := nameIn_of_quoted (by decide) hn
  have hspace : ' ' ∉ n.toList := not_mem_of_isName hn.1 (by decide)
  obtain ⟨part, hpart, hinfix⟩ := infix_intercalate (ne_nil_of_isName hn.1) hspace hwords.2
  exact ⟨hn.1, hinfix.trans (hparts part hpart)⟩

/-- The names in a quoted value are names in the line. -/
theorem Given.nameIn_of_isQuoted (h : Given line raw)
    (hq : isQuoted raw = true ∨ isQuoted (trim raw) = true) (hn : NameIn raw n) :
    NameIn line n := by
  induction h with
  | part h => exact hn.mono h
  | flag => exact absurd hq (by decide)
  | shorthand h => exact nameIn_of_nameIn_shorthand h hn
  | @merge first second _ _ ihf ihs =>
    by_cases hboth : isQuoted first = true ∧ isQuoted second = true
    · rcases nameIn_of_nameIn_mergeClass hboth.1 hboth.2 hn with h | h
      · exact ihf (Or.inl hboth.1) h
      · exact ihs (Or.inl hboth.2) h
    · rw [mergeClass_of_not_isQuoted hboth] at hq
      exact absurd hq (not_isQuoted_parens _)

/-- What any value mentions are names in the line. -/
theorem Given.nameIn_of_mentioned (h : Given line raw) (hn : Mentioned raw n) : NameIn line n := by
  induction h with
  | part h => exact hn.nameIn.mono h
  | flag => exact absurd hn (not_mentioned_true n)
  | shorthand h => exact nameIn_of_nameIn_shorthand h hn.nameIn
  | @merge first second hf hs ihf ihs =>
    by_cases hboth : isQuoted first = true ∧ isQuoted second = true
    · rcases nameIn_of_nameIn_mergeClass hboth.1 hboth.2 hn.nameIn with h | h
      · exact hf.nameIn_of_isQuoted (Or.inl hboth.1) h
      · exact hs.nameIn_of_isQuoted (Or.inl hboth.2) h
    · exact (mentioned_of_mentioned_mergeClass hboth hn).elim ihf ihs

theorem Spelled.given {t : Tag} (ht : t.Spelled line) {attr : String × String}
    (hattr : attr ∈ t.attrs) : Given line attr.2.toList := by
  have hP : AttrsInvariant line fun attrs => ∀ attr ∈ attrs, Given line attr.2.toList :=
    { empty := fun attr hattr => by cases hattr
      add := fun attrs name value hattrs _ _ hvalue attr hattr => by
        rcases Entries.mem_of_mem_insert hattr with rfl | hattr
        · rw [String.toList_ofList]
          split
          · next old hold =>
            split
            · exact .merge (hattrs _ (Entries.mem_of_get? hold)) hvalue
            · exact hvalue
          · exact hvalue
        · exact hattrs attr hattr }
  exact ht.attrs hP attr hattr

theorem Spelled.nameIn_of_text {t : Tag} (ht : t.Spelled line) {text : String}
    (htext : t.text = some text) (hn : NameIn text.toList n) : NameIn line n :=
  ⟨hn.1, ht.infix_of_text htext (ne_nil_of_isName hn.1) (not_mem_of_isName hn.1 (by decide)) hn.2⟩

end Tag

/-- The value of an attribute depends on the names in its line alone. -/
theorem attributeValue_congr {line raw : List Char} {c d : Context} (hraw : Tag.Given line raw)
    (h : c.AgreeOn (NameIn line) d) : attributeValue raw c = attributeValue raw d := by
  unfold attributeValue
  dsimp only
  split
  · next hquoted =>
    have hnames : ∀ n, NameIn (unquote (trim raw)) n → NameIn line n := fun n hn =>
      hraw.nameIn_of_isQuoted (Or.inr hquoted)
        (hn.mono ((infix_unquote (trim raw)).trans (isInfix_trim raw)))
    rw [interpolate_congr .none (h.mono hnames)]
  · split
    · rfl
    · next htrue =>
      have hword : trim (trim raw) ≠ "true".toList := by
        intro heq
        rw [← trim_trim, heq] at htrue
        exact htrue rfl
      have hnames : ∀ n, Mentioned (trim raw) n → NameIn line n := fun n hn =>
        hraw.nameIn_of_mentioned hn.of_trim
      rw [Expr.evaluate_congr_of_mentioned (h.mono hnames) hword]

/-! ## Directives -/

namespace LoopHeader

theorem infix_of_mem_wordSplits {isWord : List Char → Bool} {size : Nat} {passed s : List Char}
    {split : List Char × List Char} (h : split ∈ wordSplits isWord size passed s) :
    split.1 <:+: passed.reverse ++ s ∧ split.2 <:+: passed.reverse ++ s := by
  induction s generalizing passed with
  | nil => cases h
  | cons c cs ih =>
    have hmore : split ∈ wordSplits isWord size (c :: passed) cs →
        split.1 <:+: passed.reverse ++ c :: cs ∧ split.2 <:+: passed.reverse ++ c :: cs := by
      intro h
      have := ih h
      rwa [List.reverse_cons, List.append_assoc, List.singleton_append] at this
    rw [wordSplits] at h
    split at h
    · rcases List.mem_cons.mp h with rfl | h
      · exact ⟨(List.prefix_append _ _).isInfix,
          ((List.drop_suffix _ _).trans (List.suffix_append _ _)).isInfix⟩
      · exact hmore h
    · exact hmore h

theorem iterable_of_make? {key? : Option (List Char)} {value iterable : List Char} {h : LoopHeader}
    (heq : make? key? value iterable = some h) : h.iterable <:+: iterable := by
  unfold make? at heq
  dsimp only at heq
  split at heq
  · cases heq
  · split at heq
    · obtain ⟨_, _, rfl⟩ := Option.map_eq_some_iff.mp heq
      exact isInfix_trim iterable
    · split at heq
      · cases heq
        exact isInfix_trim iterable
      · cases heq

/-- The collection of a loop stands in its header. -/
theorem infix_of_ofText? {s : List Char} {h : LoopHeader} (heq : ofText? s = some h) :
    h.iterable <:+: s := by
  refine List.IsInfix.trans ?_ (isInfix_trim s)
  unfold ofText? at heq
  dsimp only at heq
  split at heq
  · next hin =>
    cases heq
    unfold ofIn? at hin
    split at hin
    · cases hin
    · next before after hsplit =>
      have hafter := (infix_of_mem_wordSplits (List.mem_of_mem_head? hsplit)).2
      split at hin
      · exact (iterable_of_make? hin).trans hafter
      · exact (iterable_of_make? hin).trans hafter
  · unfold ofAs? at heq
    split at heq
    · cases heq
    · next before after hsplit =>
      have hbefore := (infix_of_mem_wordSplits (List.mem_of_getLast? hsplit)).1
      split at heq
      · exact (iterable_of_make? heq).trans hbefore
      · exact (iterable_of_make? heq).trans hbefore

end LoopHeader

end Stencil
