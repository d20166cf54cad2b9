import Mathlib.Data.List.Induction
import Mathlib.Data.List.TakeWhile
import Mathlib.Logic.Relation
import Stencil.Proofs.Render.Concatenation

/-!
The layout of a source.

Apart from the levels of its lines, how a source is laid out makes no difference: which line breaks
it uses, what blank characters its lines end in, how many lines it has that say nothing, and whether
an indentation has half a step more. `Relayout` is one such change at one place, `SameLayout` any
number of them in either direction.

Carriage returns need no care of their own: a source has the lines of the one in which each of them
is a line feed (`linesOf_lineFeeds`), but for blank ones. So the lines of a source can be split at
any line break (`linesOf_break`), and each change is one to a single line, which says the same
(`ofText?_append_blanks`, `ofText?_indent`) or nothing at all.
-/

namespace Stencil

/-! ## Line breaks -/

def lineBreaks : List (List Char) := [['\n'], ['\r', '\n'], ['\r']]

def isLineBreak (c : Char) : Bool := c == '\n' || c == '\r'

/-- The text with a line feed for each carriage return. -/
def lineFeeds (s : List Char) : List Char := s.map fun c => if c == '\r' then '\n' else c

theorem lineFeeds_append (s t : List Char) : lineFeeds (s ++ t) = lineFeeds s ++ lineFeeds t :=
  List.map_append

theorem filterMap_splitLinesFrom_lineFeeds (line s : List Char) :
    (splitLinesFrom line (lineFeeds s)).filterMap Line.ofText? =
      (splitLinesFrom line s).filterMap Line.ofText? := by
  fun_induction splitLinesFrom line s with
  | case1 line => rfl
  | case2 line cs ih =>
    -- the pair becomes two line feeds with a blank line in between
    have hpair : splitLinesFrom line (lineFeeds ('\r' :: '\n' :: cs)) =
        line.reverse :: [] :: splitLinesFrom [] (lineFeeds cs) := rfl
    rw [hpair, List.filterMap_cons, List.filterMap_cons, List.filterMap_cons, ofText?_nil, ih]
  | case3 line c cs _ hc ih =>
    have hfeed : lineFeeds (c :: cs) = '\n' :: lineFeeds cs := by
      rw [Bool.or_eq_true, beq_iff_eq, beq_iff_eq] at hc
      rcases hc with rfl | rfl <;> rfl
    have hbreak : splitLinesFrom line ('\n' :: lineFeeds cs) =
        line.reverse :: splitLinesFrom [] (lineFeeds cs) := rfl
    rw [hfeed, hbreak, List.filterMap_cons, List.filterMap_cons, ih]
  | case4 line c cs _ hc ih =>
    have hcr : (c == '\r') = false := by
      rw [Bool.or_eq_true, not_or] at hc
      exact Bool.eq_false_iff.mpr hc.2
    have hsame : lineFeeds (c :: cs) = c :: lineFeeds cs := by
      rw [lineFeeds, List.map_cons, hcr, if_neg Bool.false_ne_true, lineFeeds]
    rw [hsame, splitLinesFrom]
    · rw [if_neg hc, ih]
    · rintro _ rfl _
      exact hc rfl

theorem linesOf_lineFeeds (s : List Char) : linesOf (lineFeeds s) = linesOf s :=
  filterMap_splitLinesFrom_lineFeeds [] s

/-- A source is split at a line break of any kind. -/
theorem linesOf_break {e : List Char} (he : e ∈ lineBreaks) (s t : List Char) :
    linesOf (s ++ e ++ t) = linesOf s ++ linesOf t := by
  rw [← linesOf_lineFeeds, lineFeeds_append, lineFeeds_append, List.append_assoc]
  have hfeeds : lineFeeds e = ['\n'] ∨ lineFeeds e = ['\n', '\n'] := by
    simp only [lineBreaks, List.mem_cons, List.not_mem_nil, or_false] at he
    rcases he with rfl | rfl | rfl
    · exact Or.inl rfl
    · exact Or.inr rfl
    · exact Or.inl rfl
  rcases hfeeds with h | h
  · rw [h, List.singleton_append, linesOf_append, linesOf_lineFeeds, linesOf_lineFeeds]
  · have hblank : linesOf ('\n' :: lineFeeds t) = linesOf [] ++ linesOf (lineFeeds t) :=
      linesOf_append [] (lineFeeds t)
    rw [h, List.cons_append, List.singleton_append, linesOf_append, hblank, linesOf_lineFeeds,
      linesOf_lineFeeds]
    rfl

/-- The text ends where a line of the source can start. -/
def AtLineStart (before : List Char) : Prop := ∀ c ∈ before.getLast?, isLineBreak c = true

/-- The text starts where a line of the source can end. -/
def AtLineEnd (after : List Char) : Prop := ∀ c ∈ after.head?, isLineBreak c = true

instance (before : List Char) : Decidable (AtLineStart before) :=
  Option.decidableForallMem before.getLast?

instance (after : List Char) : Decidable (AtLineEnd after) :=
  Option.decidableForallMem after.head?

theorem singleton_mem_lineBreaks {c : Char} (h : isLineBreak c = true) : [c] ∈ lineBreaks := by
  rw [isLineBreak, Bool.or_eq_true, beq_iff_eq, beq_iff_eq] at h
  rcases h with rfl | rfl <;> decide

theorem linesOf_append_of_atLineStart {s : List Char} (h : AtLineStart s) (t : List Char) :
    linesOf (s ++ t) = linesOf s ++ linesOf t := by
  cases s using List.reverseRecOn with
  | nil => rfl
  | append_singleton whole c =>
    have hc := singleton_mem_lineBreaks (h c (by simp))
    have hwhole := linesOf_break hc whole []
    rw [List.append_nil] at hwhole
    rw [linesOf_break hc, hwhole, List.append_assoc]
    rfl

theorem linesOf_append_of_atLineEnd {t : List Char} (h : AtLineEnd t) (s : List Char) :
    linesOf (s ++ t) = linesOf s ++ linesOf t := by
  cases t with
  | nil => rw [List.append_nil]; exact (List.append_nil _).symm
  | cons c t =>
    have hc := singleton_mem_lineBreaks (h c rfl)
    have hsplit : s ++ c :: t = s ++ [c] ++ t := by simp
    have hrest := linesOf_break hc [] t
    rw [List.nil_append, List.singleton_append] at hrest
    rw [hsplit, linesOf_break hc, hrest]
    rfl

/-! ## Single lines -/

/-- The text holds no line break. -/
def IsSingleLine (raw : List Char) : Prop := ∀ c ∈ raw, isLineBreak c = false

instance (raw : List Char) : Decidable (IsSingleLine raw) :=
  List.decidableBAll _ raw

theorem splitLinesFrom_of_isSingleLine {raw : List Char} (h : IsSingleLine raw)
    (line : List Char) : splitLinesFrom line raw = [line.reverse ++ raw] := by
  induction raw generalizing line with
  | nil => rw [splitLinesFrom, List.append_nil]
  | cons c raw ih =>
    have hc : (c == '\n' || c == '\r') = false := h c (List.mem_cons_self ..)
    rw [splitLinesFrom]
    · rw [hc, if_neg Bool.false_ne_true, ih fun d hd => h d (List.mem_cons_of_mem _ hd)]
      simp
    · rintro _ rfl _
      cases hc

theorem linesOf_of_isSingleLine {raw : List Char} (h : IsSingleLine raw) :
    linesOf raw = (Line.ofText? raw).toList := by
  have hsplit : splitLines raw = [raw] := splitLinesFrom_of_isSingleLine h []
  rw [linesOf, hsplit, List.filterMap_cons]
  cases Line.ofText? raw <;> rfl

/-- Every text ends in a single line, perhaps an empty one. -/
theorem exists_lastLine (s : List Char) :
    ∃ whole raw, s = whole ++ raw ∧ AtLineStart whole ∧ IsSingleLine raw := by
  induction s using List.reverseRecOn with
  | nil => exact ⟨[], [], rfl, nofun, nofun⟩
  | append_singleton s c ih =>
    cases hc : isLineBreak c with
    | true => exact ⟨s ++ [c], [], by simp, by simpa [AtLineStart] using hc, nofun⟩
    | false =>
      obtain ⟨whole, raw, rfl, hwhole, hraw⟩ := ih
      refine ⟨whole, raw ++ [c], List.append_assoc .., hwhole, fun d hd => ?_⟩
      rcases List.mem_append.mp hd with hd | hd
      · exact hraw d hd
      · rwa [List.mem_singleton.mp hd]

/-- Every text starts with a single line, perhaps an empty one. -/
theorem exists_firstLine (s : List Char) :
    ∃ raw rest, s = raw ++ rest ∧ IsSingleLine raw ∧ AtLineEnd rest := by
  refine ⟨_, _, List.takeWhile_append_dropWhile (p := fun c => !isLineBreak c).symm, ?_, ?_⟩
  · intro c hc
    simpa using List.mem_takeWhile_imp hc
  · intro c hc
    have hhead := List.head?_dropWhile_not (fun c => !isLineBreak c) s
    rw [Option.mem_def.mp hc] at hhead
    simpa using hhead

theorem ofText?_eq_of_trim_eq {raw raw' : List Char} (htrim : trim raw' = trim raw)
    (hlevel : trim raw ≠ [] → levelOf raw' = levelOf raw) :
    Line.ofText? raw' = Line.ofText? raw := by
  rw [Line.ofText?_eq, Line.ofText?_eq, htrim]
  cases hraw : trim raw with
  | nil => rfl
  | cons c cs =>
    rw [hlevel (by rw [hraw]; exact List.cons_ne_nil c cs)]

/-- Blank characters at its end are no part of a line. -/
theorem ofText?_append_blanks {blanks : List Char} (h : ∀ c ∈ blanks, isBlank c = true)
    (raw : List Char) : Line.ofText? (raw ++ blanks) = Line.ofText? raw := by
  refine ofText?_eq_of_trim_eq (trim_append_of_isBlank_right h raw) fun hraw => ?_
  rw [levelOf, levelOf, List.takeWhile_append, if_neg]
  intro hlength
  -- a line of nothing but spaces is blank
  have hspaces := List.takeWhile_prefix (p := fun c => c == ' ') (l := raw) |>.eq_of_length hlength
  refine hraw ?_
  rw [← List.append_nil raw, trim_append_of_isBlank_left]
  · rfl
  · intro c hc
    rw [← hspaces] at hc
    have hc' := List.mem_takeWhile_imp hc
    rw [beq_iff_eq.mp hc']
    rfl

/-- Half a step more of indentation leaves the level as it is. -/
theorem ofText?_indent (k : Nat) {rest : List Char} (h : rest.head? ≠ some ' ') :
    Line.ofText? (List.replicate (2 * k + 1) ' ' ++ rest) =
      Line.ofText? (List.replicate (2 * k) ' ' ++ rest) := by
  have hblank : ∀ n, ∀ c ∈ List.replicate n ' ', isBlank c = true := by
    intro n c hc
    rw [List.eq_of_mem_replicate hc]
    rfl
  have hspaces : ∀ n, (List.replicate n ' ' ++ rest).takeWhile (· == ' ') =
      List.replicate n ' ' := by
    intro n
    have hrest : rest.takeWhile (· == ' ') = [] := by
      cases rest with
      | nil => rfl
      | cons c rest =>
        refine List.takeWhile_cons_of_neg fun hc => h ?_
        rw [List.head?_cons, beq_iff_eq.mp hc]
    rw [List.takeWhile_append_of_pos, hrest, List.append_nil]
    intro c hc
    rw [List.eq_of_mem_replicate hc]
    rfl
  apply ofText?_eq_of_trim_eq
  · rw [trim_append_of_isBlank_left (hblank _), trim_append_of_isBlank_left (hblank _)]
  · intro _
    rw [levelOf, levelOf, hspaces, hspaces, List.length_replicate, List.length_replicate]
    omega

/-! ## Changes of the layout -/

/-- A line that is blank, or that is classified as nothing. -/
structure Dropped (raw : List Char) : Prop where
  isSingleLine : IsSingleLine raw
  says_nothing : trim raw = [] ∨ classify (trim raw) = none

/-- One change of the layout of a source, at one place. -/
inductive Relayout : List Char → List Char → Prop
  | lineBreak {e e' : List Char} (before after : List Char) (he : e ∈ lineBreaks)
      (he' : e' ∈ lineBreaks) : Relayout (before ++ e ++ after) (before ++ e' ++ after)
  | trailing {blanks after : List Char} (before : List Char)
      (hblanks : ∀ c ∈ blanks, c = ' ' ∨ c = '\t') (hafter : AtLineEnd after) :
      Relayout (before ++ after) (before ++ blanks ++ after)
  /-- A dropped line before another line. -/
  | insertBefore {before raw e : List Char} (after : List Char) (hbefore : AtLineStart before)
      (hraw : Dropped raw) (he : e ∈ lineBreaks) :
      Relayout (before ++ after) (before ++ raw ++ e ++ after)
  /-- A dropped line after another line. -/
  | insertAfter {raw e after : List Char} (before : List Char) (hraw : Dropped raw)
      (he : e ∈ lineBreaks) (hafter : AtLineEnd after) :
      Relayout (before ++ after) (before ++ e ++ raw ++ after)
  /-- One more space in front of a line with an even number of them. -/
  | indent {before after : List Char} (k : Nat) (hbefore : AtLineStart before)
      (hafter : after.head? ≠ some ' ') :
      Relayout (before ++ List.replicate (2 * k) ' ' ++ after)
        (before ++ List.replicate (2 * k + 1) ' ' ++ after)

/-- Any number of changes of the layout, made or taken back. -/
def SameLayout : List Char → List Char → Prop := Relation.EqvGen Relayout

theorem Dropped.linesOf_eq {raw : List Char} (h : Dropped raw) : linesOf raw = [] := by
  rw [linesOf_of_isSingleLine h.isSingleLine, Line.ofText?_eq]
  rcases h.says_nothing with hblank | hnone
  · rw [hblank]; rfl
  · rw [hnone]; simp

theorem Relayout.linesOf_eq {s t : List Char} (h : Relayout s t) : linesOf s = linesOf t := by
  cases h with
  | lineBreak before after he he' => rw [linesOf_break he, linesOf_break he']
  | @trailing blanks after before hblanks hafter =>
    obtain ⟨whole, raw, rfl, hwhole, hraw⟩ := exists_lastLine before
    have hblank : ∀ c ∈ blanks, isBlank c = true ∧ isLineBreak c = false := by
      intro c hc
      rcases hblanks c hc with rfl | rfl <;> exact ⟨rfl, rfl⟩
    have hraw' : IsSingleLine (raw ++ blanks) := fun c hc =>
      (List.mem_append.mp hc).elim (hraw c) fun hc => (hblank c hc).2
    rw [linesOf_append_of_atLineEnd hafter, linesOf_append_of_atLineEnd hafter, List.append_assoc,
      linesOf_append_of_atLineStart hwhole, linesOf_append_of_atLineStart hwhole,
      linesOf_of_isSingleLine hraw, linesOf_of_isSingleLine hraw',
      ofText?_append_blanks fun c hc => (hblank c hc).1]
  | @insertBefore before raw e after hbefore hraw he =>
    rw [linesOf_append_of_atLineStart hbefore, linesOf_break he,
      linesOf_append_of_atLineStart hbefore, hraw.linesOf_eq, List.append_nil]
  | @insertAfter raw e after before hraw he hafter =>
    rw [linesOf_append_of_atLineEnd hafter, linesOf_append_of_atLineEnd hafter, linesOf_break he,
      hraw.linesOf_eq, List.append_nil]
  | @indent before after k hbefore hafter =>
    obtain ⟨raw, rest, rfl, hraw, hrest⟩ := exists_firstLine after
    have hline : ∀ n, IsSingleLine (List.replicate n ' ' ++ raw) := by
      intro n c hc
      rcases List.mem_append.mp hc with hc | hc
      · rw [List.eq_of_mem_replicate hc]
        rfl
      · exact hraw c hc
    have hhead : raw.head? ≠ some ' ' := by
      cases raw with
      | nil => nofun
      | cons c raw => exact hafter
    have hlines : ∀ n, linesOf (before ++ List.replicate n ' ' ++ (raw ++ rest)) =
        linesOf before ++ (Line.ofText? (List.replicate n ' ' ++ raw)).toList ++ linesOf rest := by
      intro n
      rw [← List.append_assoc, linesOf_append_of_atLineEnd hrest, List.append_assoc before,
        linesOf_append_of_atLineStart hbefore, linesOf_of_isSingleLine (hline n)]
    rw [hlines, hlines, ofText?_indent k hhead]

theorem SameLayout.linesOf_eq {s t : List Char} (h : SameLayout s t) : linesOf s = linesOf t := by
  induction h with
  | rel _ _ h => exact h.linesOf_eq
  | refl _ => rfl
  | symm _ _ _ ih => exact ih.symm
  | trans _ _ _ _ _ ih ih' => exact ih.trans ih'

/-! ## Trees and renderings -/

theorem SameLayout.parse_eq {s t : List Char} (h : SameLayout s t) :
    Forest.parse s = Forest.parse t := by
  rw [Forest.parse, Forest.parse, h.linesOf_eq]

/-- Both sources of files fail alike at a path, or give texts that differ in their layout only. -/
def SameFiles (files files' : FileSource) : Prop :=
  ∀ path, match files path, files' path with
    | .ok s, .ok t => SameLayout s.toList t.toList
    | .error fault, .error fault' => fault = fault'
    | _, _ => False

theorem SameFiles.renderFileWith_eq {files files' : FileSource} (h : SameFiles files files')
    (load : Loader) : renderFileWith files load = renderFileWith files' load := by
  funext path c
  have hpath := h path
  unfold renderFileWith
  split at hpath
  · next s t hs ht => simp only [hs, ht, renderSource, hpath.parse_eq]
  · next fault fault' hs ht => simp only [hs, ht, hpath]
  · cases hpath

theorem SameFiles.loader_eq {files files' : FileSource} (h : SameFiles files files')
    (overrun : Stop) (depth : Nat) :
    loader files overrun depth = loader files' overrun depth := by
  induction depth with
  | zero => rfl
  | succ depth ih => rw [loader, loader, ih, h.renderFileWith_eq]

end Stencil
