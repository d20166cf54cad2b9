import Mathlib.Logic.ExistsUnique
import Stencil.Template.Marker

/-!
The cut of a text at its markers.

A text is a row of segments, each a literal text without the start of a marker and the marker after
it, and a tail in which no marker ends (`IsCut`). The first marker that ends makes the first
segment, and the text after its brace is cut in the same way (`exists_isCut`). The pieces of a text
are those of its cut (`IsCut.markerPieces_eq`), so that there is no second cut, and interpolation
goes along it once: it writes the literal texts, the values and the tail in this order, and reads no
value again (`interpolate_along_cut`).
-/

namespace Stencil

/-! ## Cuts -/

/-- A literal text and the marker right after it. -/
@[ext]
structure Segment where
  literal : List Char
  raw : Bool
  expr : List Char

/-- The segment as it stands in the text. -/
def Segment.source (p : Segment) : List Char := p.literal ++ markerText p.raw (p.expr ++ ['\x7d'])

/-- What stands in its place in the result. -/
def Segment.shown (escaping : Escaping) (c : Context) (p : Segment) : List Char :=
  let value := (Expr.evaluate p.expr c).text.toList
  escaping.apply p.literal ++ if escaping = .html ∧ p.raw = false then escape value else value

/-- A text between two markers, or in front of the first, and the text after all of them. -/
structure Cut where
  segments : List Segment
  tail : List Char

def Cut.shown (escaping : Escaping) (c : Context) (cut : Cut) : List Char :=
  cut.segments.flatMap (Segment.shown escaping c) ++ escaping.apply cut.tail

/-- No marker starts in the text. -/
def Unmarked (s : List Char) : Prop := ∀ before raw expr, s ≠ before ++ markerText raw expr

/-- No marker that starts in the text ends there. -/
def Unclosed (s : List Char) : Prop :=
  ∀ before raw expr, s = before ++ markerText raw expr → '\x7d' ∉ expr

structure IsCut (s : List Char) (cut : Cut) : Prop where
  source : s = cut.segments.flatMap Segment.source ++ cut.tail
  literal : ∀ p ∈ cut.segments, Unmarked p.literal
  expr : ∀ p ∈ cut.segments, '\x7d' ∉ p.expr
  tail : Unclosed cut.tail

/-! ## Every text has a cut -/

theorem eq_nil_or_exists_of_eq_append {α : Type} {a : α} {s before rest : List α}
    (h : a :: s = before ++ rest) : before = [] ∧ rest = a :: s ∨ ∃ more, s = more ++ rest := by
  cases before with
  | nil => exact Or.inl ⟨rfl, h.symm⟩
  | cons b more => exact Or.inr ⟨more, (List.cons.inj h).2⟩

theorem unmarked_nil : Unmarked [] := by
  intro before raw expr h
  simp [markerText] at h

theorem Unmarked.cons {ch : Char} {s : List Char} (h : Unmarked s)
    (hstart : ∀ raw expr, ch :: s ≠ markerText raw expr) : Unmarked (ch :: s) := by
  intro before raw expr heq
  rcases eq_nil_or_exists_of_eq_append heq with ⟨_, hrest⟩ | ⟨more, hmore⟩
  · exact hstart raw expr hrest.symm
  · exact h more raw expr hmore

theorem Unclosed.cons {ch : Char} {s : List Char} (h : Unclosed s)
    (hstart : ∀ raw expr, ch :: s ≠ markerText raw expr) : Unclosed (ch :: s) := by
  intro before raw expr heq
  rcases eq_nil_or_exists_of_eq_append heq with ⟨_, hrest⟩ | ⟨more, hmore⟩
  · exact absurd hrest.symm (hstart raw expr)
  · exact h more raw expr hmore

theorem unclosed_of_not_mem {s : List Char} (h : '\x7d' ∉ s) : Unclosed s := by
  rintro before raw expr rfl hmem
  apply h
  simp [markerText, hmem]

theorem IsCut.of_unclosed {s : List Char} (h : Unclosed s) : IsCut s ⟨[], s⟩ where
  source := rfl
  literal := nofun
  expr := nofun
  tail := h

theorem IsCut.cons {s : List Char} {p : Segment} {cut : Cut} (h : IsCut s cut)
    (hliteral : Unmarked p.literal) (hexpr : '\x7d' ∉ p.expr) :
    IsCut (p.source ++ s) ⟨p :: cut.segments, cut.tail⟩ where
  source := by rw [List.flatMap_cons, List.append_assoc, ← h.source]
  literal := List.forall_mem_cons.mpr ⟨hliteral, h.literal⟩
  expr := List.forall_mem_cons.mpr ⟨hexpr, h.expr⟩
  tail := h.tail

/-- A character that starts no marker belongs to the first literal text, or to the tail. -/
theorem IsCut.exists_cons {ch : Char} {s : List Char} {cut : Cut} (h : IsCut s cut)
    (hstart : ∀ raw expr, ch :: s ≠ markerText raw expr) : ∃ cut', IsCut (ch :: s) cut' := by
  obtain ⟨segments, tail⟩ := cut
  cases segments with
  | nil =>
    obtain rfl : s = tail := h.source
    exact ⟨_, .of_unclosed (h.tail.cons hstart)⟩
  | cons p segments =>
    obtain ⟨hliteral, hliterals⟩ := List.forall_mem_cons.mp h.literal
    obtain ⟨hexpr, hexprs⟩ := List.forall_mem_cons.mp h.expr
    have hfront : Unmarked (ch :: p.literal) := by
      apply hliteral.cons
      intro raw expr heq
      apply hstart raw (expr ++ markerText p.raw (p.expr ++ ['\x7d']) ++
        (segments.flatMap Segment.source ++ tail))
      rw [h.source, List.flatMap_cons, Segment.source]
      simp only [markerText, List.append_assoc, List.cons_append] at heq ⊢
      obtain ⟨rfl, hs⟩ := List.cons.inj heq
      simp [hs]
    refine ⟨⟨⟨ch :: p.literal, p.raw, p.expr⟩ :: segments, tail⟩, ?_, ?_, ?_, h.tail⟩
    · rw [h.source]
      rfl
    · exact List.forall_mem_cons.mpr ⟨hfront, hliterals⟩
    · exact List.forall_mem_cons.mpr ⟨hexpr, hexprs⟩

theorem exists_isCut (s : List Char) : ∃ cut, IsCut s cut := by
  induction hn : s.length using Nat.strongRecOn generalizing s with
  | ind n ih =>
    subst hn
    by_cases hstart : ∃ raw rest, s = markerText raw rest
    · obtain ⟨raw, rest, rfl⟩ := hstart
      by_cases hclosed : '\x7d' ∈ rest
      · obtain ⟨expr, after, rfl, hexpr⟩ := List.eq_append_cons_of_mem hclosed
        have hshorter : after.length < (markerText raw (expr ++ '\x7d' :: after)).length := by
          simp [markerText]
          omega
        have hsource : markerText raw (expr ++ '\x7d' :: after) =
            Segment.source ⟨[], raw, expr⟩ ++ after := by simp [Segment.source, markerText]
        obtain ⟨cut, hcut⟩ := ih _ hshorter after rfl
        rw [hsource]
        exact ⟨_, hcut.cons unmarked_nil hexpr⟩
      · refine ⟨_, .of_unclosed (unclosed_of_not_mem ?_)⟩
        cases raw <;> simp [markerText, hclosed]
    · cases s with
      | nil => exact ⟨_, .of_unclosed (unclosed_of_not_mem List.not_mem_nil)⟩
      | cons ch s =>
        obtain ⟨cut, hcut⟩ := ih s.length (by simp) s rfl
        exact hcut.exists_cons fun raw rest h => hstart ⟨raw, rest, h⟩

/-! ## The pieces of a cut -/

/-- Outside a marker, a character that starts none is a piece of its own. -/
theorem scanMarkers_cons {ch : Char} {s : List Char}
    (hstart : ∀ raw expr, ch :: s ≠ markerText raw expr) :
    scanMarkers none (ch :: s) = .literal ch :: scanMarkers none s := by
  rw [scanMarkers]
  · rintro cs rfl rfl
    exact hstart false cs rfl
  · rintro cs rfl rfl
    exact hstart true cs rfl

theorem scanMarkers_markerText (raw : Bool) (s : List Char) :
    scanMarkers none (markerText raw s) = scanMarkers (some ⟨raw, []⟩) s := by
  cases raw <;> rfl

/-- A brace after a marker's sign would have to stand in the literal text. -/
theorem scanMarkers_unmarked {literal : List Char} (h : Unmarked literal) (raw : Bool)
    (s : List Char) : scanMarkers none (literal ++ markerText raw s) =
      literal.map .literal ++ scanMarkers none (markerText raw s) := by
  induction literal with
  | nil => rfl
  | cons ch literal ih =>
    have htail : Unmarked literal := fun before raw' expr heq =>
      h (ch :: before) raw' expr (by rw [heq, List.cons_append])
    rw [List.cons_append, scanMarkers_cons, ih htail, List.map_cons, List.cons_append]
    intro raw' expr heq
    cases literal with
    | nil => cases raw <;> simp [markerText] at heq
    | cons d literal =>
      simp only [markerText, List.cons_append, List.cons.injEq] at heq
      exact h [] raw' literal (by simp [markerText, heq.1, heq.2.1])

theorem scanMarkers_closed {expr : List Char} (h : '\x7d' ∉ expr) (m : OpenMarker)
    (s : List Char) : scanMarkers (some m) (expr ++ '\x7d' :: s) =
      .marker m.raw (m.expr.reverse ++ expr) :: scanMarkers none s := by
  induction expr generalizing m with
  | nil => simp [scanMarkers]
  | cons ch expr ih =>
    rw [List.mem_cons, not_or] at h
    have hother : (ch == '\x7d') = false := by simpa using Ne.symm h.1
    simp [scanMarkers, hother, ih h.2]

theorem scanMarkers_open {s : List Char} (h : '\x7d' ∉ s) (m : OpenMarker) :
    scanMarkers (some m) s = (markerText m.raw (m.expr.reverse ++ s)).map .literal := by
  induction s generalizing m with
  | nil => simp [scanMarkers, OpenMarker.literal, markerText]
  | cons ch s ih =>
    rw [List.mem_cons, not_or] at h
    have hother : (ch == '\x7d') = false := by simpa using Ne.symm h.1
    simp [scanMarkers, hother, ih h.2]

theorem scanMarkers_unclosed {s : List Char} (h : Unclosed s) :
    scanMarkers none s = s.map .literal := by
  induction s with
  | nil => rfl
  | cons ch s ih =>
    have htail : Unclosed s := fun before raw expr heq =>
      h (ch :: before) raw expr (by rw [heq, List.cons_append])
    by_cases hstart : ∃ raw expr, ch :: s = markerText raw expr
    · obtain ⟨raw, expr, heq⟩ := hstart
      rw [heq, scanMarkers_markerText, scanMarkers_open (h [] raw expr heq)]
      rfl
    · rw [scanMarkers_cons fun raw expr heq => hstart ⟨raw, expr, heq⟩, ih htail, List.map_cons]

def Segment.pieces (p : Segment) : List Piece := p.literal.map .literal ++ [.marker p.raw p.expr]

theorem IsCut.markerPieces_eq {s : List Char} {cut : Cut} (h : IsCut s cut) :
    markerPieces s = cut.segments.flatMap Segment.pieces ++ cut.tail.map .literal := by
  obtain ⟨segments, tail⟩ := cut
  obtain ⟨rfl, hliterals, hexprs, htail⟩ := h
  rw [markerPieces]
  dsimp only at *
  induction segments with
  | nil => exact scanMarkers_unclosed htail
  | cons p segments ih =>
    obtain ⟨hliteral, hliterals⟩ := List.forall_mem_cons.mp hliterals
    obtain ⟨hexpr, hexprs⟩ := List.forall_mem_cons.mp hexprs
    have hsource : p.source ++ (segments.flatMap Segment.source ++ tail) =
        p.literal ++ markerText p.raw (p.expr ++ '\x7d' ::
          (segments.flatMap Segment.source ++ tail)) := by simp [Segment.source, markerText]
    rw [List.flatMap_cons, List.append_assoc, hsource, scanMarkers_unmarked hliteral,
      scanMarkers_markerText, scanMarkers_closed hexpr, ih hliterals hexprs]
    simp [Segment.pieces]

/-! ## One cut only -/

theorem map_literal_append_inj {s t : List Char} {raw raw' : Bool} {expr expr' : List Char}
    {ps qs : List Piece} (h : s.map .literal ++ Piece.marker raw expr :: ps =
      t.map .literal ++ Piece.marker raw' expr' :: qs) :
    s = t ∧ raw = raw' ∧ expr = expr' ∧ ps = qs := by
  induction s generalizing t with
  | nil =>
    cases t with
    | nil => simpa [and_assoc] using h
    | cons d t => simp at h
  | cons ch s ih =>
    cases t with
    | nil => simp at h
    | cons d t =>
      simp only [List.map_cons, List.cons_append, List.cons.injEq, Piece.literal.injEq] at h
      obtain ⟨rfl, hrest⟩ := ih h.2
      exact ⟨by rw [h.1], hrest⟩

theorem Cut.eq_of_pieces {cut cut' : Cut}
    (h : cut.segments.flatMap Segment.pieces ++ cut.tail.map .literal =
      cut'.segments.flatMap Segment.pieces ++ cut'.tail.map .literal) : cut = cut' := by
  have hmarker : ∀ (p : Segment) (tail : List Char) (ps : List Piece),
      tail.map .literal ≠ p.pieces ++ ps := by
    intro p tail ps heq
    have hmem : Piece.marker p.raw p.expr ∈ tail.map .literal := by
      rw [heq]
      simp [Segment.pieces]
    simp at hmem
  obtain ⟨segments, tail⟩ := cut
  obtain ⟨segments', tail'⟩ := cut'
  dsimp only at h
  induction segments generalizing segments' with
  | nil =>
    cases segments' with
    | nil =>
      have htail : tail = tail' := (List.map_inj_right fun _ _ => Piece.literal.inj).mp h
      rw [htail]
    | cons p segments' =>
      rw [List.flatMap_cons, List.append_assoc] at h
      exact absurd h (hmarker p tail _)
  | cons p segments ih =>
    cases segments' with
    | nil =>
      rw [List.flatMap_cons, List.append_assoc] at h
      exact absurd h.symm (hmarker p tail' _)
    | cons q segments' =>
      simp only [List.flatMap_cons, List.append_assoc, Segment.pieces, List.cons_append,
        List.nil_append] at h
      obtain ⟨hliteral, hraw, hexpr, hrest⟩ := map_literal_append_inj h
      obtain ⟨hsegments, htail⟩ := Cut.mk.inj (ih segments' hrest)
      rw [Segment.ext hliteral hraw hexpr, hsegments, htail]

theorem IsCut.unique {s : List Char} {cut cut' : Cut} (h : IsCut s cut) (h' : IsCut s cut') :
    cut = cut' :=
  Cut.eq_of_pieces (h.markerPieces_eq.symm.trans h'.markerPieces_eq)

/-! ## Interpolation along the cut -/

theorem flatMap_text_literal (escaping : Escaping) (c : Context) (s : List Char) :
    (s.map .literal).flatMap (Piece.text escaping c) = escaping.apply s := by
  rw [List.flatMap_map]
  cases escaping with
  | html => simp [Piece.text, Escaping.apply, escape]
  | none => simp [Piece.text, Escaping.apply]

theorem flatMap_text_pieces (escaping : Escaping) (c : Context) (p : Segment) :
    p.pieces.flatMap (Piece.text escaping c) = p.shown escaping c := by
  rw [Segment.pieces, List.flatMap_append, flatMap_text_literal, List.flatMap_singleton,
    Segment.shown, Piece.text]
  cases escaping with
  | html => cases p.raw <;> rfl
  | none => cases p.raw <;> rfl

theorem IsCut.interpolate_eq {s : List Char} {cut : Cut} (h : IsCut s cut) (escaping : Escaping)
    (c : Context) : interpolate escaping s c = cut.shown escaping c := by
  have hshown : ∀ p : Segment, p.pieces.flatMap (Piece.text escaping c) = p.shown escaping c :=
    flatMap_text_pieces escaping c
  rw [interpolate, h.markerPieces_eq, List.flatMap_append, flatMap_text_literal,
    List.flatMap_assoc, Cut.shown]
  simp only [hshown]

/-- A text has one cut, and interpolation is what the cut shows. -/
theorem interpolate_along_cut (s : List Char) :
    (∃! cut, IsCut s cut) ∧
      ∀ cut, IsCut s cut → ∀ escaping c, interpolate escaping s c = cut.shown escaping c := by
  obtain ⟨cut, hcut⟩ := exists_isCut s
  refine ⟨⟨cut, hcut, fun cut' hcut' => hcut'.unique hcut⟩, ?_⟩
  intro cut' hcut' escaping c
  exact hcut'.interpolate_eq escaping c

end Stencil
