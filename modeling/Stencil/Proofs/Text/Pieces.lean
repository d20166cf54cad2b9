import Mathlib.Data.List.Infix
import Stencil.Text.Split

/-!
Texts cut at a separator, and texts with another one in its place.

Occurrences are found from left to right: one that is found is passed as a whole, and a character is
passed by itself only if none begins there (`PartedBy`, `Replaced`). The pieces of a text are its
parts in this sense (`partedBy_pieces`), so no piece contains the separator: inside a piece it would
have been found (`PartedBy.not_infix_of_mem`). Joining the parts by another text is replacing, for
both go through the text in the same steps (`PartedBy.replaced`).
-/

namespace Stencil

/-- The parts of a text between the occurrences of `sep` found from left to right. -/
inductive PartedBy (sep : List Char) : List Char → List (List Char) → Prop
  | nil : PartedBy sep [] [[]]
  | found {s : List Char} {parts : List (List Char)} :
      PartedBy sep s parts → PartedBy sep (sep ++ s) ([] :: parts)
  | char {c : Char} {s part : List Char} {parts : List (List Char)} :
      ¬ sep <+: c :: s → PartedBy sep s (part :: parts) →
        PartedBy sep (c :: s) ((c :: part) :: parts)

/-- A text and the one with `new` for each occurrence of `old` found from left to right. -/
inductive Replaced (old new : List Char) : List Char → List Char → Prop
  | nil : Replaced old new [] []
  | found {s t : List Char} : Replaced old new s t → Replaced old new (old ++ s) (new ++ t)
  | char {c : Char} {s t : List Char} :
      ¬ old <+: c :: s → Replaced old new s t → Replaced old new (c :: s) (c :: t)

variable {sep old new s : List Char} {part : List Char} {parts : List (List Char)}

/-! ## Pieces -/

theorem piecesFrom_skip (sep : List Char) (skip : Nat) (piece : List Char)
    (done : List (List Char)) (s : List Char) :
    piecesFrom sep skip piece done s = piecesFrom sep 0 piece done (s.drop skip) := by
  induction s generalizing skip with
  | nil => cases skip <;> rfl
  | cons c s ih =>
    cases skip with
    | zero => rfl
    | succ skip => exact ih skip

/-- The present piece goes in front of the first one that is found. -/
theorem piecesFrom_piece (sep piece s : List Char) :
    piecesFrom sep 0 piece [] s = (pieces sep s).modifyHead (piece.reverse ++ ·) := by
  induction s generalizing piece with
  | nil => simp [pieces, piecesFrom]
  | cons c s ih =>
    unfold pieces
    simp only [piecesFrom]
    split
    · rw [piecesFrom_eq_append, piecesFrom_eq_append sep _ [] [[].reverse]]
      simp
    · rw [ih, ih [c], List.modifyHead_modifyHead]
      simp [Function.comp_def]

theorem pieces_append (hsep : sep ≠ []) (s : List Char) :
    pieces sep (sep ++ s) = [] :: pieces sep s := by
  obtain ⟨d, sep, rfl⟩ := List.exists_cons_of_ne_nil hsep
  have hstart : (d :: sep).isPrefixOf (d :: (sep ++ s)) = true :=
    List.isPrefixOf_iff_prefix.mpr ⟨s, rfl⟩
  rw [pieces, List.cons_append, piecesFrom, if_pos hstart, piecesFrom_eq_append, piecesFrom_skip]
  simp [pieces]

theorem pieces_cons {c : Char} (h : ¬ sep <+: c :: s) :
    pieces sep (c :: s) = (pieces sep s).modifyHead (c :: ·) := by
  have hstart : sep.isPrefixOf (c :: s) = false := by
    rw [← List.isPrefixOf_iff_prefix] at h
    exact Bool.not_eq_true _ ▸ h
  rw [pieces, piecesFrom, hstart]
  exact piecesFrom_piece sep [c] s

/-- The pieces are cut off one after the other. -/
theorem partedBy_pieces (hsep : sep ≠ []) (s : List Char) : PartedBy sep s (pieces sep s) := by
  induction hn : s.length using Nat.strong_induction_on generalizing s with
  | _ n ih =>
    cases s with
    | nil => exact .nil
    | cons c s =>
      by_cases h : sep <+: c :: s
      · obtain ⟨rest, hrest⟩ := h
        have hlt : rest.length < n := by
          have hpos := List.length_pos_iff.mpr hsep
          rw [← hn, ← hrest, List.length_append]
          omega
        rw [← hrest, pieces_append hsep]
        exact .found (ih _ hlt rest rfl)
      · obtain ⟨part, parts, hparts⟩ :=
          List.exists_cons_of_ne_nil (piecesFrom_ne_nil sep 0 [] [] s)
        have hlt : s.length < n := hn ▸ Nat.lt_succ_self s.length
        have hrest := ih _ hlt s rfl
        rw [pieces_cons h]
        rw [pieces, hparts] at hrest ⊢
        exact .char h hrest

/-! ## Parts -/

theorem PartedBy.head_prefix (h : PartedBy sep s (part :: parts)) : part <+: s := by
  generalize hall : part :: parts = all at h
  induction h generalizing part parts with
  | nil =>
    cases hall
    exact List.prefix_rfl
  | found _ _ =>
    cases hall
    exact List.nil_prefix
  | char _ _ ih =>
    cases hall
    exact (List.prefix_cons_inj _).mpr (ih rfl)

/-- No part has a separator in it: at the character where it begins it would have been found. -/
theorem PartedBy.not_infix_of_mem (hsep : sep ≠ []) (h : PartedBy sep s parts) :
    ∀ p ∈ parts, ¬ sep <:+: p := by
  have hnil : ¬ sep <:+: [] := fun hinfix => hsep (List.infix_nil.mp hinfix)
  induction h with
  | nil => exact List.forall_mem_singleton.mpr hnil
  | found _ ih => exact List.forall_mem_cons.mpr ⟨hnil, ih⟩
  | char hstart hrest ih =>
    obtain ⟨hpart, hparts⟩ := List.forall_mem_cons.mp ih
    refine List.forall_mem_cons.mpr ⟨fun hinfix => ?_, hparts⟩
    rcases List.infix_cons_iff.mp hinfix with hp | hp
    · exact hstart (hp.trans ((List.prefix_cons_inj _).mpr hrest.head_prefix))
    · exact hpart hp

theorem PartedBy.ne_nil (h : PartedBy sep s parts) : parts ≠ [] := by
  cases h <;> nofun

/-- The parts with another text between them. -/
theorem PartedBy.replaced (h : PartedBy old s parts) (new : List Char) :
    Replaced old new s (new.intercalate parts) := by
  induction h with
  | nil => exact .nil
  | found hrest ih =>
    rw [intercalate_cons_of_ne_nil _ _ hrest.ne_nil, List.nil_append]
    exact .found ih
  | @char c s part parts hstart _ ih =>
    have hcons : new.intercalate ((c :: part) :: parts) = c :: new.intercalate (part :: parts) := by
      cases parts <;> simp [List.intercalate]
    rw [hcons]
    exact .char hstart ih

/-- There is one way to replace. -/
theorem Replaced.unique (hold : old ≠ []) {t u : List Char} (ht : Replaced old new s t)
    (hu : Replaced old new s u) : t = u := by
  induction ht generalizing u with
  | nil =>
    generalize hs : [] = s at hu
    cases hu with
    | nil => rfl
    | found _ => exact absurd (List.append_eq_nil_iff.mp hs.symm).1 hold
    | char _ _ => cases hs
  | @found s t _ ih =>
    generalize hs : old ++ s = whole at hu
    cases hu with
    | nil => exact absurd (List.append_eq_nil_iff.mp hs).1 hold
    | found hrest =>
      cases List.append_cancel_left hs
      rw [ih hrest]
    | char hstart _ => exact absurd ⟨s, hs⟩ hstart
  | @char c s t hstart _ ih =>
    generalize hs : c :: s = whole at hu
    cases hu with
    | nil => cases hs
    | @found s' t' _ => exact absurd ⟨s', hs.symm⟩ hstart
    | char _ hrest =>
      cases hs
      rw [ih hrest]

/-- Every occurrence is replaced, found from left to right. -/
theorem replaced_replaceAll (hold : old ≠ []) (new s : List Char) :
    Replaced old new s (replaceAll old new s) := by
  have hempty : old.isEmpty = false := List.isEmpty_eq_false_iff.mpr hold
  rw [replaceAll, hempty]
  exact (partedBy_pieces hold s).replaced new

end Stencil
