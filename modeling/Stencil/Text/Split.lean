/-!
Splitting a text at a separator and putting it together again.

`splitOnce` cuts at the first occurrence of one character. `pieces` cuts at every occurrence of a
separator text, from left to right and without overlap; `replaceAll` puts another text in their
place, so it is `pieces` joined again. Main statement: `intercalate_pieces`, with the separator
itself in their place the pieces are the text again.
-/

namespace Stencil

/-- The texts before and after the first `c`. -/
def splitOnce (c : Char) (s : List Char) : Option (List Char × List Char) :=
  match s.dropWhile (· != c) with
  | [] => none
  | _ :: rest => some (s.takeWhile (· != c), rest)

/-- The text after `start`, if the text begins with it. -/
def dropStart? : List Char → List Char → Option (List Char)
  | [], s => some s
  | _ :: _, [] => none
  | p :: ps, c :: cs => if p == c then dropStart? ps cs else none

/-- The texts before and after the first occurrence of `sep`. -/
def splitOnceText (sep : List Char) : List Char → Option (List Char × List Char)
  | [] => if sep.isEmpty then some ([], []) else none
  | c :: cs =>
    match dropStart? sep (c :: cs) with
    | some rest => some ([], rest)
    | none => (splitOnceText sep cs).map fun (before, rest) => (c :: before, rest)

/-- Walks the text with `skip` characters of a separator still to pass; `piece` holds the present
piece and `done` the finished ones, both backwards. -/
def piecesFrom (sep : List Char) : Nat → List Char → List (List Char) → List Char →
    List (List Char)
  | _, piece, done, [] => (piece.reverse :: done).reverse
  | skip + 1, piece, done, _ :: cs => piecesFrom sep skip piece done cs
  | 0, piece, done, c :: cs =>
    if sep.isPrefixOf (c :: cs) then piecesFrom sep (sep.length - 1) [] (piece.reverse :: done) cs
    else piecesFrom sep 0 (c :: piece) done cs

/-- The parts of the text between occurrences of a non-empty separator. -/
def pieces (sep s : List Char) : List (List Char) := piecesFrom sep 0 [] [] s

/-- Every occurrence of `old` replaced; an empty `old` occurs nowhere. -/
def replaceAll (old new s : List Char) : List Char :=
  if old.isEmpty then s else new.intercalate (pieces old s)

/-- Whether `part` occurs in the text. -/
def occursIn (part : List Char) : List Char → Bool
  | [] => part.isEmpty
  | c :: cs => part.isPrefixOf (c :: cs) || occursIn part cs

/-- The part of a text that has a property ends where the next character has not. -/
theorem takeWhile_append_of_head? {p : Char → Bool} {s t : List Char} (hs : ∀ c ∈ s, p c = true)
    (ht : t.head?.any p = false) : (s ++ t).takeWhile p = s := by
  rw [List.takeWhile_append_of_pos hs]
  cases t with
  | nil => simp
  | cons c t =>
    have hc : p c = false := ht
    simp [hc]

theorem dropWhile_append_of_head? {p : Char → Bool} {s t : List Char} (hs : ∀ c ∈ s, p c = true)
    (ht : t.head?.any p = false) : (s ++ t).dropWhile p = t := by
  rw [List.dropWhile_append_of_pos hs]
  cases t with
  | nil => rfl
  | cons c t =>
    have hc : p c = false := ht
    exact List.dropWhile_cons_of_neg (by simp [hc])

theorem splitOnce_eq_some {c : Char} {s before after : List Char}
    (h : splitOnce c s = some (before, after)) : s = before ++ c :: after ∧ c ∉ before := by
  unfold splitOnce at h
  split at h
  · cases h
  · next d rest hd =>
    cases h
    have hdc : d = c := by
      have := List.head?_dropWhile_not (· != c) s
      rw [hd] at this
      simpa using this
    constructor
    · rw [← hdc, ← hd, hdc, List.takeWhile_append_dropWhile]
    · intro hc
      have := List.all_eq_true.1 (List.all_takeWhile (p := (· != c)) (l := s)) c hc
      simp at this

theorem splitOnce_append {c : Char} {before : List Char} (h : c ∉ before) (after : List Char) :
    splitOnce c (before ++ c :: after) = some (before, after) := by
  have hbefore : ∀ d ∈ before, (d != c) = true := by
    intro d hd
    rw [bne_iff_ne]
    rintro rfl
    exact h hd
  rw [splitOnce, List.dropWhile_append_of_pos hbefore, List.takeWhile_append_of_pos hbefore]
  simp

theorem splitOnce_of_not_mem {c : Char} {s : List Char} (h : c ∉ s) : splitOnce c s = none := by
  cases hs : splitOnce c s with
  | none => rfl
  | some p =>
    obtain ⟨before, after⟩ := p
    rw [(splitOnce_eq_some hs).1] at h
    simp at h

theorem dropStart?_append (start s : List Char) : dropStart? start (start ++ s) = some s := by
  induction start with
  | nil => rfl
  | cons p ps ih => simp [dropStart?, ih]

theorem splitOnceText_of_not_mem {p : Char} {s : List Char} (h : p ∉ s) (ps : List Char) :
    splitOnceText (p :: ps) s = none := by
  induction s with
  | nil => rfl
  | cons c s ih =>
    rw [List.mem_cons, not_or] at h
    simp [splitOnceText, dropStart?, h.1, ih h.2]

/-- The first occurrence of a separator is at the first place of its first character, if it is one
there. -/
theorem splitOnceText_append {p : Char} {before : List Char} (h : p ∉ before)
    (ps after : List Char) :
    splitOnceText (p :: ps) (before ++ (p :: ps ++ after)) = some (before, after) := by
  induction before with
  | nil =>
    have hdrop := dropStart?_append (p :: ps) after
    rw [List.cons_append] at hdrop
    rw [List.nil_append, List.cons_append, splitOnceText, hdrop]
  | cons c before ih =>
    rw [List.mem_cons, not_or] at h
    simp only [List.cons_append] at ih
    simp [splitOnceText, dropStart?, h.1, ih h.2]

theorem piecesFrom_ne_nil (sep : List Char) (skip : Nat) (piece : List Char)
    (done : List (List Char)) (s : List Char) : piecesFrom sep skip piece done s ≠ [] := by
  induction s generalizing skip piece done with
  | nil => simp [piecesFrom]
  | cons c cs ih =>
    cases skip with
    | succ skip => exact ih skip piece done
    | zero =>
      simp only [piecesFrom]
      split
      · exact ih _ _ _
      · exact ih _ _ _

theorem piecesFrom_eq_append (sep : List Char) (skip : Nat) (piece : List Char)
    (done : List (List Char)) (s : List Char) :
    piecesFrom sep skip piece done s = done.reverse ++ piecesFrom sep skip piece [] s := by
  induction s generalizing skip piece done with
  | nil => simp [piecesFrom]
  | cons c cs ih =>
    cases skip with
    | succ skip => exact ih skip piece done
    | zero =>
      simp only [piecesFrom]
      split
      · rw [ih _ [] (piece.reverse :: done), ih _ [] [piece.reverse]]
        simp
      · exact ih _ _ _

theorem intercalate_cons_of_ne_nil (sep x : List Char) {xs : List (List Char)} (h : xs ≠ []) :
    sep.intercalate (x :: xs) = x ++ sep ++ sep.intercalate xs := by
  cases xs with
  | nil => exact absurd rfl h
  | cons y ys => simp [List.intercalate]

theorem intercalate_piecesFrom {sep : List Char} (hsep : sep ≠ []) (skip : Nat)
    (piece s : List Char) :
    sep.intercalate (piecesFrom sep skip piece [] s) = piece.reverse ++ s.drop skip := by
  induction s generalizing skip piece with
  | nil => simp [piecesFrom, List.intercalate]
  | cons c cs ih =>
    cases skip with
    | succ skip => simpa [piecesFrom] using ih skip piece
    | zero =>
      simp only [piecesFrom]
      split
      · next hp =>
        obtain ⟨rest, hrest⟩ := List.isPrefixOf_iff_prefix.1 hp
        have hlen : sep.length - 1 + 1 = sep.length :=
          Nat.sub_add_cancel (List.length_pos_iff.2 hsep)
        have hdrop : cs.drop (sep.length - 1) = rest := by
          have : (c :: cs).drop (sep.length - 1 + 1) = rest := by
            rw [hlen, ← hrest, List.drop_left]
          simpa using this
        rw [piecesFrom_eq_append, List.reverse_singleton, List.singleton_append,
          intercalate_cons_of_ne_nil _ _ (piecesFrom_ne_nil _ _ _ _ _), ih, hdrop]
        simp [hrest]
      · rw [ih]
        simp

/-- The pieces with the separator between them are the text again. -/
theorem intercalate_pieces {sep : List Char} (hsep : sep ≠ []) (s : List Char) :
    sep.intercalate (pieces sep s) = s :=
  intercalate_piecesFrom hsep 0 [] s

end Stencil
