/-!
White space and the two ends of a text.

A character is blank when it has the Unicode property White_Space. `trim` cuts blank characters from
both ends; `trimStart` from the front only. Zero-width characters such as U+200B and U+FEFF are not
blank.
-/

namespace Stencil

/-- The twenty-five characters with the White_Space property. -/
def isBlank (c : Char) : Bool :=
  let n := c.toNat
  (9 ≤ n && n ≤ 13) || n == 32 || n == 0x85 || n == 0xA0 || n == 0x1680 ||
    (0x2000 ≤ n && n ≤ 0x200A) || n == 0x2028 || n == 0x2029 || n == 0x202F || n == 0x205F ||
    n == 0x3000

def trimStart (s : List Char) : List Char := s.dropWhile isBlank

def trimEnd (s : List Char) : List Char := (s.reverse.dropWhile isBlank).reverse

def trim (s : List Char) : List Char := trimEnd (trimStart s)

theorem trimStart_head {s : List Char} {c : Char} {r : List Char} (h : trimStart s = c :: r) :
    isBlank c = false := by
  induction s with
  | nil => simp [trimStart] at h
  | cons d s ih =>
    rw [trimStart, List.dropWhile_cons] at h
    split at h
    · exact ih h
    · next hd => cases h; simpa using hd

theorem isSuffix_trimStart (s : List Char) : trimStart s <:+ s := List.dropWhile_suffix _

theorem isPrefix_trimEnd (s : List Char) : trimEnd s <+: s := by
  rw [trimEnd, ← List.reverse_suffix, List.reverse_reverse]
  exact List.dropWhile_suffix _

theorem trimStart_trimStart (s : List Char) : trimStart (trimStart s) = trimStart s := by
  cases h : trimStart s with
  | nil => rfl
  | cons c r => exact List.dropWhile_cons_of_neg (by rw [trimStart_head h]; decide)

theorem trimEnd_trimEnd (s : List Char) : trimEnd (trimEnd s) = trimEnd s := by
  have h := trimStart_trimStart s.reverse
  simp only [trimStart] at h
  simp only [trimEnd, List.reverse_reverse, h]

theorem trimStart_trim (s : List Char) : trimStart (trim s) = trim s := by
  cases h : trim s with
  | nil => rfl
  | cons c r =>
    obtain ⟨rest, hrest⟩ := isPrefix_trimEnd (trimStart s)
    rw [← trim, h] at hrest
    exact List.dropWhile_cons_of_neg (by rw [trimStart_head hrest.symm]; decide)

theorem trimEnd_trim (s : List Char) : trimEnd (trim s) = trim s := trimEnd_trimEnd _

theorem trim_trim (s : List Char) : trim (trim s) = trim s := by
  rw [trim, trimStart_trim, trimEnd_trim]

/-- Only blank characters are cut off. -/
theorem exists_eq_append_trim (s : List Char) :
    ∃ before after, s = before ++ trim s ++ after ∧ (∀ c ∈ before, isBlank c = true) ∧
      ∀ c ∈ after, isBlank c = true := by
  have hall : ∀ t : List Char, ∀ c ∈ t.takeWhile isBlank, isBlank c = true := fun t =>
    List.all_eq_true.mp List.all_takeWhile
  have hstart : s.takeWhile isBlank ++ trimStart s = s := List.takeWhile_append_dropWhile
  have hend : trim s ++ ((trimStart s).reverse.takeWhile isBlank).reverse = trimStart s := by
    rw [trim, trimEnd, ← List.reverse_append, List.takeWhile_append_dropWhile,
      List.reverse_reverse]
  refine ⟨s.takeWhile isBlank, ((trimStart s).reverse.takeWhile isBlank).reverse, ?_, hall s, ?_⟩
  · rw [List.append_assoc, hend, hstart]
  · intro c hc
    exact hall _ c (List.mem_reverse.mp hc)

theorem isInfix_trim (s : List Char) : trim s <:+: s :=
  (isPrefix_trimEnd _).isInfix.trans (isSuffix_trimStart s).isInfix

theorem trimStart_eq_nil {s : List Char} : trimStart s = [] ↔ ∀ c ∈ s, isBlank c = true := by
  induction s with
  | nil => simp [trimStart]
  | cons d s ih =>
    rw [trimStart, List.dropWhile_cons, List.forall_mem_cons, ← ih]
    split
    · next hd => simp [hd, trimStart]
    · next hd => simp [hd]

theorem trimStart_append_of_nil {s : List Char} (hs : trimStart s = []) (after : List Char) :
    trimStart (s ++ after) = trimStart after := by
  rw [trimStart_eq_nil] at hs
  rw [trimStart, List.dropWhile_append_of_pos hs, trimStart]

theorem trimStart_append_of_cons {s cs : List Char} {c : Char} (hs : trimStart s = c :: cs)
    (after : List Char) : trimStart (s ++ after) = c :: cs ++ after := by
  rw [trimStart] at hs
  rw [trimStart, List.dropWhile_append, hs]
  rfl

theorem trimEnd_append (s after : List Char) :
    trimEnd (s ++ after) = if trimEnd after = [] then trimEnd s else s ++ trimEnd after := by
  rw [trimEnd, List.reverse_append, List.dropWhile_append]
  cases h : after.reverse.dropWhile isBlank with
  | nil => simp [trimEnd, h]
  | cons c cs => simp [trimEnd, h]

theorem trimEnd_append_of_eq_self {s : List Char} (hs : trimEnd s = s) (after : List Char) :
    trimEnd (s ++ after) = s ++ trimEnd after := by
  rw [trimEnd_append]
  split
  · next h => rw [hs, h, List.append_nil]
  · rfl

/-- White space in front of a text plays no part. -/
theorem trim_append_of_isBlank_left {before : List Char} (h : ∀ c ∈ before, isBlank c = true)
    (s : List Char) : trim (before ++ s) = trim s := by
  rw [trim, trimStart_append_of_nil (trimStart_eq_nil.mpr h), trim]

/-- White space after a text plays no part. -/
theorem trim_append_of_isBlank_right {after : List Char} (h : ∀ c ∈ after, isBlank c = true)
    (s : List Char) : trim (s ++ after) = trim s := by
  cases hs : trimStart s with
  | nil => rw [trim, trim, trimStart_append_of_nil hs, trimStart_eq_nil.mpr h, hs]
  | cons c cs =>
    have hreverse : ∀ d ∈ after.reverse, isBlank d = true := fun d hd =>
      h d (List.mem_reverse.mp hd)
    rw [trim, trim, trimStart_append_of_cons hs, hs, trimEnd, trimEnd, List.reverse_append,
      List.dropWhile_append_of_pos hreverse]

/-- Between two texts without white space at their outer ends nothing is cut off. -/
theorem trim_append_append {s t : List Char} (hs : trim s = s) (hs' : s ≠ []) (ht : trim t = t)
    (ht' : t ≠ []) (between : List Char) : trim (s ++ between ++ t) = s ++ between ++ t := by
  have hstart : trimStart (s ++ between ++ t) = s ++ between ++ t := by
    have h := trimStart_trim s
    rw [hs] at h
    cases s with
    | nil => exact absurd rfl hs'
    | cons c cs =>
      rw [List.append_assoc]
      exact trimStart_append_of_cons h (between ++ t)
  have hend : trimEnd t = t := by
    have h := trimEnd_trim t
    rwa [ht] at h
  rw [trim, hstart, trimEnd_append, hend, if_neg ht']

theorem trim_of_forall {s : List Char} (h : ∀ c ∈ s, isBlank c = false) : trim s = s := by
  have hdrop : ∀ t : List Char, (∀ c ∈ t, isBlank c = false) → t.dropWhile isBlank = t := by
    intro t ht
    cases t with
    | nil => rfl
    | cons c t => exact List.dropWhile_cons_of_neg (by simp [ht c List.mem_cons_self])
  rw [trim, trimStart, hdrop s h, trimEnd, hdrop s.reverse (by simpa using h), List.reverse_reverse]

end Stencil
