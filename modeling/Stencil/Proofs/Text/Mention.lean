import Stencil.Text.Blank
import Stencil.Text.Split
import Stencil.Text.Word

/-!
Names in a text.

A character that a word does not have keeps it on one side of it (`infix_append_cons`). A name can
just be in a text (`NameIn`), or be mentioned there so that an expression may look it up
(`Mentioned`): after a dollar sign, or where neither a letter before it nor a word character after
it makes it part of something longer. The word `true` is only mentioned after a dollar sign,
elsewhere it is a value.
-/

namespace Stencil

/-! ## Words on the two sides of a character -/

/-- A word without `c` stands before the `c` or after it. -/
theorem append_cons_cases {w before after s t : List Char} {c : Char} (hc : c ∉ w)
    (h : before ++ w ++ after = s ++ c :: t) :
    (∃ more, s = before ++ w ++ more ∧ after = more ++ c :: t) ∨
      ∃ more, t = more ++ w ++ after ∧ before = s ++ c :: more := by
  rcases List.append_eq_append_iff.mp h with ⟨more, hs, hafter⟩ | ⟨more, hbefore, hrest⟩
  · exact Or.inl ⟨more, hs, hafter⟩
  · cases more with
    | nil =>
      rw [List.append_nil] at hbefore
      exact Or.inl ⟨[], by rw [List.append_nil, hbefore], hrest.symm⟩
    | cons c' more =>
      obtain ⟨rfl, rfl⟩ := List.cons.inj hrest
      rcases List.append_eq_append_iff.mp hbefore with ⟨inner, hs, hword⟩ | ⟨inner, hb, hinner⟩
      · -- the character would stand in the word
        exact absurd (by rw [hword]; simp) hc
      · cases inner with
        | nil => exact absurd (by rw [← List.nil_append w, ← hinner]; simp) hc
        | cons c' inner =>
          obtain ⟨rfl, rfl⟩ := List.cons.inj hinner
          exact Or.inr ⟨inner, rfl, hb⟩

theorem infix_append_cons {w s t : List Char} {c : Char} (hc : c ∉ w) (h : w <:+: s ++ c :: t) :
    w <:+: s ∨ w <:+: t := by
  obtain ⟨before, after, h⟩ := h
  rcases append_cons_cases hc h with ⟨more, hs, _⟩ | ⟨more, ht, _⟩
  · exact Or.inl ⟨before, more, hs.symm⟩
  · exact Or.inr ⟨more, after, ht.symm⟩

/-- A word without `c` is in one of the parts that are put together with `c` between them. -/
theorem infix_intercalate {w : List Char} {c : Char} (hw : w ≠ []) (hc : c ∉ w)
    {parts : List (List Char)} (h : w <:+: [c].intercalate parts) :
    ∃ part ∈ parts, w <:+: part := by
  induction parts with
  | nil => exact absurd (List.infix_nil.mp h) hw
  | cons part parts ih =>
    cases parts with
    | nil => exact ⟨part, by simp, by simpa [List.intercalate] using h⟩
    | cons part' parts =>
      rw [intercalate_cons_of_ne_nil _ _ (List.cons_ne_nil part' parts), List.append_assoc,
        List.singleton_append] at h
      rcases infix_append_cons hc h with h | h
      · exact ⟨part, by simp, h⟩
      · obtain ⟨x, hx, hw⟩ := ih h
        exact ⟨x, List.mem_cons_of_mem _ hx, hw⟩

/-! ## Names -/

theorem ne_nil_of_isName {n : List Char} (h : isName n = true) : n ≠ [] := by
  rintro rfl
  cases h

theorem isNameChar_of_isNameStart {c : Char} (h : isNameStart c = true) : isNameChar c = true := by
  simp only [isNameStart, isNameChar, Char.isAlphanum, Bool.or_eq_true] at h ⊢
  rcases h with h | h
  · exact Or.inl (Or.inl h)
  · exact Or.inr h

theorem isNameChar_of_mem {n : List Char} (h : isName n = true) {c : Char} (hc : c ∈ n) :
    isNameChar c = true := by
  cases n with
  | nil => cases hc
  | cons d n =>
    rw [isName, Bool.and_eq_true, List.all_eq_true] at h
    rcases List.mem_cons.mp hc with rfl | hc
    · exact isNameChar_of_isNameStart h.1
    · exact h.2 c hc

theorem not_mem_of_isName {n : List Char} (h : isName n = true) {c : Char}
    (hc : isNameChar c = false) : c ∉ n := by
  intro hmem
  rw [isNameChar_of_mem h hmem] at hc
  cases hc

theorem isNameChar_of_isAlpha {c : Char} (h : c.isAlpha = true) : isNameChar c = true := by
  simp [isNameChar, Char.isAlphanum, h]

theorem isAlpha_iff {c : Char} : c.isAlpha = true ↔
    (65 ≤ c.toNat ∧ c.toNat ≤ 90) ∨ (97 ≤ c.toNat ∧ c.toNat ≤ 122) := by
  change (decide ('A'.val ≤ c.val ∧ c.val ≤ 'Z'.val) ||
    (decide ('a'.val ≤ c.val) && decide (c.val ≤ 'z'.val))) = true ↔ _
  simp only [Bool.or_eq_true, Bool.and_eq_true, decide_eq_true_eq, UInt32.le_iff_toNat_le]
  exact Iff.rfl

theorem isDigit_iff {c : Char} : c.isDigit = true ↔ 48 ≤ c.toNat ∧ c.toNat ≤ 57 := by
  change (decide ('0'.val ≤ c.val) && decide (c.val ≤ '9'.val)) = true ↔ _
  simp only [Bool.and_eq_true, decide_eq_true_eq, UInt32.le_iff_toNat_le]
  exact Iff.rfl

theorem isNameChar_of_isBlank {c : Char} (h : isBlank c = true) : isNameChar c = false := by
  cases hword : isNameChar c with
  | false => rfl
  | true =>
    rw [isNameChar, Char.isAlphanum, Bool.or_eq_true, Bool.or_eq_true, isAlpha_iff, isDigit_iff,
      beq_iff_eq] at hword
    rcases hword with hword | rfl
    · simp only [isBlank, Bool.or_eq_true, Bool.and_eq_true, decide_eq_true_eq, beq_iff_eq] at h
      omega
    · revert h
      decide

theorem not_isBlank_of_isNameChar {c : Char} (h : isNameChar c = true) : ¬ isBlank c = true := by
  intro hblank
  rw [isNameChar_of_isBlank hblank] at h
  cases h

/-- The name is somewhere in the text. -/
def NameIn (s : List Char) (n : String) : Prop := isName n.toList = true ∧ n.toList <:+: s

theorem NameIn.mono {s t : List Char} {n : String} (h : NameIn s n) (hs : s <:+: t) :
    NameIn t n :=
  ⟨h.1, h.2.trans hs⟩

theorem NameIn.append_cons {s t : List Char} {c : Char} {n : String} (hc : isNameChar c = false)
    (h : NameIn (s ++ c :: t) n) : NameIn s n ∨ NameIn t n := by
  have hsides := infix_append_cons (not_mem_of_isName h.1 hc) h.2
  exact hsides.imp (⟨h.1, ·⟩) (⟨h.1, ·⟩)

theorem not_nameIn_nil (n : String) : ¬ NameIn [] n := fun h =>
  ne_nil_of_isName h.1 (List.infix_nil.mp h.2)

/-! ## Mentions -/

/-- What comes before ends in no letter. -/
def OpenBefore (before : List Char) : Prop := ∀ c ∈ before.getLast?, c.isAlpha = false

/-- What comes after starts with no word character. -/
def OpenAfter (after : List Char) : Prop := ∀ c ∈ after.head?, isNameChar c = false

theorem OpenBefore.nil : OpenBefore [] := nofun

theorem OpenBefore.of_append {a b : List Char} (h : OpenBefore (a ++ b)) : OpenBefore b := by
  intro c hc
  exact h c (by rw [List.getLast?_append, Option.mem_def.mp hc]; rfl)

theorem OpenBefore.append {a b : List Char} (ha : OpenBefore a) (hb : OpenBefore b) :
    OpenBefore (a ++ b) := by
  intro c hc
  rw [List.getLast?_append] at hc
  cases hlast : b.getLast? with
  | none =>
    rw [hlast] at hc
    exact ha c hc
  | some c' =>
    rw [hlast] at hc
    exact hb c (hlast.trans hc)

/-- Only the last of the texts counts if it is not empty. -/
theorem OpenBefore.append_left {b : List Char} (hb : OpenBefore b) (hne : b ≠ []) (a : List Char) :
    OpenBefore (a ++ b) := by
  intro c hc
  rw [List.getLast?_append, List.getLast?_eq_some_getLast hne] at hc
  exact hb c ((List.getLast?_eq_some_getLast hne).trans hc)

theorem OpenBefore.of_forall {a : List Char} (h : ∀ c ∈ a, c.isAlpha = false) : OpenBefore a :=
  fun c hc => h c (List.mem_of_getLast? hc)

theorem OpenBefore.of_isBlank {a : List Char} (h : ∀ c ∈ a, isBlank c = true) : OpenBefore a := by
  refine .of_forall fun c hc => ?_
  cases hletter : c.isAlpha with
  | false => rfl
  | true =>
    have hword := isNameChar_of_isAlpha hletter
    rw [isNameChar_of_isBlank (h c hc)] at hword
    cases hword

theorem OpenAfter.nil : OpenAfter [] := nofun

theorem OpenAfter.append {a b : List Char} (ha : OpenAfter a) (hb : OpenAfter b) :
    OpenAfter (a ++ b) := by
  cases a with
  | nil => exact hb
  | cons c a => exact ha

theorem OpenAfter.of_append {a b : List Char} (h : OpenAfter (a ++ b)) : OpenAfter a := by
  cases a with
  | nil => exact .nil
  | cons c a => exact h

/-- The word is in the text and part of nothing longer. -/
def StandsIn (w s : List Char) : Prop :=
  ∃ before after, s = before ++ w ++ after ∧ OpenBefore before ∧ OpenAfter after

/-- The text has the name where an expression may look it up. -/
def Mentioned (s : List Char) (n : String) : Prop :=
  isName n.toList = true ∧ ('$' :: n.toList <:+: s ∨ StandsIn n.toList s ∧ n ≠ "true")

theorem Mentioned.nameIn {s : List Char} {n : String} (h : Mentioned s n) : NameIn s n := by
  refine ⟨h.1, ?_⟩
  rcases h.2 with h | ⟨⟨before, after, rfl, _⟩, _⟩
  · exact (List.suffix_cons '$' n.toList).isInfix.trans h
  · exact ⟨before, after, rfl⟩

theorem not_mentioned_nil (n : String) : ¬ Mentioned [] n := fun h => not_nameIn_nil n h.nameIn

theorem Mentioned.surround {s before after : List Char} {n : String} (h : Mentioned s n)
    (hbefore : OpenBefore before) (hafter : OpenAfter after) :
    Mentioned (before ++ s ++ after) n := by
  refine ⟨h.1, h.2.imp (fun h => h.trans ⟨before, after, rfl⟩) fun ⟨hstands, hn⟩ => ⟨?_, hn⟩⟩
  obtain ⟨a, b, rfl, ha, hb⟩ := hstands
  exact ⟨before ++ a, b ++ after, by simp only [List.append_assoc], hbefore.append ha,
    hb.append hafter⟩

theorem Mentioned.of_trim {s : List Char} {n : String} (h : Mentioned (trim s) n) :
    Mentioned s n := by
  obtain ⟨before, after, hs, hbefore, hafter⟩ := exists_eq_append_trim s
  rw [hs]
  refine h.surround (.of_isBlank hbefore) fun c hc => ?_
  exact isNameChar_of_isBlank (hafter c (List.mem_of_mem_head? hc))

/-- The character belongs to no name and starts no variable. -/
def separates (c : Char) : Bool := !isNameChar c && c != '$'

theorem separates_iff {c : Char} : separates c = true ↔ isNameChar c = false ∧ c ≠ '$' := by
  simp [separates]

theorem Mentioned.append_cons {s t : List Char} {c : Char} {n : String} (hsep : separates c = true)
    (h : Mentioned (s ++ c :: t) n) : Mentioned s n ∨ Mentioned t n := by
  obtain ⟨hc, hd⟩ := separates_iff.mp hsep
  have hmem := not_mem_of_isName h.1 hc
  rcases h.2 with hvar | ⟨⟨before, after, heq, hb, ha⟩, hn⟩
  · have hmem' : c ∉ '$' :: n.toList := fun hmem' => by
      rcases List.mem_cons.mp hmem' with rfl | hmem'
      · exact hd rfl
      · exact hmem hmem'
    have hsides := infix_append_cons hmem' hvar
    exact hsides.imp (fun h' => ⟨h.1, Or.inl h'⟩) fun h' => ⟨h.1, Or.inl h'⟩
  · rcases append_cons_cases hmem heq.symm with ⟨more, hs, rfl⟩ | ⟨more, ht, rfl⟩
    · exact Or.inl ⟨h.1, Or.inr ⟨⟨before, more, hs, hb, ha.of_append⟩, hn⟩⟩
    · have hmore : OpenBefore more := by
        rw [← List.singleton_append, ← List.append_assoc] at hb
        exact hb.of_append
      exact Or.inr ⟨h.1, Or.inr ⟨⟨more, after, ht, hmore, ha⟩, hn⟩⟩

/-- The characters of `glue` keep apart what stands on its two sides. -/
theorem Mentioned.append_glue {s glue t : List Char} {n : String} (hne : glue ≠ [])
    (hglue : glue.all separates = true) (h : Mentioned (s ++ glue ++ t) n) :
    Mentioned s n ∨ Mentioned t n := by
  induction glue generalizing s with
  | nil => exact absurd rfl hne
  | cons c glue ih =>
    rw [List.all_cons, Bool.and_eq_true] at hglue
    rw [List.append_assoc, List.cons_append] at h
    rcases h.append_cons hglue.1 with h | h
    · exact Or.inl h
    · cases glue with
      | nil => exact Or.inr h
      | cons c' glue =>
        have hmore : Mentioned ([] ++ c' :: glue ++ t) n := h
        exact Or.inr ((ih (List.cons_ne_nil _ _) hglue.2 hmore).resolve_left (not_mentioned_nil n))

/-- In a text of letters only the whole text is part of nothing longer. -/
theorem StandsIn.eq_of_isAlpha {w s : List Char} (h : StandsIn w s)
    (hs : ∀ c ∈ s, c.isAlpha = true) : w = s := by
  obtain ⟨before, after, rfl, hb, ha⟩ := h
  have hbefore : before = [] := by
    cases hlast : before.getLast? with
    | none => exact List.getLast?_eq_none_iff.mp hlast
    | some c =>
      have hc := hs c (by simp [List.mem_of_getLast? hlast])
      rw [hb c hlast] at hc
      cases hc
  have hafter : after = [] := by
    cases after with
    | nil => rfl
    | cons c after =>
      have hc := isNameChar_of_isAlpha (hs c (by simp))
      rw [ha c rfl] at hc
      cases hc
  rw [hbefore, hafter, List.nil_append, List.append_nil]

/-- The word `true` mentions nothing. -/
theorem not_mentioned_true (n : String) : ¬ Mentioned "true".toList n := by
  rintro ⟨_, hvar | ⟨hstands, hn⟩⟩
  · have hmem : '$' ∈ "true".toList := hvar.subset (List.mem_cons_self ..)
    exact absurd hmem (by decide)
  · have hletters : "true".toList.all Char.isAlpha = true := by decide
    exact hn (String.toList_injective (hstands.eq_of_isAlpha (List.all_eq_true.mp hletters)))

end Stencil
