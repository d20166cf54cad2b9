import Stencil.Proofs.Markup.StartTag

/-!
Escaped texts.

An escaped text is safe and reads back as the text it was made from. Every safe text begins with what
some character is written as, so the safe texts are the escaped ones and no others
(`SafeText.exists_escape`). Main statement: `escape_faithful`.
-/

namespace Stencil.Markup

theorem escapeChar_ne_nil (c : Char) : escapeChar c ≠ [] := by
  unfold escapeChar
  split <;> nofun

theorem escape_injective {s t : List Char} (h : escape s = escape t) : s = t := by
  rw [← unescape_escape s, h, unescape_escape]

/-! ## Safe texts -/

theorem SafeText.of_append_right {s t : List Char} (h : SafeText (s ++ t)) : SafeText t where
  no_markup c hc := h.no_markup c (List.mem_append_right s hc)
  entity before rest ht := h.entity (s ++ before) rest (by rw [ht, List.append_assoc])

theorem exists_escapeChar_eq {e : List Char} (he : e ∈ entities) : ∃ c, escapeChar c = e := by
  simp only [entities, List.mem_cons, List.not_mem_nil, or_false] at he
  rcases he with rfl | rfl | rfl | rfl | rfl
  · exact ⟨'&', rfl⟩
  · exact ⟨'<', rfl⟩
  · exact ⟨'>', rfl⟩
  · exact ⟨'"', rfl⟩
  · exact ⟨'\'', rfl⟩

/-- A safe text begins with what some character is written as. -/
theorem SafeText.exists_front {c : Char} {cs : List Char} (h : SafeText (c :: cs)) :
    ∃ d rest, c :: cs = escapeChar d ++ rest := by
  by_cases hamp : c = '&'
  · subst hamp
    obtain ⟨e, he, rest, hrest⟩ := h.entity [] cs rfl
    obtain ⟨d, rfl⟩ := exists_escapeChar_eq he
    exact ⟨d, rest, hrest.symm⟩
  · obtain ⟨hlt, hgt, hquot, hapos⟩ := h.no_markup c List.mem_cons_self
    have hself : escapeChar c = [c] := by rw [escapeChar] <;> assumption
    exact ⟨c, cs, by rw [hself, List.singleton_append]⟩

/-- Safe texts are escaped ones. The induction is on the length, for the front may be an entity. -/
theorem SafeText.exists_escape {t : List Char} (h : SafeText t) : ∃ s, escape s = t := by
  induction hn : t.length using Nat.strongRecOn generalizing t with
  | _ n ih =>
    cases t with
    | nil => exact ⟨[], rfl⟩
    | cons c cs =>
      obtain ⟨d, rest, hfront⟩ := h.exists_front
      rw [hfront] at h hn ⊢
      have hlt : rest.length < n := by
        have hpos := List.length_pos_iff.mpr (escapeChar_ne_nil d)
        rw [← hn, List.length_append]
        omega
      obtain ⟨s, rfl⟩ := ih rest.length hlt h.of_append_right rfl
      exact ⟨d :: s, escape_cons d s⟩

theorem safeText_iff {t : List Char} : SafeText t ↔ escape (unescape t) = t := by
  constructor
  · intro h
    obtain ⟨s, rfl⟩ := h.exists_escape
    rw [unescape_escape]
  · intro h
    rw [← h]
    exact safeText_escape _

/-- **Escaping loses nothing and leaves no markup.** For every text: its escape has no angle bracket
and no quote, and each ampersand in it starts an entity. Reading the entities once from left to right
gives the text back, also where it looks like an escaped one itself and whatever follows, so no other
text has the same escape. Two texts together are escaped as each of them is. The other way round, the
texts without markup are exactly those that escaping what they read as gives back. -/
theorem escape_faithful (s : List Char) :
    SafeText (escape s) ∧ unescape (escape s) = s ∧
    (∀ t, unescape (escape s ++ t) = s ++ unescape t) ∧ (∀ t, escape s = escape t ↔ s = t) ∧
    (∀ t, escape (s ++ t) = escape s ++ escape t) ∧ ∀ t, SafeText t ↔ escape (unescape t) = t :=
  ⟨safeText_escape s, unescape_escape s, unescape_escape_append s,
    fun _ => ⟨escape_injective, congrArg escape⟩, escape_append s, fun _ => safeText_iff⟩

end Stencil.Markup
