import Mathlib.Data.List.Basic
import Stencil.Proofs.Template.AttributeValue
import Stencil.Proofs.Template.Reading

/-!
The four forms of a loop header, read back from what is written.

The main part is about the places where a word stands between white space: text without white space
holds a word or nothing (`wordSplits_word`), white space cuts the places of a text in two
(`wordSplits_append`). So the word `in` of a header is found at its first place, in front of any
collection, and the word `as` at its last, behind it. A header with `as` is only read as such when
no `in` is found, so its collection must have no `in` between white space (`Delimited`).

A loop variable may be called `in` or `as` itself. With a dollar sign it is never taken for the
word; without one it is where white space follows it: as the second variable in front of `in`, and
as the key behind `as`, there in upper case too.
-/

namespace Stencil.LoopHeader

/-! ## White space -/

theorem isBlank_of_isSpace {c : Char} (h : isSpace c = true) : isBlank c = true := by
  simp only [isSpace, Bool.or_eq_true, beq_iff_eq] at h
  rcases h with (((rfl | rfl) | rfl) | rfl) | rfl <;> rfl

/-- There is no white space in the text. -/
def Solid (w : List Char) : Prop := ∀ c ∈ w, isSpace c = false

theorem solid_iff {w : List Char} : Solid w ↔ w.any isSpace = false := by simp [Solid]

theorem solid_of_forall_isBlank {w : List Char} (h : ∀ c ∈ w, isBlank c = false) : Solid w := by
  intro c hc
  cases hspace : isSpace c with
  | false => rfl
  | true => exact absurd (isBlank_of_isSpace hspace) (by simp [h c hc])

theorem Solid.of_cons {c : Char} {w : List Char} (h : Solid (c :: w)) :
    isSpace c = false ∧ Solid w := List.forall_mem_cons.mp h

/-! ## Places where a word stands -/

section Words

variable {isWord : List Char → Bool} {size : Nat} {before w s : List Char}

theorem mem_wordSplits {passed : List Char} {p : List Char × List Char}
    (h : p ∈ wordSplits isWord size passed s) :
    ∃ w, passed.reverse ++ s = p.1 ++ w ++ p.2 ∧ isWord w = true ∧
      p.1.getLast?.any isSpace = true ∧ p.2.head?.any isSpace = true := by
  induction s generalizing passed with
  | nil => cases h
  | cons c cs ih =>
    have hmore : p ∈ wordSplits isWord size (c :: passed) cs →
        ∃ w, passed.reverse ++ c :: cs = p.1 ++ w ++ p.2 ∧ isWord w = true ∧
          p.1.getLast?.any isSpace = true ∧ p.2.head?.any isSpace = true := by
      intro h
      have := ih h
      rwa [List.reverse_cons, List.append_assoc, List.singleton_append] at this
    rw [wordSplits] at h
    split at h
    · next hhit =>
      rcases List.mem_cons.mp h with rfl | h
      · rw [Bool.and_eq_true, Bool.and_eq_true] at hhit
        refine ⟨(c :: cs).take size, ?_, hhit.1.2, ?_, hhit.2⟩
        · rw [List.append_assoc, List.take_append_drop]
        · rw [List.getLast?_reverse]
          exact hhit.1.1
      · exact hmore h
    · exact hmore h

theorem exists_mem_wordSplits {after passed : List Char} (hw : isWord w = true) (hne : w ≠ [])
    (hafter : after.head?.any isSpace = true)
    (hbefore : (passed.reverse ++ before).getLast?.any isSpace = true) :
    ∃ p, p ∈ wordSplits isWord w.length passed (before ++ w ++ after) := by
  induction before generalizing passed with
  | nil =>
    cases w with
    | nil => exact absurd rfl hne
    | cons c w =>
      rw [List.append_nil, List.getLast?_reverse] at hbefore
      have htake : ((c :: w) ++ after).take (c :: w).length = c :: w := List.take_left
      have hdrop : ((c :: w) ++ after).drop (c :: w).length = after := List.drop_left
      rw [List.cons_append] at htake hdrop
      rw [List.nil_append, List.cons_append, wordSplits, htake, hdrop, hbefore, hw, hafter]
      exact ⟨_, List.mem_cons_self⟩
  | cons c before ih =>
    have hmore : ∃ p, p ∈ wordSplits isWord w.length (c :: passed) (before ++ w ++ after) :=
      ih (by simpa using hbefore)
    obtain ⟨p, hp⟩ := hmore
    rw [List.cons_append, List.cons_append, wordSplits]
    split
    · exact ⟨p, List.mem_cons_of_mem _ hp⟩
    · exact ⟨p, hp⟩

/-- After a character that is no white space no word begins up to the next white space. -/
theorem wordSplits_inside (hbefore : before.head?.any isSpace = false) (hw : Solid w) :
    wordSplits isWord size before (w ++ ' ' :: s) =
      wordSplits isWord size (' ' :: (w.reverse ++ before)) s := by
  induction w generalizing before with
  | nil =>
    rw [List.nil_append, wordSplits, hbefore]
    rfl
  | cons c w ih =>
    obtain ⟨hc, hw⟩ := hw.of_cons
    have hhead : (c :: before).head?.any isSpace = false := hc
    rw [List.cons_append, wordSplits, hbefore, Bool.false_and, Bool.false_and,
      if_neg Bool.false_ne_true, ih hhead hw]
    simp

/-- Nothing stands behind the last word. -/
theorem wordSplits_last (hw : Solid w) : wordSplits isWord size before w = [] := by
  induction w generalizing before with
  | nil => rfl
  | cons c w ih =>
    have hafter : ((c :: w).drop size).head?.any isSpace = false := by
      cases hdrop : (c :: w).drop size with
      | nil => rfl
      | cons d r => exact hw d (List.mem_of_mem_drop (hdrop ▸ List.mem_cons_self))
    rw [wordSplits, hafter, Bool.and_false, if_neg Bool.false_ne_true, ih hw.of_cons.2]

/-- The words that are looked for have this size and no white space in them. -/
def Accepts (isWord : List Char → Bool) (size : Nat) : Prop :=
  ∀ w, isWord w = true → w.length = size ∧ Solid w

variable (hword : Accepts isWord size)
include hword

/-- A word does not go beyond white space. -/
theorem size_le_of_isWord {r : List Char} (h : isWord ((r ++ ' ' :: s).take size) = true) :
    size ≤ r.length := by
  by_contra hlong
  have hspace : ' ' ∈ (r ++ ' ' :: s).take size := by
    rw [List.take_append, List.take_of_length_le (by omega), List.mem_append]
    obtain ⟨n, hn⟩ : ∃ n, size - r.length = n + 1 := ⟨size - r.length - 1, by omega⟩
    rw [hn, List.take_succ_cons]
    exact Or.inr List.mem_cons_self
  have hsolid := (hword _ h).2 ' ' hspace
  revert hsolid
  decide

/-- Between white space stands one word, and no shorter one. -/
theorem isWord_take_and (hw : Solid w) :
    (isWord ((w ++ ' ' :: s).take size) && ((w ++ ' ' :: s).drop size).head?.any isSpace) =
      isWord w := by
  cases h : isWord w with
  | true =>
    have hlength : size = w.length := (hword w h).1.symm
    rw [hlength, List.take_left, List.drop_left, h]
    rfl
  | false =>
    rw [Bool.and_eq_false_imp]
    intro htake
    have hle := size_le_of_isWord hword htake
    have hlt : size < w.length := by
      refine Nat.lt_of_le_of_ne hle fun heq => ?_
      rw [heq, List.take_left, h] at htake
      cases htake
    have hdrop := List.drop_eq_getElem_cons hlt
    rw [List.drop_append_of_le_length hle, hdrop]
    exact hw _ (List.getElem_mem hlt)

/-- A text between white space is one of the words, or no word begins in it. -/
theorem wordSplits_word (hw : Solid w) (hne : w ≠ []) :
    wordSplits isWord size before (w ++ ' ' :: s) =
      (if before.head?.any isSpace && isWord w then [(before.reverse, ' ' :: s)] else []) ++
        wordSplits isWord size (' ' :: (w.reverse ++ before)) s := by
  have htake := isWord_take_and hword (s := s) hw
  cases w with
  | nil => exact absurd rfl hne
  | cons c w =>
    have hhead : (c :: before).head?.any isSpace = false := hw.of_cons.1
    have hmore : wordSplits isWord size (c :: before) (w ++ ' ' :: s) = _ :=
      wordSplits_inside hhead hw.of_cons.2
    rw [List.cons_append] at htake
    rw [List.cons_append, wordSplits, Bool.and_assoc, htake, hmore]
    split
    · next hhit =>
      have hlength : (c :: w).length = size := (hword _ (Bool.and_eq_true_iff.mp hhit).2).1
      rw [← List.cons_append, ← hlength, List.drop_left]
      simp
    · simp

/-- Whether a word stands at the front of a text is decided up to the next white space. -/
theorem isWord_take_and_append (r s : List Char) :
    (isWord ((r ++ ' ' :: s).take size) && ((r ++ ' ' :: s).drop size).head?.any isSpace) =
      (isWord ((r ++ [' ']).take size) && ((r ++ [' ']).drop size).head?.any isSpace) := by
  by_cases hle : size ≤ r.length
  · rw [List.take_append_of_le_length hle, List.take_append_of_le_length hle,
      List.drop_append_of_le_length hle, List.drop_append_of_le_length hle]
    cases r.drop size <;> rfl
  · have hnone : ∀ t, isWord ((r ++ ' ' :: t).take size) = false := fun t =>
      Bool.eq_false_iff.mpr fun h => hle (size_le_of_isWord hword h)
    rw [hnone, hnone, Bool.false_and, Bool.false_and]

/-- White space cuts the places of a text into those in front of it and those behind it. -/
theorem wordSplits_append (hsize : 0 < size) (e : List Char) :
    wordSplits isWord size before (e ++ ' ' :: s) =
      (wordSplits isWord size before (e ++ [' '])).map (fun p => (p.1, p.2 ++ s)) ++
        wordSplits isWord size (' ' :: (e.reverse ++ before)) s := by
  induction e generalizing before with
  | nil =>
    have hnone : ∀ t, isWord ((' ' :: t).take size) = false := fun t =>
      Bool.eq_false_iff.mpr fun h =>
        absurd (size_le_of_isWord hword (r := []) h) (Nat.not_le.mpr hsize)
    simp [wordSplits, hnone]
  | cons c e ih =>
    have hfront := isWord_take_and_append hword (c :: e) s
    rw [List.cons_append, List.cons_append] at hfront
    rw [List.cons_append, List.cons_append, wordSplits, wordSplits, Bool.and_assoc, Bool.and_assoc,
      hfront, ih]
    split
    · next hhit =>
      have htake := (Bool.and_eq_true_iff.mp (Bool.and_eq_true_iff.mp hhit).2).1
      have hle := size_le_of_isWord hword (r := c :: e) htake
      have hdrop : ∀ t, (c :: (e ++ ' ' :: t)).drop size = (c :: e).drop size ++ ' ' :: t :=
        fun t => List.drop_append_of_le_length hle
      simp [hdrop]
    · simp

/-- A word that is looked for, with white space on both sides. -/
theorem wordSplits_keyword (hsize : 0 < size) (hw : isWord w = true) :
    wordSplits isWord size (' ' :: before) (w ++ ' ' :: s) =
      ((' ' :: before).reverse, ' ' :: s) ::
        wordSplits isWord size (' ' :: (w.reverse ++ ' ' :: before)) s := by
  obtain ⟨hlength, hsolid⟩ := hword w hw
  have hne : w ≠ [] := by
    rintro rfl
    exact absurd hlength (Nat.ne_of_lt hsize)
  have hspace : (' ' :: before).head?.any isSpace = true := rfl
  rw [wordSplits_word hword hsolid hne, hspace, hw]
  rfl

end Words

theorem accepts_in : Accepts (· == ['i', 'n']) 2 := by
  intro w hw
  obtain rfl : w = ['i', 'n'] := beq_iff_eq.mp hw
  exact ⟨rfl, solid_iff.mpr rfl⟩

theorem accepts_as : Accepts (sameWord · ['a', 's']) 2 := by
  intro w hw
  have hlower : lowerAscii w = ['a', 's'] := beq_iff_eq.mp hw
  have hname : isName w = true := isName_of_sameWord (List.cons_ne_nil _ _) (by decide) hw
  refine ⟨?_, solid_of_forall_isBlank fun c hc => ?_⟩
  · have hlength := congrArg List.length hlower
    rwa [lowerAscii, List.length_map] at hlength
  · exact Bool.eq_false_iff.mpr (not_isBlank_of_isNameChar (isNameChar_of_mem hname hc))

/-! ## Loop variables -/

/-- A loop variable as it is written: a name, with or without a dollar sign in front. -/
structure WrittenName where
  name : List Char
  isName_name : isName name = true
  dollar : Bool

namespace WrittenName

def text (x : WrittenName) : List Char := if x.dollar then '$' :: x.name else x.name

theorem text_ne_nil (x : WrittenName) : x.text ≠ [] := by
  unfold text
  split
  · exact List.cons_ne_nil _ _
  · exact ne_nil_of_isName x.isName_name

theorem not_mem_text (x : WrittenName) {c : Char} (hc : isNameChar c = false) (hne : c ≠ '$') :
    c ∉ x.text := by
  have hname := not_mem_of_isName x.isName_name hc
  unfold text
  split
  · rw [List.mem_cons, not_or]
    exact ⟨hne, hname⟩
  · exact hname

theorem isBlank_of_mem_text (x : WrittenName) {c : Char} (hc : c ∈ x.text) : isBlank c = false := by
  cases hblank : isBlank c with
  | false => rfl
  | true =>
    refine absurd hc (x.not_mem_text (isNameChar_of_isBlank hblank) ?_)
    rintro rfl
    revert hblank
    decide

theorem solid_text (x : WrittenName) : Solid x.text :=
  solid_of_forall_isBlank fun _ => x.isBlank_of_mem_text

theorem trim_text (x : WrittenName) : trim x.text = x.text :=
  trim_of_forall fun _ => x.isBlank_of_mem_text

theorem bindingName?_text (x : WrittenName) {before after : List Char}
    (hbefore : ∀ c ∈ before, isBlank c = true) (hafter : ∀ c ∈ after, isBlank c = true) :
    bindingName? (before ++ x.text ++ after) = some (String.ofList x.name) := by
  have htrim : trim (before ++ x.text ++ after) = x.text := by
    rw [trim_append_of_isBlank_right hafter, trim_append_of_isBlank_left hbefore, x.trim_text]
  have hdollar : '$' ∉ x.name := not_mem_of_isName x.isName_name (by decide)
  unfold bindingName?
  dsimp only
  rw [htrim]
  split
  · next name htext =>
    cases h : x.dollar with
    | true =>
      rw [text, h, if_pos rfl] at htext
      cases htext
      rw [if_pos x.isName_name]
    | false =>
      rw [text, h, if_neg Bool.false_ne_true] at htext
      exact absurd (htext ▸ List.mem_cons_self) hdollar
  · next htext =>
    cases h : x.dollar with
    | true =>
      rw [text, h, if_pos rfl] at htext
      exact absurd rfl (htext _)
    | false => rw [text, h, if_neg Bool.false_ne_true, if_pos x.isName_name]

end WrittenName

/-! ## The parts of a header -/

variable {e iterable : List Char}

theorem make?_value (he : e ≠ []) (hiterable : trim iterable = e) {value : List Char} {v : String}
    (hvalue : bindingName? value = some v) :
    make? none value iterable = some ⟨none, v, e⟩ := by
  have hsome : e.isEmpty = false := by simpa using he
  simp [make?, hiterable, hsome, hvalue]

theorem make?_pair (he : e ≠ []) (hiterable : trim iterable = e) {key value : List Char}
    {k v : String} (hkey : bindingName? key = some k) (hvalue : bindingName? value = some v) :
    make? (some key) value iterable = some ⟨some k, v, e⟩ := by
  have hsome : e.isEmpty = false := by simpa using he
  simp [make?, hiterable, hsome, hkey, hvalue]

theorem isBlank_space : ∀ c ∈ [' '], isBlank c = true := List.forall_mem_singleton.mpr rfl

theorem isBlank_none : ∀ c ∈ ([] : List Char), isBlank c = true := List.forall_mem_nil _

theorem trim_space_append (htrim : trim e = e) : trim (' ' :: e) = e :=
  (trim_append_of_isBlank_left isBlank_space e).trans htrim

theorem trim_append_space (htrim : trim e = e) : trim (e ++ [' ']) = e :=
  (trim_append_of_isBlank_right isBlank_space e).trans htrim

/-! ## The forms with the word in -/

theorem ofIn?_value (x : WrittenName) (he : e ≠ []) (htrim : trim e = e) :
    ofIn? (x.text ++ " in ".toList ++ e) = some ⟨none, String.ofList x.name, e⟩ := by
  have htext : x.text ++ " in ".toList ++ e = x.text ++ ' ' :: (['i', 'n'] ++ ' ' :: e) := by simp
  have hsplits : (wordSplits (· == ['i', 'n']) 2 [] (x.text ++ " in ".toList ++ e)).head? =
      some (x.text ++ [' '], ' ' :: e) := by
    rw [htext, wordSplits_word accepts_in x.solid_text x.text_ne_nil,
      wordSplits_keyword accepts_in (by decide) rfl]
    simp
  have hcomma : ',' ∉ x.text ++ [' '] := by
    have := x.not_mem_text (c := ',') (by decide) (by decide)
    simpa using this
  have hname : bindingName? (x.text ++ [' ']) = some (String.ofList x.name) :=
    x.bindingName?_text isBlank_none isBlank_space
  rw [ofIn?, hsplits]
  simp only [splitOnce_of_not_mem hcomma, make?_value he (trim_space_append htrim) hname]

theorem ofIn?_pair (k v : WrittenName) (hv : v.text ≠ "in".toList) (he : e ≠ [])
    (htrim : trim e = e) :
    ofIn? (k.text ++ ", ".toList ++ v.text ++ " in ".toList ++ e) =
      some ⟨some (String.ofList k.name), String.ofList v.name, e⟩ := by
  have htext : k.text ++ ", ".toList ++ v.text ++ " in ".toList ++ e =
      (k.text ++ [',']) ++ ' ' :: (v.text ++ ' ' :: (['i', 'n'] ++ ' ' :: e)) := by simp
  have hfirst : Solid (k.text ++ [',']) := by
    intro c hc
    rcases List.mem_append.mp hc with hc | hc
    · exact k.solid_text c hc
    · rw [List.mem_singleton.mp hc]
      rfl
  have hin : (v.text == ['i', 'n']) = false := by simpa using hv
  have hsplits :
      (wordSplits (· == ['i', 'n']) 2 []
        (k.text ++ ", ".toList ++ v.text ++ " in ".toList ++ e)).head? =
      some (k.text ++ ',' :: (' ' :: v.text ++ [' ']), ' ' :: e) := by
    rw [htext, wordSplits_word accepts_in hfirst (by simp),
      wordSplits_word accepts_in v.solid_text v.text_ne_nil, hin,
      wordSplits_keyword accepts_in (by decide) rfl]
    simp
  have hcomma : ',' ∉ k.text := k.not_mem_text (by decide) (by decide)
  have hkey : bindingName? k.text = some (String.ofList k.name) := by
    have := k.bindingName?_text isBlank_none isBlank_none
    simpa using this
  have hvalue : bindingName? (' ' :: v.text ++ [' ']) = some (String.ofList v.name) :=
    v.bindingName?_text isBlank_space isBlank_space
  rw [ofIn?, hsplits]
  simp only [splitOnce_append hcomma, make?_pair he (trim_space_append htrim) hkey hvalue]

/-! ## The forms with the word as -/

/-- The word stands in the text with white space in front and, unless it ends the text, white space
behind it. -/
def Delimited (word s : List Char) : Prop :=
  ∃ before after, s = before ++ word ++ after ∧ before.getLast?.any isSpace = true ∧
    (after = [] ∨ after.head?.any isSpace = true)

/-- The words delimited in a text are those that are found in it when more text follows. -/
theorem not_delimited_iff {word : List Char} (hne : word ≠ []) :
    ¬ Delimited word e ↔ wordSplits (· == word) word.length [] (e ++ [' ']) = [] := by
  rw [List.eq_nil_iff_forall_not_mem, ← not_exists]
  refine not_congr ⟨?_, ?_⟩
  · rintro ⟨before, after, rfl, hbefore, hafter⟩
    have hspace : (after ++ [' ']).head?.any isSpace = true := by
      rcases hafter with rfl | hafter
      · rfl
      · cases after with
        | nil => cases hafter
        | cons c after => exact hafter
    have hfound : ∃ p, p ∈ wordSplits (· == word) word.length []
        (before ++ word ++ (after ++ [' '])) :=
      exists_mem_wordSplits (beq_self_eq_true word) hne hspace hbefore
    rwa [← List.append_assoc] at hfound
  · rintro ⟨⟨before, after⟩, hp⟩
    obtain ⟨w, htext, hw, hbefore, hafter⟩ := mem_wordSplits hp
    obtain rfl : w = word := beq_iff_eq.mp hw
    rw [List.reverse_nil, List.nil_append] at htext
    rcases List.eq_nil_or_concat after with rfl | ⟨after, d, rfl⟩
    · cases hafter
    · rw [List.concat_eq_append, ← List.append_assoc] at htext
      refine ⟨before, after, List.append_inj_left' htext rfl, hbefore, ?_⟩
      cases after with
      | nil => exact Or.inl rfl
      | cons c after => exact Or.inr hafter

/-- No word is found in the variables of a pair, unless the key is one. -/
theorem wordSplits_pair {isWord : List Char → Bool} {size : Nat} (hword : Accepts isWord size)
    (harrow : isWord ['=', '>'] = false) (k v : WrittenName) (hk : isWord k.text = false)
    (before : List Char) :
    wordSplits isWord size before (k.text ++ ' ' :: (['=', '>'] ++ ' ' :: v.text)) = [] := by
  have hsolid : Solid ['=', '>'] := solid_iff.mpr rfl
  rw [wordSplits_word hword k.solid_text k.text_ne_nil, hk,
    wordSplits_word hword hsolid (List.cons_ne_nil _ _), harrow, wordSplits_last v.solid_text]
  simp

variable {keyword rest : List Char} (hkeyword : sameWord keyword ['a', 's'] = true)
include hkeyword

theorem ofIn?_as (hin : ¬ Delimited "in".toList e)
    (hrest : ∀ before, wordSplits (· == ['i', 'n']) 2 before rest = []) :
    ofIn? (e ++ ' ' :: (keyword ++ ' ' :: rest)) = none := by
  obtain ⟨hlength, hsolid⟩ := accepts_as keyword hkeyword
  have hne : keyword ≠ [] := List.ne_nil_of_length_pos (by omega)
  have hother : (keyword == ['i', 'n']) = false := by
    refine beq_eq_false_iff_ne.mpr ?_
    rintro rfl
    revert hkeyword
    decide
  have hfront : wordSplits (· == ['i', 'n']) 2 [] (e ++ [' ']) = [] :=
    (not_delimited_iff (by decide)).mp hin
  rw [ofIn?, wordSplits_append accepts_in (by decide), hfront,
    wordSplits_word accepts_in hsolid hne, hother, hrest]
  simp

/-- The last place of the word `as` is the one behind the collection. -/
theorem getLast?_wordSplits_as
    (hrest : ∀ before, wordSplits (sameWord · ['a', 's']) 2 before rest = []) :
    (wordSplits (sameWord · ['a', 's']) 2 [] (e ++ ' ' :: (keyword ++ ' ' :: rest))).getLast? =
      some (e ++ [' '], ' ' :: rest) := by
  rw [wordSplits_append accepts_as (by decide), wordSplits_keyword accepts_as (by decide) hkeyword,
    hrest, List.getLast?_concat]
  simp

theorem ofAs?_value (x : WrittenName) (he : e ≠ []) (htrim : trim e = e) :
    ofAs? (e ++ ' ' :: (keyword ++ ' ' :: x.text)) = some ⟨none, String.ofList x.name, e⟩ := by
  have hlast := getLast?_wordSplits_as (e := e) hkeyword fun _ => wordSplits_last x.solid_text
  have harrow : '=' ∉ ' ' :: x.text := by
    have := x.not_mem_text (c := '=') (by decide) (by decide)
    simpa using this
  have hname : bindingName? (' ' :: x.text) = some (String.ofList x.name) := by
    have := x.bindingName?_text isBlank_space isBlank_none
    simpa using this
  rw [ofAs?, hlast]
  simp only [splitOnceText_of_not_mem harrow, make?_value he (trim_append_space htrim) hname]

theorem ofAs?_pair (k v : WrittenName) (hk : sameWord k.text ['a', 's'] = false) (he : e ≠ [])
    (htrim : trim e = e) :
    ofAs? (e ++ ' ' :: (keyword ++ ' ' :: (k.text ++ ' ' :: (['=', '>'] ++ ' ' :: v.text)))) =
      some ⟨some (String.ofList k.name), String.ofList v.name, e⟩ := by
  have hlast := getLast?_wordSplits_as (e := e) hkeyword
    (wordSplits_pair accepts_as (by decide) k v hk)
  have harrow : '=' ∉ ' ' :: k.text ++ [' '] := by
    have := k.not_mem_text (c := '=') (by decide) (by decide)
    simpa using this
  have hsplit : splitOnceText ['=', '>']
      (' ' :: (k.text ++ ' ' :: (['=', '>'] ++ ' ' :: v.text))) =
        some (' ' :: k.text ++ [' '], ' ' :: v.text) := by
    have := splitOnceText_append harrow ['>'] (' ' :: v.text)
    simpa using this
  have hkey : bindingName? (' ' :: k.text ++ [' ']) = some (String.ofList k.name) :=
    k.bindingName?_text isBlank_space isBlank_space
  have hvalue : bindingName? (' ' :: v.text) = some (String.ofList v.name) := by
    have := v.bindingName?_text isBlank_space isBlank_none
    simpa using this
  rw [ofAs?, hlast]
  simp only [hsplit, make?_pair he (trim_append_space htrim) hkey hvalue]

omit hkeyword

/-! ## Names without a dollar sign -/

theorem isName_of_bindingName? {s : List Char} {n : String} (h : bindingName? s = some n) :
    isName n.toList = true := by
  unfold bindingName? at h
  dsimp only at h
  split at h
  all_goals
    split at h
    · next hname =>
      cases h
      rwa [String.toList_ofList]
    · cases h

theorem isName_of_make? {key? : Option (List Char)} {value : List Char} {header : LoopHeader}
    (h : make? key? value iterable = some header) :
    isName header.value.toList = true ∧ ∀ key ∈ header.key, isName key.toList = true := by
  unfold make? at h
  dsimp only at h
  split at h
  · cases h
  split at h
  · obtain ⟨v, hv, rfl⟩ := Option.map_eq_some_iff.mp h
    exact ⟨isName_of_bindingName? hv, by simp⟩
  · split at h
    · next hk hv =>
      cases h
      refine ⟨isName_of_bindingName? hv, fun key hkey => ?_⟩
      cases hkey
      exact isName_of_bindingName? hk
    · cases h

/-- Whatever the header is, its variables are names. -/
theorem isName_of_ofText? {s : List Char} {header : LoopHeader} (h : ofText? s = some header) :
    isName header.value.toList = true ∧ ∀ key ∈ header.key, isName key.toList = true := by
  have hIn : ∀ header, ofIn? (trim s) = some header →
      isName header.value.toList = true ∧ ∀ key ∈ header.key, isName key.toList = true := by
    intro header h
    unfold ofIn? at h
    split at h
    · cases h
    · split at h <;> exact isName_of_make? h
  have hAs : ofAs? (trim s) = some header →
      isName header.value.toList = true ∧ ∀ key ∈ header.key, isName key.toList = true := by
    intro h
    unfold ofAs? at h
    split at h
    · cases h
    · split at h <;> exact isName_of_make? h
  unfold ofText? at h
  dsimp only at h
  split at h
  · next hin =>
    cases h
    exact hIn _ hin
  · exact hAs h

/-! ## Headers -/

section Headers

variable {s : List Char}

theorem ofText?_of_ofIn? (htrim : trim s = s) {header : LoopHeader} (h : ofIn? s = some header) :
    ofText? s = some header := by
  simp only [ofText?, htrim, h]

theorem ofText?_of_ofIn?_none (htrim : trim s = s) (h : ofIn? s = none) : ofText? s = ofAs? s := by
  simp only [ofText?, htrim, h]

end Headers

theorem ofText?_in_value (x : WrittenName) (he : e ≠ []) (htrim : trim e = e) :
    ofText? (x.text ++ " in ".toList ++ e) = some ⟨none, String.ofList x.name, e⟩ :=
  ofText?_of_ofIn? (trim_append_append x.trim_text x.text_ne_nil htrim he _)
    (ofIn?_value x he htrim)

theorem ofText?_in_pair (k v : WrittenName) (hv : v.text ≠ "in".toList) (he : e ≠ [])
    (htrim : trim e = e) :
    ofText? (k.text ++ ", ".toList ++ v.text ++ " in ".toList ++ e) =
      some ⟨some (String.ofList k.name), String.ofList v.name, e⟩ := by
  refine ofText?_of_ofIn? ?_ (ofIn?_pair k v hv he htrim)
  have := trim_append_append k.trim_text k.text_ne_nil htrim he
    (", ".toList ++ v.text ++ " in ".toList)
  simpa using this

theorem ofText?_as_value (x : WrittenName) (he : e ≠ []) (htrim : trim e = e)
    (hkeyword : sameWord keyword "as".toList = true) (hin : ¬ Delimited "in".toList e) :
    ofText? (e ++ " ".toList ++ keyword ++ " ".toList ++ x.text) =
      some ⟨none, String.ofList x.name, e⟩ := by
  have hassoc : e ++ " ".toList ++ keyword ++ " ".toList ++ x.text =
      e ++ ' ' :: (keyword ++ ' ' :: x.text) := by simp
  have hwhole : trim (e ++ ' ' :: (keyword ++ ' ' :: x.text)) =
      e ++ ' ' :: (keyword ++ ' ' :: x.text) := by
    have := trim_append_append htrim he x.trim_text x.text_ne_nil
      (" ".toList ++ keyword ++ " ".toList)
    simpa using this
  rw [hassoc, ofText?_of_ofIn?_none hwhole
    (ofIn?_as hkeyword hin fun _ => wordSplits_last x.solid_text)]
  exact ofAs?_value hkeyword x he htrim

theorem ofText?_as_pair (k v : WrittenName) (he : e ≠ []) (htrim : trim e = e)
    (hkeyword : sameWord keyword "as".toList = true) (hin : ¬ Delimited "in".toList e)
    (has : sameWord k.text "as".toList = false) (hk : k.text ≠ "in".toList) :
    ofText? (e ++ " ".toList ++ keyword ++ " ".toList ++ k.text ++ " => ".toList ++ v.text) =
      some ⟨some (String.ofList k.name), String.ofList v.name, e⟩ := by
  have hassoc : e ++ " ".toList ++ keyword ++ " ".toList ++ k.text ++ " => ".toList ++ v.text =
      e ++ ' ' :: (keyword ++ ' ' :: (k.text ++ ' ' :: (['=', '>'] ++ ' ' :: v.text))) := by simp
  have hwhole : trim (e ++ ' ' :: (keyword ++ ' ' :: (k.text ++ ' ' :: (['=', '>'] ++
      ' ' :: v.text)))) =
      e ++ ' ' :: (keyword ++ ' ' :: (k.text ++ ' ' :: (['=', '>'] ++ ' ' :: v.text))) := by
    have := trim_append_append htrim he v.trim_text v.text_ne_nil
      (" ".toList ++ keyword ++ " ".toList ++ k.text ++ " => ".toList)
    simpa using this
  have hother : (k.text == ['i', 'n']) = false := by simpa using hk
  rw [hassoc, ofText?_of_ofIn?_none hwhole
    (ofIn?_as hkeyword hin (wordSplits_pair accepts_in (by decide) k v hother))]
  exact ofAs?_pair hkeyword k v has he htrim

/-- **The four forms are read back.** The variables and the collection of a header come out as they
were written in, whatever words stand in the collection: the word `in` counts at its first place and
the word `as` at its last. In any header the variables come out without a dollar sign. -/
theorem ofText?_forms (he : e ≠ []) (htrim : trim e = e) (k v : WrittenName)
    (hkeyword : sameWord keyword "as".toList = true) :
    ofText? (v.text ++ " in ".toList ++ e) = some ⟨none, String.ofList v.name, e⟩ ∧
      (v.text ≠ "in".toList →
        ofText? (k.text ++ ", ".toList ++ v.text ++ " in ".toList ++ e) =
          some ⟨some (String.ofList k.name), String.ofList v.name, e⟩) ∧
      (¬ Delimited "in".toList e →
        ofText? (e ++ " ".toList ++ keyword ++ " ".toList ++ v.text) =
            some ⟨none, String.ofList v.name, e⟩ ∧
          (sameWord k.text "as".toList = false → k.text ≠ "in".toList →
            ofText?
                (e ++ " ".toList ++ keyword ++ " ".toList ++ k.text ++ " => ".toList ++ v.text) =
              some ⟨some (String.ofList k.name), String.ofList v.name, e⟩)) ∧
      ∀ s header, ofText? s = some header →
        '$' ∉ header.value.toList ∧ ∀ key ∈ header.key, '$' ∉ key.toList := by
  refine ⟨ofText?_in_value v he htrim, fun hv => ofText?_in_pair k v hv he htrim,
    fun hin => ⟨ofText?_as_value v he htrim hkeyword hin, fun has hk =>
      ofText?_as_pair k v he htrim hkeyword hin has hk⟩, fun s header h => ?_⟩
  obtain ⟨hvalue, hkey⟩ := isName_of_ofText? h
  exact ⟨not_mem_of_isName hvalue (by decide), fun key hmem =>
    not_mem_of_isName (hkey key hmem) (by decide)⟩

theorem ofText?_forms_pairs :
    let e := "pairs as k => v, bin as xs".toList
    e ≠ [] ∧ trim e = e ∧ ¬ Delimited "in".toList e ∧
      ofText? "$k, row in pairs as k => v, bin as xs".toList = some ⟨some "k", "row", e⟩ ∧
      ofText? "pairs as k => v, bin as xs aS $k => row".toList = some ⟨some "k", "row", e⟩ := by
  have hkeyword : sameWord "aS".toList "as".toList = true := by decide
  have hin : ¬ Delimited "in".toList "pairs as k => v, bin as xs".toList :=
    (not_delimited_iff (by decide)).mpr (by decide)
  obtain ⟨-, hpair, has, -⟩ := ofText?_forms (e := "pairs as k => v, bin as xs".toList) (by decide)
    (by decide) ⟨"k".toList, by decide, true⟩ ⟨"row".toList, by decide, false⟩ hkeyword
  exact ⟨by decide, by decide, hin, hpair (by decide), (has hin).2 (by decide) (by decide)⟩

/-- A key that is the word `as` in upper case is taken for that word, and the header is none. -/
theorem not_forall_key :
    ¬ ∀ (e keyword : List Char) (k v : WrittenName), e ≠ [] → trim e = e →
      sameWord keyword "as".toList = true → ¬ Delimited "in".toList e → k.text ≠ "as".toList →
        k.text ≠ "in".toList →
          ofText? (e ++ " ".toList ++ keyword ++ " ".toList ++ k.text ++ " => ".toList ++ v.text) =
            some ⟨some (String.ofList k.name), String.ofList v.name, e⟩ := by
  intro h
  have hparsed := h "items".toList "as".toList ⟨"AS".toList, by decide, false⟩
    ⟨"v".toList, by decide, false⟩ (by decide) (by decide) (by decide)
    ((not_delimited_iff (by decide)).mpr (by decide)) (by decide) (by decide)
  have hnone : ofText? "items as AS => v".toList = none := by rfl
  exact Option.some_ne_none _ (hparsed.symm.trans hnone)

end Stencil.LoopHeader
