import Stencil.Proofs.Template.Attributes
import Stencil.Proofs.Text.Quoted

/-!
Writing and reading attributes.

Attributes with values in quotes can be written in parentheses, with spaces and commas between them,
or behind the name with spaces in front of each (`AttributeStyle.Writes`). A line with the name of a
tag and attributes written in either style is a tag with this name and these attributes, whatever
the values hold: each name where it stands first, with the value that stands last. A space and a
text behind them add the words of this text. White space at its end is cut off first, and white
space at its front where no attribute stands between spaces in front of it (`classify_attributes`).
-/

namespace Stencil

/-! ## Pairs -/

/-- A quote, a text without this quote, and the quote again. -/
def InQuotes (v : List Char) : Prop := ∃ q s, isQuote q = true ∧ q ∉ s ∧ v = q :: (s ++ [q])

namespace Tag

def Assignment.text (a : Assignment) : List Char := a.1 ++ '=' :: a.2

/-- An attribute name and a value in quotes. -/
structure Assignment.IsPair (a : Assignment) : Prop where
  name : isAttrName a.1 = true
  value : InQuotes a.2

theorem isAttrChar_of_isAttrName {name : List Char} (h : isAttrName name = true) :
    ∀ c ∈ name, isAttrChar c = true := by
  cases name with
  | nil => exact nofun
  | cons c cs =>
    rw [isAttrName, Bool.and_eq_true, List.all_eq_true] at h
    refine List.forall_mem_cons.mpr ⟨?_, h.2⟩
    have hc := h.1
    simp only [isAttrStart, Bool.or_eq_true] at hc
    simp only [isAttrChar, Char.isAlphanum, Bool.or_eq_true]
    tauto

theorem isAttrChar_ne {c d : Char} (h : isAttrChar c = true) (hd : isAttrChar d = false) :
    c ≠ d := by
  rintro rfl
  rw [h] at hd
  cases hd

theorem isBlank_of_isAttrChar {c : Char} (h : isAttrChar c = true) : isBlank c = false := by
  have hcases : isNameChar c = true ∨ c = ':' ∨ c = '-' := by
    simp only [isAttrChar, Bool.or_eq_true, beq_iff_eq] at h
    simp only [isNameChar, Bool.or_eq_true, beq_iff_eq]
    tauto
  rcases hcases with hname | rfl | rfl
  · simpa using not_isBlank_of_isNameChar hname
  · rfl
  · rfl

theorem Assignment.text_ne_nil (a : Assignment) : a.text ≠ [] := by simp [Assignment.text]

namespace Assignment.IsPair

variable {a : Assignment} (ha : a.IsPair)
include ha

theorem value_ne_nil : a.2 ≠ [] := by
  obtain ⟨q, s, _, _, h⟩ := ha.value
  rw [h]
  exact List.cons_ne_nil q _

theorem assignment?_text : assignment? a.text = some a := by
  have hname : '=' ∉ a.1 := fun h => absurd (isAttrChar_of_isAttrName ha.name '=' h) (by decide)
  have hvalue : a.2.isEmpty = false := by simpa using ha.value_ne_nil
  rw [assignment?, Assignment.text, splitOnce_append hname]
  simp [ha.name, hvalue]

/-- Outside its quotes a pair has characters of names and the equals sign only. -/
theorem whole_text {p : Char → Bool} (hp : ∀ c, p c = true → isAttrChar c = false ∧ c ≠ '=') :
    Whole p none a.text := by
  have hquote : ∀ c, isAttrChar c = true → isQuote c = false := by
    intro c hc
    rw [isQuote, Bool.or_eq_false_iff, beq_eq_false_iff_ne, beq_eq_false_iff_ne]
    exact ⟨isAttrChar_ne hc (by decide), isAttrChar_ne hc (by decide)⟩
  have hname : Whole p none (a.1 ++ ['=']) := by
    apply whole_of_forall
    intro c hc
    rw [← Bool.not_eq_true (p c)]
    rcases List.mem_append.mp hc with hc | hc
    · have hchar := isAttrChar_of_isAttrName ha.name c hc
      exact ⟨hquote c hchar, fun h => isAttrChar_ne hchar (hp c h).1 rfl⟩
    · obtain rfl := List.mem_singleton.mp hc
      exact ⟨by decide, fun h => (hp '=' h).2 rfl⟩
  obtain ⟨q, s, hq, hs, hvalue⟩ := ha.value
  have htext : a.text = a.1 ++ ['='] ++ q :: (s ++ [q]) := by simp [Assignment.text, hvalue]
  rw [htext]
  exact hname.append (whole_quoted p hq hs)

theorem exists_text_eq_cons : ∃ c cs, a.text = c :: cs ∧ isBlank c = false := by
  have hname := ha.name
  unfold Assignment.text
  cases hcs : a.1 with
  | nil => rw [hcs] at hname; cases hname
  | cons c cs =>
    rw [hcs] at hname
    exact ⟨c, cs ++ '=' :: a.2, rfl,
      isBlank_of_isAttrChar (isAttrChar_of_isAttrName hname c List.mem_cons_self)⟩

theorem trimEnd_text : trimEnd a.text = a.text := by
  obtain ⟨q, s, hq, _, hvalue⟩ := ha.value
  have hquote : trimEnd [q] = [q] := by simp [trimEnd, isBlank_of_isQuote hq]
  have htext : a.text = a.1 ++ '=' :: q :: s ++ [q] := by simp [Assignment.text, hvalue]
  rw [htext, trimEnd_append, hquote, if_neg (List.cons_ne_nil q [])]

end Assignment.IsPair

/-! ## Words -/

/-- The first word is no attribute. -/
def StartsText (ws : List (List Char)) : Prop :=
  ∀ word ∈ ws.head?, assignment? word = none ∧ isBooleanName word = false

theorem wordAttrs_of_startsText {ws : List (List Char)} (h : StartsText ws)
    (attrs : Entries String) : wordAttrs attrs ws = (attrs, ws) := by
  cases ws with
  | nil => rfl
  | cons word ws =>
    obtain ⟨hassignment, hname⟩ := h word rfl
    rw [wordAttrs, hassignment]
    simp [hname]

/-- Pairs in front of a text are attributes, and the text starts behind them. -/
theorem wordAttrs_append {given : List Assignment} (hgiven : ∀ a ∈ given, a.IsPair)
    {ws : List (List Char)} (hws : StartsText ws) (attrs : Entries String) :
    wordAttrs attrs (given.map Assignment.text ++ ws) = (addAll attrs given, ws) := by
  induction given generalizing attrs with
  | nil => exact wordAttrs_of_startsText hws attrs
  | cons a given ih =>
    obtain ⟨ha, hgiven⟩ := List.forall_mem_cons.mp hgiven
    rw [List.map_cons, List.cons_append, wordAttrs, ha.assignment?_text]
    exact ih hgiven _

theorem foldl_addListed_text {given : List Assignment} (hgiven : ∀ a ∈ given, a.IsPair)
    (attrs : Entries String) :
    (given.map Assignment.text).foldl addListed attrs = addAll attrs given := by
  induction given generalizing attrs with
  | nil => rfl
  | cons a given ih =>
    obtain ⟨ha, hgiven⟩ := List.forall_mem_cons.mp hgiven
    rw [List.map_cons, List.foldl_cons, addListed, ha.assignment?_text]
    exact ih hgiven _

end Tag

/-! ## The name of a tag -/

/-- The words that start a line of another kind. -/
def reservedWords : List String := "doctype" :: DirectiveKind.keywords.map (·.1)

/-- A keyword has to be the whole name. -/
theorem dropWord?_append {word name s : List Char} (hname : ∀ c ∈ name, isNameChar c = true)
    (hs : ∀ c ∈ s.head?, c.toLower ∉ lowerAscii word) (hne : sameWord name word = false) :
    dropWord? word (name ++ s) = none := by
  unfold dropWord?
  dsimp only
  split
  · rfl
  · next hsame =>
    rw [Bool.not_eq_true', Bool.not_eq_false] at hsame
    rcases Nat.lt_or_ge word.length name.length with hlt | hge
    · -- the name goes on behind the word
      have hmore : ((name ++ s).drop word.length).head?.any isNameChar = true := by
        rw [List.head?_drop, List.getElem?_append_left hlt, List.getElem?_eq_getElem hlt]
        exact hname _ (List.getElem_mem hlt)
      rw [if_pos hmore]
    · -- the word goes on behind the name
      rw [List.take_append, List.take_of_length_le hge] at hsame
      cases hmore : s.take (word.length - name.length) with
      | nil =>
        rw [hmore, List.append_nil, hne] at hsame
        cases hsame
      | cons d more =>
        have hd : d ∈ s.head? := by
          cases s with
          | nil => simp at hmore
          | cons c s =>
            cases hk : word.length - name.length with
            | zero => rw [hk] at hmore; cases hmore
            | succ k => rw [hk] at hmore; cases hmore; rfl
        rw [hmore, sameWord, beq_iff_eq] at hsame
        refine absurd ?_ (hs d hd)
        rw [← hsame]
        exact List.mem_map_of_mem (by simp)

/-- What may follow the name of a tag: attributes in parentheses, or a space. -/
def FollowsName (s : List Char) : Prop := ∀ c ∈ s.head?, c = ' ' ∨ c = '('

theorem FollowsName.not_alphanum {s : List Char} (hs : FollowsName s) :
    s.head?.any Char.isAlphanum = false := by
  cases s with
  | nil => rfl
  | cons c s => rcases hs c rfl with rfl | rfl <;> rfl

theorem classify_append {name s : List Char} (hname : Markup.IsTagName name)
    (hfree : ∀ word ∈ reservedWords, sameWord name word.toList = false) (hs : FollowsName s) :
    classify (name ++ s) = (Tag.ofLine? (name ++ s)).map .tag := by
  have hchars : ∀ c ∈ name, isNameChar c = true := fun c hc => by
    rw [isNameChar, hname.forall_isAlphanum c hc, Bool.true_or]
  have hletters : ∀ word ∈ reservedWords,
      ' ' ∉ lowerAscii word.toList ∧ '(' ∉ lowerAscii word.toList := by decide
  have hdrop : ∀ word ∈ reservedWords, dropWord? word.toList (name ++ s) = none := by
    intro word hword
    refine dropWord?_append hchars (fun c hc => ?_) (hfree word hword)
    rcases hs c hc with rfl | rfl
    · exact (hletters word hword).1
    · exact (hletters word hword).2
  have hkeyword : keywordDirective? (name ++ s) = none := by
    rw [keywordDirective?, List.findSome?_eq_none_iff]
    rintro ⟨word, kind⟩ hkeyword
    have hword : word ∈ reservedWords := List.mem_cons_of_mem _ (List.mem_map_of_mem hkeyword)
    dsimp only
    rw [hdrop word hword, Option.map_none]
  have hdoctype := hdrop "doctype" List.mem_cons_self
  cases name with
  | nil => exact hname.elim
  | cons c cs =>
    have hsigns : ∀ sign, sign.isAlpha = false → c ≠ sign := by
      rintro sign hsign rfl
      rw [hname.1] at hsign
      cases hsign
    unfold classify
    split
    · next heq => exact absurd (List.cons.inj heq).1 (hsigns '/' rfl)
    · next heq => exact absurd (List.cons.inj heq).1 (hsigns '|' rfl)
    · next heq => exact absurd (List.cons.inj heq).1 (hsigns '@' rfl)
    · rw [hdoctype, hkeyword]
      rfl

namespace Tag

theorem shorthandsFrom_of_followsName {s : List Char} (hs : FollowsName s) :
    shorthandsFrom s.length s = ([], s) := by
  cases s with
  | nil => rfl
  | cons c s =>
    cases s with
    | nil => rfl
    | cons d s => rcases hs c rfl with rfl | rfl <;> rfl

/-- The tag of a line in terms of its attributes and the words of its text. -/
theorem ofLine?_append {name s : List Char} (hname : Markup.IsTagName name) (hs : FollowsName s)
    {attrs : Entries String} {text : List (List Char)}
    (hread : wordAttrs (listedAttrs [] s).1 (words (trim (listedAttrs [] s).2)) = (attrs, text)) :
    ofLine? (name ++ s) =
      some
        { name := String.ofList name
          attrs := attrs
          text := if text.isEmpty || isVoidName name then none
            else some (String.ofList ([' '].intercalate text))
          isVoid := isVoidName name } := by
  have halphanum := hname.forall_isAlphanum
  have htake : (name ++ s).takeWhile Char.isAlphanum = name :=
    takeWhile_append_of_head? halphanum hs.not_alphanum
  have hdrop : (name ++ s).dropWhile Char.isAlphanum = s :=
    dropWhile_append_of_head? halphanum hs.not_alphanum
  have hfirst : (name ++ s).head?.any Char.isAlpha = true := by
    cases name with
    | nil => exact hname.elim
    | cons c cs => exact hname.1
  have hunderscore : (s.head? == some '_') = false := by
    cases s with
    | nil => rfl
    | cons c s => rcases hs c rfl with rfl | rfl <;> rfl
  unfold ofLine?
  simp only [htake, hdrop, hfirst, hunderscore, shorthandsFrom_of_followsName hs]
  have hnone : shorthandAttrs [] = [] := rfl
  simp only [hnone, hread]
  rfl

end Tag

/-! ## Two styles -/

/-- In parentheses behind the name, or behind the name with spaces in front of each. -/
inductive AttributeStyle where
  | listed
  | spaced

namespace AttributeStyle

open Tag (Assignment)

/-- The texts of these attributes in this style. -/
def Writes : AttributeStyle → List Assignment → List Char → Prop
  | listed, given, s => ∃ inside,
      Joined (fun c => c == ' ' || c == ',') (given.map Assignment.text) inside ∧
        s = '(' :: (inside ++ [')'])
  | spaced, given, s => Led (· == ' ') (given.map Assignment.text) s

/-- What counts of a text behind the attributes. -/
def textOf : AttributeStyle → List Assignment → List Char → List Char
  | spaced, _ :: _, text => trimEnd text
  | _, _, text => trim text

/-- Nothing follows, or a space. -/
def AtSpace (s : List Char) : Prop := AtSeparator (· == ' ') s

section

variable {given : List Assignment} (hgiven : ∀ a ∈ given, a.IsPair)
include hgiven

theorem whole_texts {p : Char → Bool}
    (hp : ∀ c, p c = true → Tag.isAttrChar c = false ∧ c ≠ '=') :
    ∀ w ∈ given.map Assignment.text, w ≠ [] ∧ Whole p none w := by
  intro w hw
  obtain ⟨a, ha, rfl⟩ := List.mem_map.mp hw
  exact ⟨a.text_ne_nil, (hgiven a ha).whole_text hp⟩

theorem listedAttrs_listed {inside : List Char}
    (h : Joined (fun c => c == ' ' || c == ',') (given.map Assignment.text) inside)
    (after : List Char) :
    Tag.listedAttrs [] ('(' :: (inside ++ ')' :: after)) = (Tag.addAll [] given, after) := by
  have hsep : ∀ c, (c == ' ' || c == ',') = true → isQuote c = false ∧
      (c == '(' || c == ')') = false ∧ Tag.isAttrChar c = false ∧ c ≠ '=' := by
    intro c hc
    rw [Bool.or_eq_true, beq_iff_eq, beq_iff_eq] at hc
    rcases hc with rfl | rfl <;> decide
  have hparens : ∀ c, (c == '(' || c == ')') = true → Tag.isAttrChar c = false ∧ c ≠ '=' := by
    intro c hc
    rw [Bool.or_eq_true, beq_iff_eq, beq_iff_eq] at hc
    rcases hc with rfl | rfl <;> decide
  have hinside : splitParens (inside ++ ')' :: after) = some (inside, after) :=
    splitParens_append (h.whole (fun c hc => ⟨(hsep c hc).1, (hsep c hc).2.1⟩) fun w hw =>
      (whole_texts hgiven hparens w hw).2) after
  have hsplit : splitUnquoted (fun c => c == ' ' || c == ',') inside =
      given.map Assignment.text := by
    have hend : AtSeparator (fun c => c == ' ' || c == ',') [] := nofun
    have happend := h.splitUnquoted_append (fun c hc => (hsep c hc).1)
      (whole_texts hgiven fun c hc => (hsep c hc).2.2) hend
    rw [List.append_nil] at happend
    rw [happend]
    exact List.append_nil _
  simp only [Tag.listedAttrs, hinside, hsplit, Tag.foldl_addListed_text hgiven]

/-- Words behind each other do not end in white space. -/
theorem trimEnd_led {isSep : Char → Bool} {s : List Char}
    (h : Led isSep (given.map Assignment.text) s) : trimEnd s = s := by
  induction given generalizing s with
  | nil =>
    cases h
    rfl
  | cons a given ih =>
    obtain ⟨ha, hgiven⟩ := List.forall_mem_cons.mp hgiven
    cases h with
    | @cons gap w s ws _ _ hled =>
      have hword : trimEnd (a.text ++ s) = a.text ++ s := by
        rw [trimEnd_append_of_eq_self ha.trimEnd_text, ih hgiven hled]
      rw [trimEnd_append, hword, if_neg (by simp [a.text_ne_nil])]

/-- Behind attributes, white space is cut off at the end only. -/
theorem words_trim_spaced {s : List Char} (h : Led (· == ' ') (given.map Assignment.text) s)
    {after : List Char} (hafter : AtSpace after) :
    words (trim (s ++ after)) = given.map Assignment.text ++ words (spaced.textOf given after) := by
  have hspace : ∀ c, (c == ' ') = true →
      isQuote c = false ∧ isBlank c = true ∧ Tag.isAttrChar c = false ∧ c ≠ '=' := by
    intro c hc
    obtain rfl := beq_iff_eq.mp hc
    decide
  cases given with
  | nil =>
    cases h
    rfl
  | cons a given =>
    have hwords := whole_texts hgiven fun c hc => (hspace c hc).2.2
    obtain ⟨ha, hgiven⟩ := List.forall_mem_cons.mp hgiven
    cases h with
    | @cons gap w s ws _ hgap hled =>
      have hend : trimEnd (a.text ++ s) = a.text ++ s := by
        rw [trimEnd_append_of_eq_self ha.trimEnd_text, trimEnd_led hgiven hled]
      have hstart : trimStart (a.text ++ s ++ after) = a.text ++ s ++ after := by
        obtain ⟨c, cs, htext, hc⟩ := ha.exists_text_eq_cons
        rw [htext]
        exact List.dropWhile_cons_of_neg (by rw [hc]; decide)
      have htrim : trim (gap ++ (a.text ++ s) ++ after) = a.text ++ s ++ trimEnd after := by
        rw [List.append_assoc,
          trim_append_of_isBlank_left fun c hc => (hspace c (hgap c hc)).2.1, trim, hstart,
          trimEnd_append_of_eq_self hend]
      have hcut : AtSpace (trimEnd after) := by
        intro c hc
        obtain ⟨rest, hrest⟩ := isPrefix_trimEnd after
        apply hafter c
        rw [← hrest, List.head?_append, Option.mem_def.mp hc]
        rfl
      rw [htrim]
      exact (Joined.cons hled).splitUnquoted_append (fun c hc => (hspace c hc).1) hwords hcut

end

/-- A space in front of a text plays no part. -/
theorem words_textOf_space (style : AttributeStyle) (given : List Assignment) (text : List Char) :
    words (style.textOf given (' ' :: text)) = words (style.textOf given text) := by
  have hboth : trim (' ' :: text) = trim text := by
    have hblank : ∀ c ∈ [' '], isBlank c = true := by simp [isBlank]
    exact trim_append_of_isBlank_left hblank text
  have hend : words (trimEnd (' ' :: text)) = words (trimEnd text) := by
    have happend : trimEnd (' ' :: text) = if trimEnd text = [] then [] else ' ' :: trimEnd text :=
      trimEnd_append [' '] text
    rw [happend]
    split
    · next hnil => rw [hnil]
    · refine splitUnquoted_of_isSep (fun c hc => ?_) rfl (trimEnd text)
      obtain rfl := beq_iff_eq.mp hc
      rfl
  cases style with
  | listed => exact congrArg words hboth
  | spaced =>
    cases given with
    | nil => exact congrArg words hboth
    | cons a given => exact hend

theorem Writes.followsName {style : AttributeStyle} {given : List Assignment} {s after : List Char}
    (h : style.Writes given s) (hafter : AtSpace after) : FollowsName (s ++ after) := by
  cases style with
  | listed =>
    obtain ⟨inside, _, rfl⟩ := h
    rintro c hc
    cases hc
    exact Or.inr rfl
  | spaced =>
    intro c hc
    exact Or.inl (beq_iff_eq.mp (Led.atSeparator h hafter c hc))

theorem listedAttrs_of_atSpace {s : List Char} (h : AtSpace s) (attrs : Entries String) :
    Tag.listedAttrs attrs s = (attrs, s) := by
  cases s with
  | nil => rfl
  | cons c s =>
    obtain rfl : c = ' ' := beq_iff_eq.mp (h c rfl)
    rfl

/-- What was written is read, up to the words of the text. -/
theorem Writes.wordAttrs {style : AttributeStyle} {given : List Assignment} {s after : List Char}
    (h : style.Writes given s) (hgiven : ∀ a ∈ given, a.IsPair) (hafter : AtSpace after)
    (htext : Tag.StartsText (words (style.textOf given after))) :
    Tag.wordAttrs (Tag.listedAttrs [] (s ++ after)).1
        (words (trim (Tag.listedAttrs [] (s ++ after)).2)) =
      (Tag.addAll [] given, words (style.textOf given after)) := by
  cases style with
  | listed =>
    obtain ⟨inside, hinside, rfl⟩ := h
    have hread := listedAttrs_listed hgiven hinside after
    have hline : '(' :: (inside ++ [')']) ++ after = '(' :: (inside ++ ')' :: after) := by simp
    rw [hline, hread]
    exact Tag.wordAttrs_of_startsText htext _
  | spaced =>
    rw [listedAttrs_of_atSpace (Led.atSeparator h hafter), words_trim_spaced hgiven h hafter]
    exact Tag.wordAttrs_append hgiven htext []

end AttributeStyle

/-! ## Lines -/

/-- The tag has this name, these attributes and the words of this text. -/
structure Tag.Consists (t : Tag) (name : List Char) (given : List Tag.Assignment)
    (text : List (List Char)) : Prop where
  name_eq : t.name = String.ofList name
  /-- Each name stands where it was given first. -/
  names_eq : Entries.names t.attrs = (given.map fun a => String.ofList a.1).eraseDups
  /-- Its value is the one that was given last. -/
  get?_eq : ∀ n, t.attrs.get? n = Tag.lastGiven? given n
  text_eq : t.text = if text.isEmpty || Tag.isVoidName name then none
    else some (String.ofList ([' '].intercalate text))
  isVoid_eq : t.isVoid = Tag.isVoidName name

section

variable {style : AttributeStyle} {name : List Char} {given : List Tag.Assignment} {s : List Char}

theorem exists_classify_append (hname : Markup.IsTagName name)
    (hfree : ∀ word ∈ reservedWords, sameWord name word.toList = false)
    (hgiven : ∀ a ∈ given, a.IsPair) (hclass : (Tag.classValues given).length ≤ 1)
    (hs : style.Writes given s) {after : List Char} (hafter : AttributeStyle.AtSpace after)
    (htext : Tag.StartsText (words (style.textOf given after))) :
    ∃ t, classify (name ++ (s ++ after)) = some (.tag t) ∧
      t.Consists name given (words (style.textOf given after)) := by
  have hfollows := hs.followsName hafter
  have hline := Tag.ofLine?_append hname hfollows (hs.wordAttrs hgiven hafter htext)
  refine ⟨_, by rw [classify_append hname hfree hfollows, hline]; rfl, ?_⟩
  exact
    { name_eq := rfl
      names_eq := Tag.names_addAll given
      get?_eq := Tag.get?_addAll hclass
      text_eq := rfl
      isVoid_eq := rfl }

/-- Attributes that are written in either style are read, alone and with a text behind them. -/
theorem classify_attributes (hname : Markup.IsTagName name)
    (hfree : ∀ word ∈ reservedWords, sameWord name word.toList = false)
    (hgiven : ∀ a ∈ given, a.IsPair) (hclass : (Tag.classValues given).length ≤ 1)
    (hs : style.Writes given s) :
    (∃ t, classify (name ++ s) = some (.tag t) ∧ t.Consists name given []) ∧
      ∀ text, Tag.StartsText (words (style.textOf given text)) →
        ∃ t, classify (name ++ (s ++ ' ' :: text)) = some (.tag t) ∧
          t.Consists name given (words (style.textOf given text)) := by
  constructor
  · have hnil : words (style.textOf given []) = [] := by
      cases style with
      | listed => rfl
      | spaced => cases given <;> rfl
    have hend : AttributeStyle.AtSpace [] := nofun
    have hread := exists_classify_append hname hfree hgiven hclass hs hend (by rw [hnil]; exact nofun)
    rwa [hnil, List.append_nil] at hread
  · intro text htext
    have hspace : AttributeStyle.AtSpace (' ' :: text) := by
      intro c hc
      cases hc
      rfl
    rw [← AttributeStyle.words_textOf_space] at htext ⊢
    exact exists_classify_append hname hfree hgiven hclass hs hspace htext

end

/-- A value with commas, parentheses, an equals sign and quotes, and a name that is given twice. -/
theorem classify_attributes_twice :
    let line := "p(title='a, (b) = \"c\"' , lang=\"en\",title=\"it's\") Go  on".toList
    ∃ t, classify line = some (.tag t) ∧ Entries.names t.attrs = ["title", "lang"] ∧
      t.attrs.get? "title" = some "\"it's\"" ∧ t.text = some "Go on" := by
  intro line
  let first : Tag.Assignment := ("title".toList, "'a, (b) = \"c\"'".toList)
  let second : Tag.Assignment := ("lang".toList, "\"en\"".toList)
  let third : Tag.Assignment := ("title".toList, "\"it's\"".toList)
  let given := [first, second, third]
  let inside := first.text ++ (" , ".toList ++ (second.text ++ (",".toList ++ (third.text ++ []))))
  have hname : Markup.IsTagName ['p'] := ⟨by decide, nofun⟩
  have hfree : ∀ word ∈ reservedWords, sameWord ['p'] word.toList = false := by decide
  have hfirst : first.IsPair := ⟨by decide, '\'', "a, (b) = \"c\"".toList, by decide⟩
  have hsecond : second.IsPair := ⟨by decide, '"', "en".toList, by decide⟩
  have hthird : third.IsPair := ⟨by decide, '"', "it's".toList, by decide⟩
  have hgiven : ∀ a ∈ given, a.IsPair := by
    simp only [given, List.forall_mem_cons]
    exact ⟨hfirst, hsecond, hthird, nofun⟩
  have hmixed : ∀ c ∈ " , ".toList, (c == ' ' || c == ',') = true := List.all_eq_true.mp rfl
  have hcomma : ∀ c ∈ ",".toList, (c == ' ' || c == ',') = true := List.all_eq_true.mp rfl
  have hwrites : AttributeStyle.listed.Writes given ('(' :: (inside ++ [')'])) :=
    ⟨inside, .cons (.cons nofun hmixed (.cons nofun hcomma .nil)), rfl⟩
  have hread := (classify_attributes hname hfree hgiven (by decide) hwrites).2 "Go  on".toList
  have hstarts : Tag.StartsText ["Go".toList, "on".toList] := by
    rintro word hword
    cases hword
    exact ⟨rfl, rfl⟩
  obtain ⟨t, ht, hconsists⟩ := hread hstarts
  have htext : t.text = some "Go on" := hconsists.text_eq
  exact ⟨t, ht, hconsists.names_eq, hconsists.get?_eq "title", htext⟩

/-- A tab at the front of the text is cut off right behind a closing parenthesis, though it is part
of the first word. -/
theorem classify_tab :
    let text := "\thello".toList
    let line := "p(a=\"x\")".toList ++ ' ' :: text
    words text = [text] ∧ Tag.StartsText [text] ∧
      ∃ t, classify line = some (.tag t) ∧ t.text = some "hello" := by
  intro text line
  have hstarts : Tag.StartsText [text] := by
    rintro word hword
    cases hword
    exact ⟨rfl, rfl⟩
  exact ⟨rfl, hstarts, _, rfl, rfl⟩

end Stencil
