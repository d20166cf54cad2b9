import Stencil.Proofs.Markup.Document
import Stencil.Proofs.Text.Mention
import Stencil.Template.Line

/-!
What a line can spell.

All attributes of a tag come about by adding one after the other, each under a name that an
attribute can have and with a value that is not empty and made of parts of the line (`Given`,
`AttrsInvariant`), and the text of a tag consists of words of its line (`Spelled`). So tag and
attribute names are names of the document language, and a word without spaces that is in the text is
in the line (`Spelled.infix_of_text`). The arguments of a directive are a part of its line
(`saidBy_of_classify`).
-/

namespace Stencil

/-! ## Attributes -/

namespace Tag

theorem mem_names_addAttr (attrs : Entries String) (name value : List Char) (n : String) :
    n ∈ Entries.names (addAttr attrs name value) ↔
      n = String.ofList name ∨ n ∈ Entries.names attrs :=
  Entries.mem_names_insert attrs (String.ofList name) n _

/-- The raw values that a line gives to attributes: parts of it, the value of an attribute without
one, shorthands in quotes, and joined values. -/
inductive Given (line : List Char) : List Char → Prop
  | part {raw : List Char} : raw <:+: line → Given line raw
  | flag : Given line "true".toList
  | shorthand {parts : List (List Char)} : (∀ part ∈ parts, part <:+: line) →
      Given line ('"' :: [' '].intercalate parts ++ ['"'])
  | merge {first second : List Char} : Given line first → Given line second →
      Given line (mergeClass first second)

/-- What holds of no attributes and is kept by adding one that the line can give. -/
structure AttrsInvariant (line : List Char) (P : Entries String → Prop) : Prop where
  empty : P []
  add : ∀ (attrs : Entries String) (name value : List Char), P attrs → isAttrName name = true →
    value ≠ [] → Given line value → P (addAttr attrs name value)

variable {line : List Char} {P : Entries String → Prop}

theorem assignment?_eq_some {word name value : List Char}
    (h : assignment? word = some (name, value)) :
    isAttrName name = true ∧ value ≠ [] ∧ value <:+: word := by
  unfold assignment? at h
  split at h
  · next n v hsplit =>
    split at h
    · next hok =>
      cases h
      obtain ⟨hname, hvalue⟩ : isAttrName name = true ∧ value ≠ [] := by simpa using hok
      rw [(splitOnce_eq_some hsplit).1]
      exact ⟨hname, hvalue, ((List.suffix_cons '=' value).trans (List.suffix_append _ _)).isInfix⟩
    · cases h
  · cases h

theorem infix_of_mem_shorthandsFrom (fuel : Nat) (s : List Char) :
    ∀ part ∈ (shorthandsFrom fuel s).1, part.2 <:+: s := by
  intro part h
  fun_induction shorthandsFrom fuel s with
  | case1 s => cases h
  | case2 fuel => cases h
  | case3 fuel c => cases h
  | case4 fuel sign c cs _ more rest heq ih =>
    rcases List.mem_cons.mp h with rfl | h
    · have hpart : c :: cs.takeWhile isShorthandChar <:+: c :: cs :=
        (List.cons_prefix_cons.mpr ⟨rfl, List.takeWhile_prefix _⟩).isInfix
      exact hpart.trans (List.suffix_cons sign _).isInfix
    · rw [heq] at ih
      exact (ih h).trans ((List.dropWhile_suffix _).trans
        ((List.suffix_cons c cs).trans (List.suffix_cons sign _))).isInfix
  | case5 fuel sign c cs => cases h

theorem AttrsInvariant.shorthandAttrs (hP : AttrsInvariant line P)
    {parts : List (Char × List Char)} (hparts : ∀ part ∈ parts, part.2 <:+: line) :
    P (shorthandAttrs parts) := by
  have hsigned : ∀ sign, ∀ part ∈ (parts.filter (·.1 == sign)).map (·.2), part <:+: line := by
    intro sign part hpart
    obtain ⟨signed, hsigned, rfl⟩ := List.mem_map.mp hpart
    exact hparts signed (List.mem_filter.mp hsigned).1
  have hclass :=
    hP.add [] "class".toList _ hP.empty (by decide) (by simp) (.shorthand (hsigned '.'))
  unfold Tag.shorthandAttrs
  dsimp only
  split
  · split
    · exact hP.empty
    · exact hclass
  · next id hid =>
    have hgiven : Given line ('"' :: id ++ ['"']) := by
      have hone : ∀ part ∈ [id], part <:+: line := by
        simpa using hsigned '#' id (List.mem_of_getLast? hid)
      simpa [List.intercalate] using Given.shorthand hone
    refine hP.add _ _ _ ?_ (by decide) (by simp) hgiven
    split
    · exact hP.empty
    · exact hclass

theorem AttrsInvariant.addListed (hP : AttrsInvariant line P) {attrs : Entries String}
    (h : P attrs) {word : List Char} (hword : word <:+: line) : P (addListed attrs word) := by
  unfold Tag.addListed
  split
  · next name value hw =>
    obtain ⟨hname, hvalue, hpart⟩ := assignment?_eq_some hw
    exact hP.add attrs name value h hname hvalue (.part (hpart.trans hword))
  · split
    · next hname => exact hP.add attrs word _ h hname (by decide) .flag
    · exact h

theorem AttrsInvariant.listedAttrs (hP : AttrsInvariant line P) {attrs : Entries String}
    (h : P attrs) {s : List Char} (hs : s <:+: line) : P (listedAttrs attrs s).1 := by
  unfold Tag.listedAttrs
  split
  · split
    · next rest inside rest' hparens =>
      have hinside : inside <:+: line := by
        refine List.IsInfix.trans ?_ hs
        rw [splitParens_eq_some hparens]
        exact (List.prefix_append _ _).isInfix.trans (List.suffix_cons _ _).isInfix
      have hparts : ∀ part ∈ splitUnquoted (fun c => c == ' ' || c == ',') inside,
          part <:+: line := fun part hpart =>
        List.IsInfix.trans (infix_of_mem_splitUnquotedFrom hpart) hinside
      dsimp only
      generalize splitUnquoted (fun c => c == ' ' || c == ',') inside = parts at hparts
      induction parts generalizing attrs with
      | nil => exact h
      | cons part parts ih =>
        exact ih (hP.addListed h (hparts part (by simp))) fun p hp => hparts p (by simp [hp])
    · exact h
  · exact h

theorem AttrsInvariant.wordAttrs (hP : AttrsInvariant line P) {attrs : Entries String}
    (h : P attrs) {ws : List (List Char)} (hws : ∀ w ∈ ws, w <:+: line) :
    P (wordAttrs attrs ws).1 := by
  fun_induction Tag.wordAttrs attrs ws with
  | case1 attrs => exact h
  | case2 attrs word rest name value hw ih =>
    obtain ⟨hname, hvalue, hpart⟩ := assignment?_eq_some hw
    have hgiven : Given line value := .part (hpart.trans (hws word (by simp)))
    exact ih (hP.add attrs name value h hname hvalue hgiven) fun w hw => hws w (by simp [hw])
  | case3 attrs word rest _ hname ih =>
    rw [Bool.and_eq_true] at hname
    exact ih (hP.add attrs word _ h hname.1 (by decide) .flag) fun w hw => hws w (by simp [hw])
  | case4 attrs word rest => exact h

/-! ## The rest of the line -/

theorem suffix_shorthandsFrom (fuel : Nat) (s : List Char) : (shorthandsFrom fuel s).2 <:+ s := by
  fun_induction shorthandsFrom fuel s with
  | case1 s => exact List.suffix_refl s
  | case2 fuel => exact List.suffix_refl []
  | case3 fuel c => exact List.suffix_refl [c]
  | case4 fuel sign c cs _ more rest heq ih =>
    rw [heq] at ih
    exact ih.trans ((List.dropWhile_suffix _).trans
      ((List.suffix_cons c cs).trans (List.suffix_cons sign _)))
  | case5 fuel sign c cs => exact List.suffix_refl _

theorem suffix_listedAttrs (attrs : Entries String) (s : List Char) :
    (listedAttrs attrs s).2 <:+ s := by
  unfold listedAttrs
  split
  · split
    · next h =>
      rw [splitParens_eq_some h]
      exact (List.suffix_cons _ _).trans ((List.suffix_append _ _).trans (List.suffix_cons _ _))
    · exact List.suffix_refl _
  · exact List.suffix_refl s

theorem suffix_wordAttrs (attrs : Entries String) (ws : List (List Char)) :
    (wordAttrs attrs ws).2 <:+ ws := by
  fun_induction wordAttrs attrs ws with
  | case1 attrs => exact List.suffix_refl []
  | case2 attrs word rest name value _ ih => exact ih.trans (List.suffix_cons word rest)
  | case3 attrs word rest _ _ ih => exact ih.trans (List.suffix_cons word rest)
  | case4 attrs word rest => exact List.suffix_refl _

theorem isTagName_takeWhile {line : List Char} (h : line.head?.any Char.isAlpha = true) :
    Markup.IsTagName (line.takeWhile Char.isAlphanum) := by
  cases line with
  | nil => cases h
  | cons c cs =>
    have hc : c.isAlpha = true := h
    have hn : c.isAlphanum = true := by simp [Char.isAlphanum, hc]
    rw [List.takeWhile_cons_of_pos hn]
    refine ⟨hc, fun d hd => ?_⟩
    exact List.all_eq_true.mp (List.all_takeWhile (p := Char.isAlphanum) (l := cs)) d hd

/-- What a tag has from the line that spells it. -/
structure Spelled (t : Tag) (line : List Char) : Prop where
  name : Markup.IsTagName t.name.toList
  isVoid : t.isVoid = isVoidName t.name.toList
  attrs : ∀ {P : Entries String → Prop}, AttrsInvariant line P → P t.attrs
  /-- The text is made of words of the line. -/
  text : ∀ text, t.text = some text →
    ∃ ws : List (List Char), (∀ w ∈ ws, w <:+: line) ∧ text.toList = [' '].intercalate ws

theorem spelled_of_ofLine? {line : List Char} {t : Tag} (h : ofLine? line = some t) :
    t.Spelled line := by
  unfold ofLine? at h
  dsimp only at h
  split at h
  · cases h
  · next hstart =>
    rcases hs : shorthandsFrom (line.dropWhile Char.isAlphanum).length
      (line.dropWhile Char.isAlphanum) with ⟨parts, rest⟩
    rcases hl : listedAttrs (shorthandAttrs parts) rest with ⟨attrs, rest'⟩
    rcases hw : wordAttrs attrs (words (trim rest')) with ⟨attrs', text⟩
    simp only [hs, hl, hw] at h
    cases h
    have hname : line.dropWhile Char.isAlphanum <:+ line := List.dropWhile_suffix _
    have hparts : ∀ part ∈ parts, part.2 <:+: line := by
      have := infix_of_mem_shorthandsFrom (line.dropWhile Char.isAlphanum).length
        (line.dropWhile Char.isAlphanum)
      rw [hs] at this
      exact fun part hpart => (this part hpart).trans hname.isInfix
    have hrest : rest <:+ line := by
      have := suffix_shorthandsFrom (line.dropWhile Char.isAlphanum).length
        (line.dropWhile Char.isAlphanum)
      rw [hs] at this
      exact this.trans hname
    have hrest' : rest' <:+ line := by
      have := suffix_listedAttrs (shorthandAttrs parts) rest
      rw [hl] at this
      exact this.trans hrest
    have hwords : ∀ w ∈ words (trim rest'), w <:+: line := fun w hw =>
      (infix_of_mem_words hw).trans ((isInfix_trim rest').trans hrest'.isInfix)
    have htext : text <:+ words (trim rest') := by
      have := suffix_wordAttrs attrs (words (trim rest'))
      rwa [hw] at this
    constructor
    case name =>
      rw [Bool.or_eq_true, not_or, Bool.not_eq_true', Bool.not_eq_false] at hstart
      rw [String.toList_ofList]
      exact isTagName_takeWhile hstart.1
    case isVoid => rw [String.toList_ofList]
    case attrs =>
      intro P hP
      have h₁ := hP.listedAttrs (hP.shorthandAttrs hparts) hrest.isInfix
      rw [hl] at h₁
      have h₂ := hP.wordAttrs h₁ hwords
      rwa [hw] at h₂
    case text =>
      intro s hsome
      dsimp only at hsome
      split at hsome
      · cases hsome
      · cases hsome
        exact ⟨text, fun w hmem => hwords w (htext.subset hmem), String.toList_ofList⟩

theorem isAttrName_of_mem_names {line : List Char} {t : Tag} (ht : t.Spelled line) {n : String}
    (hn : n ∈ Entries.names t.attrs) : Tag.isAttrName n.toList = true := by
  have hP : AttrsInvariant line fun attrs =>
      ∀ n ∈ Entries.names attrs, Tag.isAttrName n.toList = true :=
    { empty := fun n hn => by cases hn
      add := fun attrs name value hattrs hname _ _ n hn => by
        rcases (mem_names_addAttr attrs name value n).mp hn with rfl | hn
        · rwa [String.toList_ofList]
        · exact hattrs n hn }
  exact ht.attrs hP n hn

end Tag

/-- No attribute is there twice. -/
theorem Tag.Spelled.nodup_names {line : List Char} {t : Tag} (ht : t.Spelled line) :
    (Entries.names t.attrs).Nodup := by
  have hP : Tag.AttrsInvariant line fun attrs => (Entries.names attrs).Nodup :=
    { empty := List.nodup_nil
      add := fun attrs name _ h _ _ _ => Entries.nodup_names_insert h (String.ofList name) _ }
  exact ht.attrs hP

/-! ## Names of the document language -/

theorem Tag.isAttrName_iff (s : List Char) : Tag.isAttrName s = true ↔ Markup.IsAttrName s := by
  cases s with
  | nil => simp [Tag.isAttrName, Markup.IsAttrName, Markup.IsWord]
  | cons c cs =>
    simp [Tag.isAttrName, Markup.IsAttrName, Markup.IsWord, Tag.isAttrStart, Tag.isAttrChar,
      or_assoc]

theorem Tag.isVoidName_iff (s : List Char) : Tag.isVoidName s = true ↔ Markup.IsVoidName s := by
  have hlower : ∀ name ∈ Tag.voidNames, lowerAscii name.toList = name.toList := by decide
  unfold Tag.isVoidName Markup.IsVoidName sameWord
  rw [List.contains_iff_mem]
  constructor
  · intro h
    exact ⟨_, h, by rw [hlower _ h, String.toList_ofList, beq_self_eq_true]⟩
  · rintro ⟨name, hname, hs⟩
    rw [hlower name hname, beq_iff_eq] at hs
    rwa [hs, String.ofList_toList]

/-! ## Words of the text -/

/-- A word without spaces that is in the text of a tag is in its line. -/
theorem Tag.Spelled.infix_of_text {line : List Char} {t : Tag} (ht : t.Spelled line) {text : String}
    (htext : t.text = some text) {w : List Char} (hw : w ≠ []) (hspace : ' ' ∉ w)
    (h : w <:+: text.toList) : w <:+: line := by
  obtain ⟨ws, hws, heq⟩ := ht.text text htext
  rw [heq] at h
  obtain ⟨part, hpart, hinfix⟩ := infix_intercalate hw hspace h
  exact hinfix.trans (hws part hpart)

/-! ## Lines -/

/-- The content has its parts from the line. -/
def Content.SaidBy (line : List Char) : Content → Prop
  | .tag t => t.Spelled line
  | .directive _ args => args.toList <:+: line
  | _ => True

theorem saidBy_of_classify {line : List Char} {content : Content}
    (h : classify line = some content) : content.SaidBy line := by
  have hdirective : ∀ kind args, args <:+ line → (directive kind args).SaidBy line := by
    intro kind args hargs
    have hinfix := (isInfix_trim args).trans hargs.isInfix
    rwa [← String.toList_ofList (l := trim args)] at hinfix
  unfold classify at h
  split at h
  · cases h
  · cases h
    trivial
  · next rest =>
    split at h
    · cases h
    · next name args hsplit =>
      cases h
      have hrest := splitName_append rest
      rw [hsplit] at hrest
      refine hdirective _ _ (List.IsSuffix.trans ?_ (List.suffix_cons '@' rest))
      rw [← hrest]
      exact List.suffix_append _ _
  · split at h
    · cases h
      trivial
    · split at h
      · next content hk =>
        cases h
        obtain ⟨keyword, _, hk⟩ := List.exists_of_findSome?_eq_some hk
        obtain ⟨args, hdrop, rfl⟩ := Option.map_eq_some_iff.mp hk
        exact hdirective _ _ (suffix_of_dropWord? hdrop)
      · obtain ⟨t, ht, rfl⟩ := Option.map_eq_some_iff.mp h
        exact Tag.spelled_of_ofLine? ht

theorem Tag.ofLine?_of_classify {line : List Char} {t : Tag} (h : classify line = some (.tag t)) :
    Tag.ofLine? line = some t := by
  unfold classify at h
  split at h
  · cases h
  · cases h
  · split at h
    · cases h
    · cases h
  · split at h
    · cases h
    · split at h
      · next content hk =>
        cases h
        obtain ⟨keyword, _, hk⟩ := List.exists_of_findSome?_eq_some hk
        obtain ⟨args, _, hdirective⟩ := Option.map_eq_some_iff.mp hk
        cases hdirective
      · obtain ⟨t', ht, heq⟩ := Option.map_eq_some_iff.mp h
        cases heq
        exact ht

end Stencil
