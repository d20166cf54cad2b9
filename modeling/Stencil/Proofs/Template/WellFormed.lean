import Mathlib
import Stencil.Proofs.Template.AttributeList
import Stencil.Proofs.Template.AttributeValue

/-!
Well-formed contents.

A tag that a line gives has a tag name, attributes under different names of which none is empty, and
text only if it is no void element; such a text starts with a word that is no attribute, and no
space is at its ends (`Tag.WellFormed`). A directive has a name in lower case and arguments without
white space around them. A line without a content is silent: it is empty or a comment, it starts
with a character that starts nothing, or an underscore follows the name of its tag (`Silent`). Main
statement: `classify_wellFormed`.
-/

namespace Stencil

/-! ## What is required -/

namespace Tag

/-- An attribute name, an equals sign and a value that is not empty. -/
def IsAssignment (word : List Char) : Prop :=
  ∃ name value, word = name ++ '=' :: value ∧ Markup.IsAttrName name ∧ value ≠ []

/-- One of the names for attributes without a value, in any ASCII case. -/
def IsBooleanWord (word : List Char) : Prop :=
  ∃ name ∈ booleanNames, sameWord word name.toList = true

/-- Text of a tag: no space is at its ends, and its first word does not count as an attribute. -/
structure InlineText (text : List Char) : Prop where
  ne_nil : text ≠ []
  head : text.head? ≠ some ' '
  last : text.getLast? ≠ some ' '
  first : ∃ word rest, words text = word :: rest ∧ ¬ IsAssignment word ∧ ¬ IsBooleanWord word

structure WellFormed (t : Tag) : Prop where
  name : Markup.IsTagName t.name.toList
  distinct : (Entries.names t.attrs).Nodup
  attrName : ∀ n ∈ Entries.names t.attrs, Markup.IsAttrName n.toList
  value : ∀ attr ∈ t.attrs, attr.2 ≠ ""
  isVoid : t.isVoid = true ↔ Markup.IsVoidName t.name.toList
  void_text : t.isVoid = true → t.text = none
  text : ∀ text, t.text = some text → InlineText text.toList

end Tag

def Content.WellFormed : Content → Prop
  | .tag t => t.WellFormed
  | .directive kind args =>
    (∀ c ∈ kind.name.toList, c.isLower = true ∨ c.isDigit = true ∨ c = '_') ∧
      (∀ c ∈ args.toList.head?, isBlank c = false) ∧ ∀ c ∈ args.toList.getLast?, isBlank c = false
  | .doctype | .text _ => True

/-- The line starts with the word, in any ASCII case, and the word ends there. -/
def OpensWith (word : String) (line : List Char) : Prop :=
  ∃ start rest, line = start ++ rest ∧ sameWord start word.toList = true ∧
    ∀ c ∈ rest.head?, isNameChar c = false

/-- The lines that say nothing. -/
inductive Silent : List Char → Prop
  | empty : Silent []
  | comment (rest : List Char) : Silent ('/' :: '/' :: rest)
  /-- A directive without a name. -/
  | unnamed {rest : List Char} : (∀ c ∈ rest.head?, c.isAlpha = false ∧ c ≠ '_') →
      Silent ('@' :: rest)
  | stray {c : Char} {rest : List Char} : c ≠ '|' → c ≠ '@' → c.isAlpha = false →
      Silent (c :: rest)
  /-- The name of a tag that goes on with an underscore. -/
  | underscore {c : Char} {rest : List Char} : c.isAlpha = true →
      (∀ word ∈ reservedWords, ¬ OpensWith word (c :: rest)) →
      ((c :: rest).dropWhile Char.isAlphanum).head? = some '_' → Silent (c :: rest)

/-! ## Attributes -/

namespace Tag

theorem assignment?_eq_none_iff {word : List Char} :
    assignment? word = none ↔ ¬ IsAssignment word := by
  constructor
  · rintro hnone ⟨name, value, rfl, hname, hvalue⟩
    have hattr := (isAttrName_iff name).mpr hname
    have heq : '=' ∉ name := fun h => absurd (isAttrChar_of_isAttrName hattr '=' h) (by decide)
    rw [assignment?, splitOnce_append heq] at hnone
    simp [hattr, hvalue] at hnone
  · intro hword
    cases h : assignment? word with
    | none => rfl
    | some found =>
      obtain ⟨name, value⟩ := found
      unfold assignment? at h
      split at h
      · next n v hsplit =>
        rw [Option.ite_none_right_eq_some, Bool.and_eq_true] at h
        obtain ⟨⟨hname, hvalue⟩, heq⟩ := h
        cases heq
        exact absurd ⟨name, value, (splitOnce_eq_some hsplit).1, (isAttrName_iff name).mp hname,
          by simpa using hvalue⟩ hword
      · cases h

theorem isBooleanName_iff (word : List Char) : isBooleanName word = true ↔ IsBooleanWord word := by
  have hlower : ∀ name ∈ booleanNames, lowerAscii name.toList = name.toList := by decide
  unfold isBooleanName IsBooleanWord sameWord
  rw [List.contains_iff_mem]
  constructor
  · intro h
    exact ⟨_, h, by rw [hlower _ h, String.toList_ofList, beq_self_eq_true]⟩
  · rintro ⟨name, hname, hs⟩
    rw [hlower name hname, beq_iff_eq] at hs
    rwa [hs, String.ofList_toList]

/-- The names for attributes without a value are names of attributes. -/
theorem isAttrName_of_isBooleanName {word : List Char} (h : isBooleanName word = true) :
    isAttrName word = true := by
  obtain ⟨name, hname, hsame⟩ := (isBooleanName_iff word).mp h
  have hletters : ∀ name ∈ booleanNames,
      name.toList ≠ [] ∧ (lowerAscii name.toList).all Char.isAlpha = true := by decide
  have hword : isName word = true :=
    isName_of_sameWord (hletters name hname).1 (hletters name hname).2 hsame
  cases word with
  | nil => cases hword
  | cons c cs =>
    rw [isName, Bool.and_eq_true, List.all_eq_true] at hword
    rw [isAttrName, Bool.and_eq_true, List.all_eq_true]
    have hchar : ∀ d, isNameChar d = true → isAttrChar d = true := fun d hd => by
      rw [isNameChar] at hd
      rw [isAttrChar, hd, Bool.true_or, Bool.true_or]
    refine ⟨?_, fun d hd => hchar d (hword.2 d hd)⟩
    have hstart := hword.1
    rw [isNameStart] at hstart
    rw [isAttrStart, hstart, Bool.true_or]

/-- The words that are left for the text do not start with an attribute. -/
theorem startsText_wordAttrs (attrs : Entries String) (ws : List (List Char)) :
    StartsText (wordAttrs attrs ws).2 := by
  fun_induction wordAttrs attrs ws with
  | case1 attrs =>
    intro w hw
    cases hw
  | case2 attrs word rest name value _ ih => exact ih
  | case3 attrs word rest _ _ ih => exact ih
  | case4 attrs word rest hassignment hname =>
    rintro w ⟨⟩
    refine ⟨hassignment, ?_⟩
    rw [← Bool.not_eq_true]
    intro hboolean
    rw [hboolean, isAttrName_of_isBooleanName hboolean] at hname
    exact hname rfl

theorem mergeClass_ne_nil (first second : List Char) : mergeClass first second ≠ [] := by
  unfold mergeClass
  split <;> simp

theorem addAttr_ne_empty {attrs : Entries String} {name value : List Char}
    (hattrs : ∀ attr ∈ attrs, attr.2 ≠ "") (hvalue : value ≠ []) :
    ∀ attr ∈ addAttr attrs name value, attr.2 ≠ "" := by
  intro attr hattr
  unfold addAttr at hattr
  dsimp only at hattr
  rcases Entries.mem_of_mem_insert hattr with rfl | hold
  · have hne : ∀ s : List Char, s ≠ [] → String.ofList s ≠ "" := fun s hs h => by
      rw [← String.toList_eq_nil_iff, String.toList_ofList] at h
      exact hs h
    refine hne _ ?_
    split
    · split
      · exact mergeClass_ne_nil _ _
      · exact hvalue
    · exact hvalue
  · exact hattrs attr hold

theorem Spelled.value_ne_empty {line : List Char} {t : Tag} (ht : t.Spelled line) :
    ∀ attr ∈ t.attrs, attr.2 ≠ "" := by
  have hP : AttrsInvariant line fun attrs => ∀ attr ∈ attrs, attr.2 ≠ "" :=
    { empty := nofun
      add := fun _ _ _ hattrs _ hvalue _ => addAttr_ne_empty hattrs hvalue }
  exact ht.attrs hP

/-! ## Text -/

theorem getLast?_trim (s : List Char) : ∀ c ∈ (trim s).getLast?, isBlank c = false := by
  intro c hc
  rw [trim, trimEnd, List.getLast?_reverse] at hc
  have hnot := List.head?_dropWhile_not isBlank (trimStart s).reverse
  rw [Option.mem_def.mp hc] at hnot
  exact hnot

theorem head?_trim (s : List Char) : ∀ c ∈ (trim s).head?, isBlank c = false := by
  intro c hc
  cases htrim : trim s with
  | nil =>
    rw [htrim] at hc
    cases hc
  | cons d ds =>
    rw [htrim] at hc
    cases hc
    refine trimStart_head (s := trim s) (r := ds) ?_
    rw [trimStart_trim, htrim]

theorem isQuote_of_space {c : Char} (hc : (c == ' ') = true) : isQuote c = false := by
  obtain rfl := beq_iff_eq.mp hc
  rfl

/-- Words from the end of a line are found again between single spaces. -/
theorem words_intercalate {s : List Char} {ws : List (List Char)} (hws : ws <:+ words s) :
    words ([' '].intercalate ws) = ws :=
  ((parts_splitUnquoted _ s).of_suffix hws).splitUnquoted_intercalate
    (fun _ => isQuote_of_space) rfl

theorem getLast?_intercalate {sep : Char} {ws : List (List Char)} {c : Char}
    (h : ws.getLast?.bind List.getLast? = some c) : ([sep].intercalate ws).getLast? = some c := by
  induction ws with
  | nil => cases h
  | cons w ws ih =>
    cases ws with
    | nil => simpa [List.intercalate] using h
    | cons w' ws =>
      rw [List.getLast?_cons_cons] at h
      rw [intercalate_cons_of_ne_nil _ _ (List.cons_ne_nil w' ws), List.getLast?_append, ih h]
      rfl

/-- A line without white space at its ends ends with its last words. -/
theorem getLast?_intercalate_words {s : List Char} {ws : List (List Char)}
    (hws : ws <:+ words (trim s)) (hne : ws ≠ []) : ([' '].intercalate ws).getLast? ≠ some ' ' := by
  have htrim : trim s ≠ [] := by
    intro hnil
    rw [hnil] at hws
    exact hne (List.suffix_nil.mp hws)
  have hc := List.getLast?_eq_some_getLast htrim
  have hblank := getLast?_trim s _ hc
  generalize (trim s).getLast htrim = c at hc hblank
  have hspace : (c == ' ') = false := by
    rw [beq_eq_false_iff_ne]
    rintro rfl
    exact absurd hblank (by decide)
  have hall : (splitUnquotedFrom (· == ' ') none [] (trim s)).getLast?.bind List.getLast? =
      some c :=
    getLast?_splitUnquotedFrom (by simpa using hc) hspace
  obtain ⟨before, hbefore⟩ := hws
  rw [← splitUnquoted, ← words, ← hbefore, List.getLast?_append_of_ne_nil _ hne] at hall
  rw [getLast?_intercalate hall]
  simpa using hspace

/-- Words at the end of a line without white space at its ends, of which the first is no attribute,
make a text. -/
theorem inlineText_of_words {s : List Char} {ws : List (List Char)} (hws : ws <:+ words (trim s))
    (hne : ws ≠ []) (hfirst : StartsText ws) : InlineText ([' '].intercalate ws) := by
  have hparts : Parts (· == ' ') ws := (parts_splitUnquoted _ _).of_suffix hws
  obtain ⟨word, rest, rfl⟩ := List.exists_cons_of_ne_nil hne
  have hword : word ≠ [] := hparts.ne_nil word List.mem_cons_self
  obtain ⟨d, ds, rfl⟩ := List.exists_cons_of_ne_nil hword
  have hhead : ∃ more, [' '].intercalate ((d :: ds) :: rest) = d :: more := by
    cases rest with
    | nil => exact ⟨ds, by simp [List.intercalate]⟩
    | cons w rest => exact ⟨_, intercalate_cons_of_ne_nil _ _ (List.cons_ne_nil w rest)⟩
  obtain ⟨more, hmore⟩ := hhead
  constructor
  case ne_nil => simp [hmore]
  case head =>
    have hd := (hparts.tight _ List.mem_cons_self).head_not_isSep (fun _ => isQuote_of_space) d rfl
    rw [hmore]
    simpa using hd
  case last => exact getLast?_intercalate_words hws hne
  case first =>
    obtain ⟨hassignment, hboolean⟩ := hfirst (d :: ds) rfl
    refine ⟨d :: ds, rest, words_intercalate hws, ?_, ?_⟩
    · exact assignment?_eq_none_iff.mp hassignment
    · rw [← isBooleanName_iff, hboolean]
      decide

theorem text_of_isVoid {line : List Char} {t : Tag} (h : ofLine? line = some t)
    (hvoid : t.isVoid = true) : t.text = none := by
  unfold ofLine? at h
  dsimp only at h
  split at h
  · cases h
  · cases h
    dsimp only at hvoid ⊢
    rw [hvoid, Bool.or_true, if_pos rfl]

/-- The text of a tag, if there is one, is what the attributes leave of the words. -/
theorem exists_words_of_text {line : List Char} {t : Tag} {text : String}
    (h : ofLine? line = some t) (htext : t.text = some text) :
    ∃ s ws, text.toList = [' '].intercalate ws ∧ ws ≠ [] ∧ ws <:+ words (trim s) ∧
      StartsText ws := by
  unfold ofLine? at h
  dsimp only at h
  split at h
  · cases h
  · cases h
    dsimp only at htext
    split at htext
    · cases htext
    · next hsome =>
      cases htext
      rw [Bool.or_eq_true, not_or, List.isEmpty_iff] at hsome
      exact ⟨_, _, String.toList_ofList, hsome.1, suffix_wordAttrs _ _, startsText_wordAttrs _ _⟩

theorem wellFormed_of_ofLine? {line : List Char} {t : Tag} (h : ofLine? line = some t) :
    t.WellFormed := by
  have hspelled := spelled_of_ofLine? h
  have htext : ∀ text, t.text = some text → InlineText text.toList := by
    intro text htext
    obtain ⟨s, ws, heq, hne, hws, hfirst⟩ := exists_words_of_text h htext
    rw [heq]
    exact inlineText_of_words hws hne hfirst
  exact
    { name := hspelled.name
      distinct := hspelled.nodup_names
      attrName := fun n hn => (isAttrName_iff _).mp (isAttrName_of_mem_names hspelled hn)
      value := hspelled.value_ne_empty
      isVoid := by rw [hspelled.isVoid, isVoidName_iff]
      void_text := text_of_isVoid h
      text := htext }

end Tag

/-! ## Directives -/

theorem DirectiveKind.name_ofName (name : String) : (ofName name).name = name := by
  have hname : ∀ entry ∈ keywords, entry.2.name = entry.1 := by decide
  unfold ofName
  cases h : keywords.lookup name with
  | none => rfl
  | some kind => exact hname (name, kind) (Entries.mem_of_get? h)

/-- The name is that of the kind, and the arguments are trimmed. -/
theorem wellFormed_directive {kind : DirectiveKind}
    (hname : ∀ c ∈ kind.name.toList, c.isLower = true ∨ c.isDigit = true ∨ c = '_')
    (args : List Char) : (directive kind args).WellFormed := by
  refine ⟨hname, ?_⟩
  rw [String.toList_ofList]
  exact ⟨Tag.head?_trim args, Tag.getLast?_trim args⟩

theorem isLower_of_mem_lowerAscii {name : List Char} (hname : isName name = true) :
    ∀ c ∈ lowerAscii name, c.isLower = true ∨ c.isDigit = true ∨ c = '_' := by
  intro c hc
  obtain ⟨d, hd, rfl⟩ := List.mem_map.mp hc
  have hchar := isNameChar_of_mem hname hd
  simp only [isNameChar, Char.isAlphanum, Bool.or_eq_true, beq_iff_eq] at hchar
  rcases hchar with (hletter | hdigit) | rfl
  · exact Or.inl (by rw [Char.isLower_toLower_eq_isAlpha, hletter])
  · have hupper : ¬ d.isUpper = true := by
      intro hupper
      rw [isDigit_iff] at hdigit
      have hletter : d.isAlpha = true := by simp [Char.isAlpha, hupper]
      rw [isAlpha_iff] at hletter
      omega
    exact Or.inr (Or.inl (by rwa [Char.toLower_eq_of_not_isUpper hupper]))
  · exact Or.inr (Or.inr rfl)

theorem wellFormed_of_keywordDirective? {line : List Char} {content : Content}
    (h : keywordDirective? line = some content) : content.WellFormed := by
  have hnames : ∀ entry ∈ DirectiveKind.keywords,
      entry.2.name.toList.all Char.isLower = true := by decide
  obtain ⟨⟨word, kind⟩, hkeyword, hfound⟩ := List.exists_of_findSome?_eq_some h
  obtain ⟨args, _, rfl⟩ := Option.map_eq_some_iff.mp hfound
  exact wellFormed_directive (fun c hc =>
    Or.inl (List.all_eq_true.mp (hnames _ hkeyword) c hc)) args

theorem wellFormed_of_classify {line : List Char} {content : Content}
    (h : classify line = some content) : content.WellFormed := by
  unfold classify at h
  split at h
  · cases h
  · cases h
    trivial
  · next rest =>
    split at h
    · cases h
    · next name args hne hsplit =>
      cases h
      have hname : isName name = true := by
        exact (Expr.splitName_eq hsplit hne).2.1
      refine wellFormed_directive ?_ args
      rw [DirectiveKind.name_ofName, String.toList_ofList]
      exact isLower_of_mem_lowerAscii hname
  · split at h
    · cases h
      trivial
    · split at h
      · next content' hkeyword =>
        cases h
        exact wellFormed_of_keywordDirective? hkeyword
      · obtain ⟨t, ht, rfl⟩ := Option.map_eq_some_iff.mp h
        exact Tag.wellFormed_of_ofLine? ht

/-! ## Silent lines -/

theorem dropWord?_eq_none_iff {word : String} {line : List Char} :
    dropWord? word.toList line = none ↔ ¬ OpensWith word line := by
  constructor
  · rintro hnone ⟨start, rest, rfl, hsame, hend⟩
    have hlength : start.length = word.toList.length := by
      have hlower : lowerAscii start = lowerAscii word.toList := beq_iff_eq.mp hsame
      have := congrArg List.length hlower
      rwa [lowerAscii, lowerAscii, List.length_map, List.length_map] at this
    have hany : rest.head?.any isNameChar = false := by
      cases rest with
      | nil => rfl
      | cons c rest => exact hend c rfl
    simp [dropWord?, ← hlength, hsame, hany] at hnone
  · intro hword
    unfold dropWord?
    dsimp only
    split
    · rfl
    · next hsame =>
      split
      · rfl
      · next hend =>
        rw [Bool.not_eq_true', Bool.not_eq_false] at hsame
        refine absurd ⟨_, _, (List.take_append_drop word.toList.length line).symm, hsame, ?_⟩ hword
        intro c hc
        rw [Option.mem_def.mp hc] at hend
        simpa using hend

/-- The words that make a line something else than a tag start with a letter. -/
theorem isAlpha_of_opensWith {word : String} (hword : word ∈ reservedWords) {c : Char}
    {rest : List Char} (h : OpensWith word (c :: rest)) : c.isAlpha = true := by
  obtain ⟨start, rest', heq, hsame, _⟩ := h
  have hletters : ∀ word ∈ reservedWords,
      word.toList ≠ [] ∧ (lowerAscii word.toList).all Char.isAlpha = true := by decide
  obtain ⟨hne, hall⟩ := hletters word hword
  have hlower : lowerAscii start = lowerAscii word.toList := beq_iff_eq.mp hsame
  cases start with
  | nil => exact absurd (List.map_eq_nil_iff.mp hlower.symm) hne
  | cons d start =>
    cases heq
    rw [← hlower, List.all_eq_true] at hall
    exact isAlpha_of_toLower (hall _ List.mem_cons_self)

theorem Tag.ofLine?_eq_none_iff (line : List Char) :
    Tag.ofLine? line = none ↔
      line.head?.any Char.isAlpha = false ∨
        (line.dropWhile Char.isAlphanum).head? = some '_' := by
  unfold Tag.ofLine?
  dsimp only
  split
  · next h => simpa using h
  · next h => simpa [not_or] using h

/-- A line that starts with none of the signs is silent unless it is a document type, a directive
or a tag. -/
theorem keyword_eq_none_iff (line : List Char) :
    ((dropWord? "doctype".toList line).isSome = false ∧ keywordDirective? line = none) ↔
      ∀ word ∈ reservedWords, ¬ OpensWith word line := by
  rw [reservedWords, List.forall_mem_cons, Option.isSome_eq_false_iff, Option.isNone_iff_eq_none,
    dropWord?_eq_none_iff, keywordDirective?, List.findSome?_eq_none_iff]
  simp [dropWord?_eq_none_iff]

theorem silent_iff_of_unsigned {line : List Char} (hcomment : ∀ rest, line ≠ '/' :: '/' :: rest)
    (htext : ∀ rest, line ≠ '|' :: rest) (hsign : ∀ rest, line ≠ '@' :: rest) :
    Silent line ↔
      (∀ word ∈ reservedWords, ¬ OpensWith word line) ∧ Tag.ofLine? line = none := by
  rw [Tag.ofLine?_eq_none_iff]
  cases line with
  | nil =>
    have hopens : ∀ word ∈ reservedWords, ¬ OpensWith word [] := by
      intro word hword
      rw [← dropWord?_eq_none_iff]
      revert word
      decide
    exact ⟨fun _ => ⟨hopens, Or.inl rfl⟩, fun _ => .empty⟩
  | cons c rest =>
    constructor
    · intro h
      cases h with
      | comment rest => exact absurd rfl (hcomment rest)
      | unnamed => exact absurd rfl (hsign rest)
      | stray _ _ hletter =>
        refine ⟨fun word hword hopens => ?_, Or.inl hletter⟩
        rw [isAlpha_of_opensWith hword hopens] at hletter
        cases hletter
      | underscore _ hopens hunderscore => exact ⟨hopens, Or.inr hunderscore⟩
    · rintro ⟨hopens, hline⟩
      have hbar : c ≠ '|' := fun h => htext rest (by rw [h])
      have hat : c ≠ '@' := fun h => hsign rest (by rw [h])
      cases hletter : c.isAlpha with
      | false => exact .stray hbar hat hletter
      | true =>
        refine .underscore hletter hopens (hline.resolve_left ?_)
        simp [hletter]

theorem classify_eq_none_iff (line : List Char) : classify line = none ↔ Silent line := by
  unfold classify
  split
  · next rest => exact ⟨fun _ => .comment rest, fun _ => rfl⟩
  · constructor
    · exact nofun
    · intro h
      cases h with
      | stray hbar => exact absurd rfl hbar
      | underscore hletter => cases hletter
  · next rest =>
    constructor
    · intro h
      split at h
      · next args hsplit =>
        refine .unnamed fun c hc => ?_
        cases rest with
        | nil => cases hc
        | cons d rest =>
          cases hc
          rw [splitName] at hsplit
          split at hsplit
          · cases hsplit
          · next hstart => simpa [isNameStart] using hstart
      · cases h
    · intro h
      cases h with
      | unnamed hname =>
        cases rest with
        | nil => rfl
        | cons d rest =>
          have hstart : isNameStart d = false := by simpa [isNameStart] using hname d rfl
          simp [splitName, hstart]
      | stray _ hat => exact absurd rfl hat
      | underscore hletter => cases hletter
  · next hcomment htext hsign =>
    rw [silent_iff_of_unsigned hcomment htext hsign, ← keyword_eq_none_iff]
    cases (dropWord? "doctype".toList line).isSome with
    | true => simp
    | false => cases keywordDirective? line <;> simp

/-- Whatever the line is, its content is well formed, and it has none exactly if it is silent. -/
theorem classify_wellFormed (line : List Char) :
    (∀ content, classify line = some content → content.WellFormed) ∧
      (classify line = none ↔ Silent line) :=
  ⟨fun _ h => wellFormed_of_classify h, classify_eq_none_iff line⟩

/-- A parenthesis and a quote that are never closed belong to the text. -/
theorem classify_wellFormed_unclosed :
    let line := "li.item#first disabled (class=wide 'a  b".toList
    let t : Tag :=
      { name := "li"
        attrs := [("class", "\"item\""), ("id", "\"first\""), ("disabled", "true")]
        text := some "(class=wide 'a  b"
        isVoid := false }
    classify line = some (.tag t) ∧ t.WellFormed := by
  intro line t
  have hline : classify line = some (.tag t) := rfl
  exact ⟨hline, (classify_wellFormed line).1 (.tag t) hline⟩

end Stencil
