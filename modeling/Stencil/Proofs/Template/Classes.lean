import Stencil.Proofs.Expr.Completeness
import Stencil.Proofs.Expr.Shortcut
import Stencil.Proofs.Template.Attributes
import Stencil.Proofs.Template.Reading

/-!
The class of a tag.

A line may give its tag several classes. They are merged before any of them is evaluated: two texts
in quotes into one text in quotes, anything else into an expression. The merged value is what its
parts are one by one, with a space between them, where it makes no difference that they stand next
to each other (`Joinable`, `class_eq_join`). Texts in quotes stay what they are when none of their
markers is open at the end (`Literal`, `interpolate_append_space`). Values that become parts of an
expression stay what they are when they read the same there as in an attribute (`isPlain`) and have
the same text (`Worded`); a list of several words has not (`class_of_list`).
-/

namespace Stencil

/-! ## Texts next to each other -/

/-- No marker in the text is open at its end. -/
def MarkersEnd (s : List Char) : Prop :=
  ∀ before raw expr, s = before ++ markerText raw expr → '\x7d' ∈ expr

theorem MarkersEnd.of_append (before : List Char) {s : List Char} (h : MarkersEnd (before ++ s)) :
    MarkersEnd s := by
  rintro b raw expr rfl
  exact h (before ++ b) raw expr (List.append_assoc ..).symm

theorem MarkersEnd.append_space {s t : List Char} (hs : MarkersEnd s) (ht : MarkersEnd t) :
    MarkersEnd (s ++ ' ' :: t) := by
  intro before raw expr h
  rcases List.append_eq_append_iff.mp h with ⟨mid, hbefore, hmid⟩ | ⟨mid, hs', hmid⟩
  · -- the marker starts after the first text
    cases mid with
    | nil =>
      cases raw <;> simp [markerText] at hmid
    | cons c mid =>
      cases hmid
      exact ht mid raw expr rfl
  · -- the marker starts in the first text, and no space is part of its start
    rcases mid with _ | ⟨c, _ | ⟨d, mid⟩⟩
    · cases raw <;> simp [markerText] at hmid
    · simp [markerText] at hmid
    · cases hmid
      exact List.mem_append_left _ (hs before raw mid hs')

/-- A space keeps the markers of two texts apart, since it is part of no marker's start. -/
theorem scanMarkers_append_space (m? : Option OpenMarker) {s : List Char}
    (hopen : ∀ m ∈ m?, '\x7d' ∈ s) (hs : MarkersEnd s) (t : List Char) :
    scanMarkers m? (s ++ ' ' :: t) =
      scanMarkers m? s ++ .literal ' ' :: scanMarkers none t := by
  fun_induction scanMarkers m? s with
  | case1 => rfl
  | case2 cs ih =>
    have hclosed : '\x7d' ∈ cs := hs [] false cs rfl
    exact ih (fun _ _ => hclosed) (.of_append ['#', '\x7b'] hs)
  | case3 cs ih =>
    have hclosed : '\x7d' ∈ cs := hs [] true cs rfl
    exact ih (fun _ _ => hclosed) (.of_append ['!', '\x7b'] hs)
  | case4 c cs hhash hbang ih =>
    have hstart : ∀ rest, cs ++ ' ' :: t = '\x7b' :: rest → ∃ rest', cs = '\x7b' :: rest' := by
      intro rest h
      cases cs with
      | nil => cases h
      | cons d cs =>
        cases h
        exact ⟨cs, rfl⟩
    rw [List.cons_append, scanMarkers, ih nofun (.of_append [c] hs)]
    · rfl
    · intro rest hc h
      obtain ⟨rest', h'⟩ := hstart rest h
      exact hhash rest' hc h'
    · intro rest hc h
      obtain ⟨rest', h'⟩ := hstart rest h
      exact hbang rest' hc h'
  | case5 m => cases hopen m rfl
  | case6 m c cs hc ih =>
    rw [List.cons_append, scanMarkers, if_pos hc, ih nofun (.of_append [c] hs)]
    rfl
  | case7 m c cs hc ih =>
    have hclosed : '\x7d' ∈ cs := by
      rcases List.mem_cons.mp (hopen m rfl) with h | h
      · exact absurd (beq_iff_eq.mpr h.symm) hc
      · exact h
    rw [List.cons_append, scanMarkers, if_neg hc]
    exact ih (fun _ _ => hclosed) (.of_append [c] hs)

theorem interpolate_append_space {s t : List Char} (hs : MarkersEnd s) (c : Context) :
    interpolate .none (s ++ ' ' :: t) c =
      interpolate .none s c ++ ' ' :: interpolate .none t c := by
  rw [interpolate, markerPieces, scanMarkers_append_space none nofun hs, List.flatMap_append,
    List.flatMap_cons]
  rfl

/-- Without an opening brace nothing is a marker. -/
theorem markersEnd_of_not_mem {s : List Char} (h : '\x7b' ∉ s) : MarkersEnd s := by
  rintro before raw expr rfl
  exact absurd (by simp [markerText]) h

theorem interpolate_of_not_mem {s : List Char} (h : '\x7b' ∉ s) (c : Context) :
    interpolate .none s c = s := by
  have hpieces : scanMarkers none s = s.map .literal := by
    induction s with
    | nil => rfl
    | cons d s ih =>
      have hs : '\x7b' ∉ s := fun hmem => h (List.mem_cons_of_mem _ hmem)
      rw [scanMarkers, ih hs]
      · rfl
      · rintro rest _ rfl
        exact hs List.mem_cons_self
      · rintro rest _ rfl
        exact hs List.mem_cons_self
  rw [interpolate, markerPieces, hpieces, List.flatMap_map]
  exact List.flatMap_singleton' s

/-! ## Quoted texts -/

theorem trim_of_ends {first last : Char} (hfirst : isBlank first = false)
    (hlast : isBlank last = false) (s : List Char) :
    trim (first :: (s ++ [last])) = first :: (s ++ [last]) := by
  have hstart : trimStart (first :: (s ++ [last])) = first :: (s ++ [last]) :=
    List.dropWhile_cons_of_neg (by simp [hfirst])
  have hend : (first :: (s ++ [last])).reverse = last :: (s.reverse ++ [first]) := by simp
  rw [trim, hstart, trimEnd, hend, List.dropWhile_cons_of_neg (by simp [hlast])]
  simp

theorem isQuoted_quoted {q : Char} (h : isQuote q = true) (s : List Char) :
    isQuoted (q :: (s ++ [q])) = true := by
  cases s with
  | nil => simp [isQuoted, h]
  | cons c s =>
    show (isQuote q && (c :: s ++ [q]).getLast? == some q) = true
    rw [h, List.getLast?_concat]
    simp

theorem unquote_quoted {q : Char} (h : isQuote q = true) (s : List Char) :
    unquote (q :: (s ++ [q])) = s := by
  rw [unquote, if_pos (isQuoted_quoted h s)]
  simp

theorem trim_quoted {q : Char} (h : isQuote q = true) (s : List Char) :
    trim (q :: (s ++ [q])) = q :: (s ++ [q]) :=
  trim_of_ends (isBlank_of_isQuote h) (isBlank_of_isQuote h) s

theorem attributeValue_quoted {q : Char} (h : isQuote q = true) (s : List Char) (c : Context) :
    attributeValue (q :: (s ++ [q])) c = .str (String.ofList (interpolate .none s c)) := by
  simp only [attributeValue, trim_quoted h, isQuoted_quoted h, if_true, unquote_quoted h]

theorem mergeClass_quoted {q r : Char} (hq : isQuote q = true) (hr : isQuote r = true)
    (s t : List Char) :
    Tag.mergeClass (q :: (s ++ [q])) (r :: (t ++ [r])) = r :: (s ++ ' ' :: t ++ [r]) := by
  simp [Tag.mergeClass, isQuoted_quoted hq, isQuoted_quoted hr, unquote_quoted hq,
    unquote_quoted hr]

/-! ## Values as expressions -/

namespace Expr

open Grammar

/-- As an expression, the text has this value in this context. -/
def Reads (c : Context) (raw : List Char) (v : Value) : Prop :=
  ∃ ts e, Lexes raw ts ∧ Expression ts e ∧ eval c e = .ok v

theorem reads_iff {c : Context} {raw : List Char} {v : Value} :
    Reads c raw v ↔ tryEvaluate raw c = .ok v := by
  rw [tryEvaluate]
  constructor
  · rintro ⟨ts, e, hts, he, heval⟩
    rw [parse_eq_ok_iff.mpr ⟨ts, hts, ofTokens_of_expression he⟩]
    exact heval
  · intro h
    split at h
    · next e hparse =>
      obtain ⟨ts, hts, he⟩ := parse_eq_ok_iff.mp hparse
      exact ⟨ts, e, hts, of_ofTokens sound_expression he, h⟩
    · cases h

theorem reads_trim_iff {c : Context} {raw : List Char} {v : Value} :
    Reads c (trim raw) v ↔ Reads c raw v := by
  simp only [Reads, lexes_trim_iff]

theorem evaluate_of_reads {c : Context} {raw : List Char} {v : Value} (h : Reads c raw v)
    (hname : lookUp? (trim raw) c = none) : evaluate raw c = v := by
  rw [evaluate, hname, reads_iff.mp (reads_trim_iff.mpr h)]

/-- Without the quote and without a backslash a string is what stands in it. -/
theorem lexString_plain {q : Char} (hq : q ≠ '\\') {s : List Char}
    (hs : ∀ c ∈ s, c ≠ q ∧ c ≠ '\\') (done : List Char) :
    lexString q done (s ++ [q]) = some (done.reverse ++ s, []) := by
  induction s generalizing done with
  | nil =>
    rw [List.nil_append, lexString]
    · simp
    · exact fun h => absurd h hq
    · exact fun _ _ h => absurd h hq
  | cons c s ih =>
    obtain ⟨hc, hbackslash⟩ := hs c List.mem_cons_self
    rw [List.cons_append, lexString, if_neg (by simpa using hc),
      ih fun d hd => hs d (List.mem_cons_of_mem _ hd)]
    · simp
    · exact fun h => absurd h hbackslash
    · exact fun _ _ h => absurd h hbackslash

theorem reads_quoted {q : Char} (hq : isQuote q = true) {s : List Char}
    (hs : ∀ c ∈ s, c ≠ q ∧ c ≠ '\\') (c : Context) :
    Reads c (q :: (s ++ [q])) (.str (String.ofList s)) := by
  have htoken : lexToken 0 q (s ++ [q]) = .ok (.str (String.ofList s), []) := by
    rcases eq_of_isQuote hq with rfl | rfl <;>
    · rw [lexToken, lexString_plain (by decide) hs]
      rfl
  have hstart : trimStart (q :: (s ++ [q])) = q :: (s ++ [q]) :=
    List.dropWhile_cons_of_neg (by simp [isBlank_of_isQuote hq])
  exact ⟨_, _, .cons hstart htoken (.nil rfl), expression_of_primary (.str _), rfl⟩

theorem reads_of_evaluate {c : Context} {raw : List Char} (hvalue : evaluate raw c ≠ .null)
    (hword : ∀ w ∈ reservedWords, sameWord (trim raw) w.toList = false) :
    Reads c raw (evaluate raw c) := by
  rw [← reads_trim_iff, reads_iff]
  unfold evaluate at hvalue ⊢
  dsimp only at hvalue ⊢
  split at hvalue
  · next v hv =>
    refine tryEvaluate_of_lookUp? hv fun w hw hsame => ?_
    rw [hword w hw] at hsame
    cases hsame
  · split at hvalue
    · next v hv => exact hv
    · exact absurd rfl hvalue

theorem lexes_lParen {s : List Char} {ts : List Token} (h : Lexes s ts) :
    Lexes ('(' :: s) (.symbol .lParen :: ts) := by
  have htoken : lexToken 0 '(' s = .ok (.symbol .lParen, s) := rfl
  exact .cons rfl htoken h

theorem lexes_rParen : Lexes [')'] [.symbol .rParen] := by
  have htoken : lexToken 0 ')' [] = .ok (.symbol .rParen, []) := rfl
  exact .cons rfl htoken (.nil rfl)

theorem lexes_glue :
    Lexes ") ~ ' ' ~ ".toList [.symbol .rParen, .symbol .tilde, .str " ", .symbol .tilde] :=
  lex_eq_ok_iff.mp rfl

/-- Two texts with a space between them, each the text of what it would be alone. -/
theorem reads_concat {c : Context} {first second : List Char} {v w : Value}
    (hf : Reads c first v) (hs : Reads c second w) :
    Reads c ('(' :: (first ++ ") ~ ' ' ~ (".toList ++ (second ++ [')'])))
      (.str (v.text ++ " " ++ w.text)) := by
  obtain ⟨ts, e, hts, he, heval⟩ := hf
  obtain ⟨us, e', hus, he', heval'⟩ := hs
  have hsecond : Lexes ('(' :: (second ++ [')'])) (.symbol .lParen :: (us ++ [.symbol .rParen])) :=
    lexes_lParen (hus.append lexes_rParen (apart_cons.mpr rfl))
  have hglue := lexes_glue.append hsecond (apart_cons.mpr rfl)
  have hlexes := lexes_lParen (hts.append hglue (apart_cons.mpr rfl))
  have hleft := Chain.join (.operand (operand_of_primary (.parens he))) Sign.concat
    (operand_of_primary (.str " "))
  have hsum := Chain.join hleft Sign.concat (operand_of_primary (.parens he'))
  refine ⟨_, _, ?_, expression_of_sum hsum, ?_⟩
  · simpa using hlexes
  · simp only [eval, heval, heval', applyBinary, Value.text]
    rfl

end Expr

/-! ## One class value after another -/

namespace Tag

/-- A text in quotes in which every marker ends. -/
def Literal (raw : List Char) : Prop := isQuoted raw = true ∧ MarkersEnd (unquote raw)

/-- The characters that mean something inside quotes. -/
def isActive (c : Char) : Bool := isQuote c || c == '\\' || c == '\x7b'

/-- A text in quotes without active characters, or an expression other than the word `not`. -/
def isPlain (raw : List Char) : Bool :=
  if isQuoted (trim raw) then (unquote (trim raw)).all (fun ch => !isActive ch)
  else !sameWord (trim raw) "not".toList

/-- A string, or a list with the same text everywhere. -/
inductive Worded : Value → Prop
  | str (s : String) : Worded (.str s)
  | list {vs : List Value} : (Value.list vs).attributeText = (Value.list vs).text →
      Worded (.list vs)

theorem Worded.attributeText {v : Value} (h : Worded v) : v.attributeText = v.text := by
  cases h with
  | str s => rfl
  | list h => exact h

variable {c : Context} {first second raw : List Char}

theorem Literal.mergeClass (hf : Literal first) (hs : Literal second) (c : Context) :
    Literal (mergeClass first second) ∧
      (attributeValue (mergeClass first second) c).attributeText =
        (attributeValue first c).attributeText ++ " " ++
          (attributeValue second c).attributeText := by
  obtain ⟨q, hq, hfq⟩ := isQuoted_eq_true hf.1
  obtain ⟨r, hr, hsr⟩ := isQuoted_eq_true hs.1
  rw [hfq, hsr, mergeClass_quoted hq hr]
  constructor
  · exact ⟨isQuoted_quoted hr _, by
      rw [unquote_quoted hr]
      exact hf.2.append_space hs.2⟩
  · rw [attributeValue_quoted hq, attributeValue_quoted hr, attributeValue_quoted hr,
      interpolate_append_space hf.2]
    simp [Value.attributeText, Value.text, String.append_assoc]

theorem isPlain_quoted {q : Char} (hq : isQuote q = true) {s : List Char} :
    isPlain (q :: (s ++ [q])) = true ↔ ∀ ch ∈ s, isActive ch = false := by
  rw [isPlain, trim_quoted hq, if_pos (isQuoted_quoted hq s), unquote_quoted hq, List.all_eq_true]
  simp only [Bool.not_eq_true']

theorem markersEnd_of_not_isActive {s : List Char} (h : ∀ ch ∈ s, isActive ch = false) :
    MarkersEnd s :=
  markersEnd_of_not_mem fun hmem => absurd (h _ hmem) (by decide)

theorem attributeValue_trim (raw : List Char) (c : Context) :
    attributeValue (trim raw) c = attributeValue raw c := by
  simp only [attributeValue, trim_trim]

theorem reads_of_not_isQuoted (hquoted : ¬ isQuoted (trim raw) = true)
    (hnot : sameWord (trim raw) "not".toList = false) (hvalue : Worded (attributeValue raw c)) :
    Expr.Reads c (trim raw) (attributeValue raw c) := by
  simp only [attributeValue, if_neg hquoted] at hvalue ⊢
  split at hvalue
  · cases hvalue
  · next htrue =>
    split at hvalue
    · cases hvalue
    · next hfalse =>
      split at hvalue
      · cases hvalue
      · next hnull =>
        rw [if_neg htrue, if_neg hfalse, if_neg hnull]
        refine Expr.reads_of_evaluate ?_ ?_
        · intro heq
          rw [heq] at hvalue
          cases hvalue
        · rw [trim_trim]
          intro w hw
          simp only [Expr.reservedWords, List.mem_cons, List.not_mem_nil, or_false] at hw
          rcases hw with rfl | rfl | rfl | rfl
          · exact Bool.eq_false_iff.mpr htrue
          · exact Bool.eq_false_iff.mpr hfalse
          · exact Bool.eq_false_iff.mpr hnull
          · exact hnot

/-- In an expression a plain value is what it is in an attribute. -/
theorem reads_of_isPlain (h : isPlain raw = true) (hvalue : Worded (attributeValue raw c)) :
    Expr.Reads c raw (attributeValue raw c) := by
  rw [← Expr.reads_trim_iff]
  by_cases hquoted : isQuoted (trim raw) = true
  · obtain ⟨q, hq, hraw⟩ := isQuoted_eq_true hquoted
    have hplain : isPlain (q :: (unquote (trim raw) ++ [q])) = true := by
      rw [← hraw, isPlain, trim_trim]
      exact h
    have hchars := (isPlain_quoted hq).mp hplain
    have hbrace : '\x7b' ∉ unquote (trim raw) := fun hmem => absurd (hchars _ hmem) (by decide)
    have hinside := attributeValue_quoted hq (unquote (trim raw)) c
    rw [← hraw, attributeValue_trim, interpolate_of_not_mem hbrace] at hinside
    have hother : ∀ ch ∈ unquote (trim raw), ch ≠ q ∧ ch ≠ '\\' := by
      intro ch hch
      have hactive := hchars ch hch
      constructor
      · rintro rfl
        rw [isActive, hq] at hactive
        cases hactive
      · rintro rfl
        cases hactive
    have hreads := Expr.reads_quoted hq hother c
    rwa [← hraw, ← hinside] at hreads
  · rw [isPlain, if_neg hquoted, Bool.not_eq_true'] at h
    exact reads_of_not_isQuoted hquoted h hvalue

theorem trim_parens (s : List Char) : ∃ s', trim ('(' :: s) = '(' :: s' := by
  have hprefix : trim ('(' :: s) <+: '(' :: s := isPrefix_trimEnd ('(' :: s)
  have hne : trim ('(' :: s) ≠ [] := by
    intro hnil
    obtain ⟨before, after, heq, hbefore, hafter⟩ := exists_eq_append_trim ('(' :: s)
    have hmem : '(' ∈ before ++ [] ++ after := by
      rw [← hnil, ← heq]
      exact List.mem_cons_self
    rw [List.append_nil, List.mem_append] at hmem
    exact absurd (hmem.elim (hbefore '(') (hafter '(')) (by decide)
  obtain ⟨c, s', hs'⟩ := List.exists_cons_of_ne_nil hne
  rw [hs'] at hprefix
  exact ⟨s', by rw [hs', (List.cons_prefix_cons.mp hprefix).1]⟩

/-- A value in parentheses is an expression, whatever they hold. -/
theorem attributeValue_parens {inside : List Char} {v : Value}
    (h : Expr.Reads c ('(' :: inside) v) : attributeValue ('(' :: inside) c = v := by
  rw [← Expr.reads_trim_iff] at h
  rw [← attributeValue_trim]
  obtain ⟨inside', htrim⟩ := trim_parens inside
  rw [htrim] at h ⊢
  have htrim' : trim ('(' :: inside') = '(' :: inside' := by rw [← htrim, trim_trim]
  have hevaluate : Expr.evaluate ('(' :: inside') c = v :=
    Expr.evaluate_of_reads h (by rw [htrim']; rfl)
  have hquoted : ¬ isQuoted ('(' :: inside') = true := fun h => not_isQuoted_parens inside' (.inl h)
  simp only [attributeValue, htrim', if_neg hquoted, hevaluate]
  rfl

theorem isPlain_mergeClass (hf : isPlain first = true) (hs : isPlain second = true)
    (hfirst : Worded (attributeValue first c)) (hsecond : Worded (attributeValue second c)) :
    (isPlain (mergeClass first second) = true ∧
      Worded (attributeValue (mergeClass first second) c)) ∧
      (attributeValue (mergeClass first second) c).attributeText =
        (attributeValue first c).attributeText ++ " " ++
          (attributeValue second c).attributeText := by
  by_cases hboth : isQuoted first = true ∧ isQuoted second = true
  · obtain ⟨q, hq, hfq⟩ := isQuoted_eq_true hboth.1
    obtain ⟨r, hr, hsr⟩ := isQuoted_eq_true hboth.2
    rw [hfq, isPlain_quoted hq] at hf
    rw [hsr, isPlain_quoted hr] at hs
    have hmerge := Literal.mergeClass ⟨hboth.1, markersEnd_of_not_isActive hf⟩
      ⟨hboth.2, markersEnd_of_not_isActive hs⟩ c
    refine ⟨⟨?_, ?_⟩, hmerge.2⟩
    · rw [hfq, hsr, mergeClass_quoted hq hr, isPlain_quoted hr]
      intro ch hch
      rcases List.mem_append.mp hch with h | h
      · exact hf ch h
      · rcases List.mem_cons.mp h with rfl | h
        · decide
        · exact hs ch h
    · obtain ⟨q', hq', hmerged⟩ := isQuoted_eq_true hmerge.1.1
      rw [hmerged, attributeValue_quoted hq']
      exact .str _
  · have hvalue := attributeValue_parens
      (Expr.reads_concat (reads_of_isPlain hf hfirst) (reads_of_isPlain hs hsecond))
    rw [mergeClass_of_not_isQuoted hboth]
    refine ⟨⟨?_, ?_⟩, ?_⟩
    · obtain ⟨inside, htrim⟩ := trim_parens (first ++ ") ~ ' ' ~ (".toList ++ (second ++ [')']))
      rw [isPlain, htrim, if_neg fun h => not_isQuoted_parens inside (.inl h)]
      rfl
    · rw [hvalue]
      exact .str _
    · rw [hvalue, hfirst.attributeText, hsecond.attributeText]
      rfl

/-- The values that join to what they are alone: one value that is there at all, texts in quotes
whose markers end, or values that are the same in an expression as in an attribute. -/
inductive Joinable (c : Context) : List (List Char) → Prop
  | alone {raw : List Char} : (attributeValue raw c).isAbsent = false → Joinable c [raw]
  | literals {raws : List (List Char)} : (∀ raw ∈ raws, Literal raw) → Joinable c raws
  | plain {raws : List (List Char)} :
      (∀ raw ∈ raws, isPlain raw = true ∧ Worded (attributeValue raw c)) → Joinable c raws

theorem attributeText_foldl_mergeClass {P : List Char → Prop}
    (hmerge : ∀ {first second : List Char}, P first → P second → P (mergeClass first second) ∧
      (attributeValue (mergeClass first second) c).attributeText =
        (attributeValue first c).attributeText ++ " " ++ (attributeValue second c).attributeText)
    {raw : List Char} {raws : List (List Char)} (hraw : P raw) (hraws : ∀ r ∈ raws, P r) :
    (attributeValue (raws.foldl mergeClass raw) c).attributeText =
      " ".intercalate ((raw :: raws).map fun r => (attributeValue r c).attributeText) := by
  induction raws generalizing raw with
  | nil => rfl
  | cons r raws ih =>
    obtain ⟨hmerged, htext⟩ := hmerge hraw (hraws r List.mem_cons_self)
    rw [List.foldl_cons, ih hmerged fun r hr => hraws r (List.mem_cons_of_mem _ hr)]
    simp only [List.map_cons, htext]
    rfl

theorem Joinable.attributeText {raws : List (List Char)} (h : Joinable c (raw :: raws)) :
    (attributeValue (raws.foldl Tag.mergeClass raw) c).attributeText =
      " ".intercalate ((raw :: raws).map fun r => (attributeValue r c).attributeText) := by
  cases h with
  | alone => rfl
  | literals h =>
    obtain ⟨hraw, hraws⟩ := List.forall_mem_cons.mp h
    exact attributeText_foldl_mergeClass (fun hf hs => hf.mergeClass hs c) hraw hraws
  | plain h =>
    obtain ⟨hraw, hraws⟩ := List.forall_mem_cons.mp h
    exact attributeText_foldl_mergeClass
      (P := fun raw => isPlain raw = true ∧ Worded (attributeValue raw c))
      (fun hf hs => isPlain_mergeClass hf.1 hs.1 hf.2 hs.2) hraw hraws

/-- The class of a tag is the values that its line gives for it, in their order and with a space
between them, each as it would be alone. -/
theorem class_eq_join {line : List Char} {t : Tag} {c : Context} (ht : ofLine? line = some t)
    (hne : classValues (givenAttrs line) ≠ []) (h : Joinable c (classValues (givenAttrs line))) :
    ∃ raw, t.attrs.get? "class" = some raw ∧
      (attributeValue raw.toList c).attributeText =
        " ".intercalate ((classValues (givenAttrs line)).map fun raw =>
          (attributeValue raw c).attributeText) := by
  obtain ⟨raw, raws, hvalues⟩ := List.exists_cons_of_ne_nil hne
  rw [hvalues] at h ⊢
  refine ⟨_, get?_class_of_ofLine? ht hvalues, ?_⟩
  rw [String.toList_ofList]
  exact h.attributeText

/-- Shorthands, a variable and a quoted text. -/
theorem class_eq_join_extra :
    let line := "div.card.wide(class=extra, id=x) class='last' Hello".toList
    let c := Context.ofList [("extra", .str "big")]
    ∃ t, ofLine? line = some t ∧ classValues (givenAttrs line) ≠ [] ∧
      Joinable c (classValues (givenAttrs line)) ∧
      ∃ raw, t.attrs.get? "class" = some raw ∧
        (attributeValue raw.toList c).attributeText =
          " ".intercalate ((classValues (givenAttrs line)).map fun raw =>
            (attributeValue raw c).attributeText) := by
  intro line c
  have ht : (ofLine? line).isSome = true := by decide
  have hvalues : classValues (givenAttrs line) =
      ["\"card wide\"".toList, "extra".toList, "'last'".toList] := by decide
  have hjoinable : Joinable c (classValues (givenAttrs line)) := by
    rw [hvalues]
    refine .plain fun raw hraw => ?_
    simp only [List.mem_cons, List.not_mem_nil, or_false] at hraw
    rcases hraw with rfl | rfl | rfl
    · exact ⟨by decide, .str _⟩
    · exact ⟨by decide, .str _⟩
    · exact ⟨by decide, .str _⟩
  have hne : classValues (givenAttrs line) ≠ [] := by
    rw [hvalues]
    exact List.cons_ne_nil _ _
  obtain ⟨t, ht⟩ := Option.isSome_iff_exists.mp ht
  exact ⟨t, ht, hne, hjoinable, class_eq_join ht hne hjoinable⟩

/-- Next to another class a list has commas between its words, alone it has none. -/
theorem class_of_list :
    let line := "div.card(class=classes) Hello".toList
    let c := Context.ofList [("classes", .list [.str "btn", .str "big"])]
    ∃ t raw, ofLine? line = some t ∧ t.attrs.get? "class" = some raw ∧
      (attributeValue raw.toList c).attributeText = "card btn, big" ∧
      " ".intercalate ((classValues (givenAttrs line)).map fun raw =>
        (attributeValue raw c).attributeText) = "card btn big" := by
  intro line c
  have hfirst : Expr.Reads c "\"card\"".toList (.str "card") :=
    Expr.reads_quoted (q := '"') (s := "card".toList) (by decide) (by simp) c
  have hsecond : Expr.Reads c "classes".toList (.list [.str "btn", .str "big"]) :=
    Expr.reads_of_evaluate nofun (by decide)
  have hmerged := attributeValue_parens (Expr.reads_concat hfirst hsecond)
  have ht : (ofLine? line).isSome = true := by decide
  have hvalues : classValues (givenAttrs line) = ["\"card\"".toList, "classes".toList] := by decide
  obtain ⟨t, ht⟩ := Option.isSome_iff_exists.mp ht
  refine ⟨t, _, ht, get?_class_of_ofLine? ht hvalues, ?_, ?_⟩
  · have hmerge : ["classes".toList].foldl mergeClass "\"card\"".toList =
        '(' :: ("\"card\"".toList ++ ") ~ ' ' ~ (".toList ++ ("classes".toList ++ [')'])) := by
      decide
    rw [String.toList_ofList, hmerge, hmerged]
    rfl
  · rw [hvalues]
    rfl

end Tag

end Stencil
