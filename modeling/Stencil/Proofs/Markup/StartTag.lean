import Stencil.Proofs.Markup.Document
import Stencil.Text.Split

/-!
Writing and reading start tags.

A start tag is a name and a list of attributes, each bare or with a value. Its text has the values
escaped and between double quotes. A reader that knows nothing but this layout, and puts back the
characters that the entities stand for, finds the same name and attributes in front of any further
text (`StartTag.read_text`): the names have no character that ends a name, an escaped value has no
quote that would end it early, and escaping loses nothing (`unescape_escape`).
-/

namespace Stencil.Markup

/-! ## Entities -/

/-- The text with the characters that its entities stand for, read once from left to right. -/
def unescape : List Char → List Char
  | '&' :: 'a' :: 'm' :: 'p' :: ';' :: s => '&' :: unescape s
  | '&' :: 'l' :: 't' :: ';' :: s => '<' :: unescape s
  | '&' :: 'g' :: 't' :: ';' :: s => '>' :: unescape s
  | '&' :: 'q' :: 'u' :: 'o' :: 't' :: ';' :: s => '"' :: unescape s
  | '&' :: '#' :: '0' :: '3' :: '9' :: ';' :: s => '\'' :: unescape s
  | c :: s => c :: unescape s
  | [] => []

theorem unescape_cons_of_ne {c : Char} (h : c ≠ '&') (s : List Char) :
    unescape (c :: s) = c :: unescape s := by
  rw [unescape]
  all_goals exact fun _ hc => absurd hc h

theorem unescape_escapeChar_append (c : Char) (s : List Char) :
    unescape (escapeChar c ++ s) = c :: unescape s := by
  unfold escapeChar
  split
  · rfl
  · rfl
  · rfl
  · rfl
  · rfl
  · next hamp _ _ _ _ => exact unescape_cons_of_ne hamp s

theorem escape_cons (c : Char) (s : List Char) : escape (c :: s) = escapeChar c ++ escape s :=
  List.flatMap_cons

/-- What stands behind an escaped text plays no part in how this is read: no entity begins in what
one character is written as and ends in what the next one is. -/
theorem unescape_escape_append (s t : List Char) : unescape (escape s ++ t) = s ++ unescape t := by
  induction s with
  | nil => rfl
  | cons c s ih =>
    rw [escape_cons, List.append_assoc, unescape_escapeChar_append, ih, List.cons_append]

/-- What was escaped is read back. -/
theorem unescape_escape (s : List Char) : unescape (escape s) = s := by
  have h := unescape_escape_append s []
  rwa [List.append_nil, unescape, List.append_nil] at h

example : unescape "&amp;lt;&#039;&".toList = "&lt;'&".toList := by decide

/-! ## Start tags -/

/-- The name of an attribute and its value, if it has one. -/
abbrev Shown := List Char × Option (List Char)

def Shown.text : Shown → List Char
  | (name, none) => ' ' :: name
  | (name, some value) => ' ' :: (name ++ '=' :: '"' :: (escape value ++ ['"']))

structure StartTag where
  name : List Char
  attrs : List Shown

def StartTag.text (t : StartTag) : List Char :=
  '<' :: (t.name ++ (t.attrs.flatMap Shown.text ++ ['>']))

/-- Whether the character goes on with a name in a start tag. -/
def continuesName (c : Char) : Bool := !(c == ' ' || c == '=' || c == '>')

/-- The value at the front of a text, up to its closing quote, and the text after it. -/
def readValue : List Char → Option (List Char) × List Char
  | '=' :: '"' :: s =>
    (some (unescape (s.takeWhile (· != '"'))), (s.dropWhile (· != '"')).tail)
  | s => (none, s)

theorem length_readValue_le (s : List Char) : (readValue s).2.length ≤ s.length := by
  unfold readValue
  split
  · next s =>
    have hle := (List.dropWhile_suffix (l := s) (· != '"')).length_le
    simp only [List.length_tail, List.length_cons]
    omega
  · exact Nat.le_refl _

/-- The attributes up to the closing bracket, and the text after it. -/
def readAttributes : List Char → Option (List Shown × List Char)
  | '>' :: rest => some ([], rest)
  | ' ' :: s =>
    let value := readValue (s.dropWhile continuesName)
    (readAttributes value.2).map fun (attrs, rest) =>
      ((s.takeWhile continuesName, value.1) :: attrs, rest)
  | _ => none
termination_by s => s.length
decreasing_by
  have hvalue := length_readValue_le (s.dropWhile continuesName)
  have hname := (List.dropWhile_suffix (l := s) continuesName).length_le
  simp only [List.length_cons]
  omega

/-- The start tag at the front of a text, and the text after it. -/
def StartTag.read : List Char → Option (StartTag × List Char)
  | '<' :: s =>
    (readAttributes (s.dropWhile continuesName)).map fun (attrs, rest) =>
      (⟨s.takeWhile continuesName, attrs⟩, rest)
  | _ => none

/-! ## What is written is read -/

/-- No character of the name ends it. -/
def Unbroken (name : List Char) : Prop := ∀ c ∈ name, continuesName c = true

theorem continuesName_iff {c : Char} : continuesName c = true ↔ c ≠ ' ' ∧ c ≠ '=' ∧ c ≠ '>' := by
  simp [continuesName, and_assoc]

theorem continuesName_of_isAlphanum {c : Char} (h : c.isAlphanum = true) :
    continuesName c = true := by
  rw [continuesName_iff]
  refine ⟨?_, ?_, ?_⟩ <;>
  · rintro rfl
    cases h

theorem unbroken_of_isTagName {name : List Char} (h : IsTagName name) : Unbroken name :=
  fun c hc => continuesName_of_isAlphanum (h.forall_isAlphanum c hc)

theorem unbroken_of_isAttrName {name : List Char} (h : IsAttrName name) : Unbroken name := by
  have hsign : ∀ c ∈ ['_', ':', '-'], continuesName c = true := by simp [continuesName]
  refine h.forall_mem (fun c hc => ?_) fun c hc => ?_
  · rcases hc with hc | hc
    · exact continuesName_of_isAlphanum (isAlphanum_of_isAlpha hc)
    · exact hsign c (List.mem_append_left ['-'] hc)
  · exact hc.elim continuesName_of_isAlphanum (hsign c)

theorem readValue_escape (value s : List Char) :
    readValue ('=' :: '"' :: (escape value ++ '"' :: s)) = (some value, s) := by
  have hquote : ∀ c ∈ escape value, (c != '"') = true := by
    intro c hc
    exact bne_iff_ne.mpr ((safeText_escape value).no_markup c hc).2.2.1
  simp [readValue, List.takeWhile_append_of_pos hquote, List.dropWhile_append_of_pos hquote,
    unescape_escape]

/-- Without an equals sign there is no value. -/
theorem readValue_of_ne {c : Char} (h : c ≠ '=') (s : List Char) :
    readValue (c :: s) = (none, c :: s) := by
  rw [readValue]
  exact fun _ hc => h (List.cons.inj hc).1

theorem readAttributes_text {attrs : List Shown} (h : ∀ a ∈ attrs, Unbroken a.1)
    (rest : List Char) :
    readAttributes (attrs.flatMap Shown.text ++ '>' :: rest) = some (attrs, rest) := by
  induction attrs with
  | nil => rw [List.flatMap_nil, List.nil_append, readAttributes]
  | cons a attrs ih =>
    obtain ⟨ha, hattrs⟩ := List.forall_mem_cons.mp h
    obtain ⟨name, value?⟩ := a
    -- what follows an attribute is the next one or the closing bracket
    obtain ⟨c, s, heq, hc, hends⟩ : ∃ c s, attrs.flatMap Shown.text ++ '>' :: rest = c :: s ∧
        c ≠ '=' ∧ continuesName c = false := by
      cases attrs with
      | nil => exact ⟨'>', rest, rfl, by decide, by decide⟩
      | cons b attrs =>
        obtain ⟨_, _ | _⟩ := b <;> exact ⟨' ', _, rfl, by decide, by decide⟩
    cases value? with
    | none =>
      have htext : (Shown.text (name, none) ++ attrs.flatMap Shown.text) ++ '>' :: rest =
          ' ' :: (name ++ c :: s) := by rw [List.append_assoc, heq]; rfl
      have hhead : (c :: s).head?.any continuesName = false := hends
      rw [List.flatMap_cons, htext, readAttributes]
      simp only [takeWhile_append_of_head? ha hhead, dropWhile_append_of_head? ha hhead,
        readValue_of_ne hc]
      rw [← heq, ih hattrs]
      rfl
    | some value =>
      have htext : (Shown.text (name, some value) ++ attrs.flatMap Shown.text) ++ '>' :: rest =
          ' ' :: (name ++ '=' :: '"' :: (escape value ++ '"' ::
            (attrs.flatMap Shown.text ++ '>' :: rest))) := by simp [Shown.text]
      have hhead : ∀ t, ('=' :: t).head?.any continuesName = false := fun _ => rfl
      rw [List.flatMap_cons, htext, readAttributes]
      simp only [takeWhile_append_of_head? ha (hhead _), dropWhile_append_of_head? ha (hhead _),
        readValue_escape, ih hattrs]
      rfl

/-- What is written is read, whatever follows. -/
theorem StartTag.read_text {t : StartTag} (hname : Unbroken t.name)
    (hattrs : ∀ a ∈ t.attrs, Unbroken a.1) (rest : List Char) :
    StartTag.read (t.text ++ rest) = some (t, rest) := by
  have hhead : (t.attrs.flatMap Shown.text ++ '>' :: rest).head?.any continuesName = false := by
    cases t.attrs with
    | nil => rfl
    | cons a attrs => obtain ⟨_, _ | _⟩ := a <;> rfl
  have htext : t.text ++ rest = '<' :: (t.name ++ (t.attrs.flatMap Shown.text ++ '>' :: rest)) := by
    simp [StartTag.text]
  rw [htext, StartTag.read, takeWhile_append_of_head? hname hhead,
    dropWhile_append_of_head? hname hhead, readAttributes_text hattrs]
  rfl

end Stencil.Markup
