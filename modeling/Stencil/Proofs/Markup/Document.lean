import Stencil.Markup.Escape
import Stencil.Template.Tag

/-!
The language of rendered documents.

A document is a sequence of items: the document type, a line of text, a void element, an element
around text on one line, or an element around a document on lines of its own. All text in it, also
that of attribute values, is safe: it has no angle bracket and no quote, and an ampersand only as
the start of an entity. In such a text nothing can end the tag, the attribute or the element around
it. Main statement: `safeText_escape`, escaping makes any text safe.
-/

namespace Stencil.Markup

def entities : List (List Char) :=
  [['&', 'a', 'm', 'p', ';'], ['&', 'l', 't', ';'], ['&', 'g', 't', ';'],
   ['&', 'q', 'u', 'o', 't', ';'], ['&', '#', '0', '3', '9', ';']]

/-- Text without angle brackets and quotes, in which every ampersand starts an entity. -/
structure SafeText (s : List Char) : Prop where
  no_markup : ∀ c ∈ s, c ≠ '<' ∧ c ≠ '>' ∧ c ≠ '"' ∧ c ≠ '\''
  entity : ∀ before rest, s = before ++ '&' :: rest → ∃ e ∈ entities, e <+: '&' :: rest

/-- A character of one class and then any number of another. -/
def IsWord (start more : Char → Prop) : List Char → Prop
  | [] => False
  | c :: cs => start c ∧ ∀ d ∈ cs, more d

def IsTagName : List Char → Prop :=
  IsWord (fun c => c.isAlpha = true) fun c => c.isAlphanum = true

def IsAttrName : List Char → Prop :=
  IsWord (fun c => c.isAlpha = true ∨ c ∈ ['_', ':'])
    fun c => c.isAlphanum = true ∨ c ∈ ['_', ':', '-']

/-- The name of an element without contents, in any ASCII case. -/
def IsVoidName (s : List Char) : Prop := ∃ name ∈ Tag.voidNames, sameWord s name.toList = true

/-- Any number of texts of one kind, one after the other. -/
inductive Star (P : List Char → Prop) : List Char → Prop
  | nil : Star P []
  | cons {s rest : List Char} : P s → Star P rest → Star P (s ++ rest)

inductive Attribute : List Char → Prop
  | bare {name : List Char} : IsAttrName name → Attribute (' ' :: name)
  | valued {name value : List Char} : IsAttrName name → SafeText value →
      Attribute (' ' :: name ++ ['=', '"'] ++ value ++ ['"'])

inductive Item : List Char → Prop
  | doctype : Item "<!DOCTYPE html>\n".toList
  | text {s : List Char} : SafeText s → Item (s ++ ['\n'])
  | void {name attrs : List Char} : IsTagName name → IsVoidName name → Star Attribute attrs →
      Item ('<' :: name ++ attrs ++ ['>', '\n'])
  | inline {name attrs text : List Char} : IsTagName name → Star Attribute attrs →
      SafeText text → Item ('<' :: name ++ attrs ++ ['>'] ++ text ++ ['<', '/'] ++ name ++ ['>', '\n'])
  | block {name attrs body : List Char} : IsTagName name → Star Attribute attrs → Star Item body →
      Item ('<' :: name ++ attrs ++ ['>', '\n'] ++ body ++ ['<', '/'] ++ name ++ ['>', '\n'])

abbrev Document : List Char → Prop := Star Item

namespace Star

variable {P : List Char → Prop}

theorem single {s : List Char} (h : P s) : Star P s := by
  simpa using Star.cons h Star.nil

theorem append {s t : List Char} (hs : Star P s) (ht : Star P t) : Star P (s ++ t) := by
  induction hs with
  | nil => exact ht
  | cons h _ ih =>
    rw [List.append_assoc]
    exact Star.cons h ih

theorem flatten {parts : List (List Char)} (h : ∀ part ∈ parts, Star P part) :
    Star P parts.flatten := by
  induction parts with
  | nil => exact Star.nil
  | cons part parts ih =>
    rw [List.flatten_cons]
    exact (h part (by simp)).append (ih fun p hp => h p (by simp [hp]))

end Star

/-! ## Names -/

theorem IsWord.forall_mem {start more p : Char → Prop} {s : List Char} (h : IsWord start more s)
    (hstart : ∀ c, start c → p c) (hmore : ∀ c, more c → p c) : ∀ c ∈ s, p c := by
  cases s with
  | nil => exact nofun
  | cons c s => exact List.forall_mem_cons.mpr ⟨hstart c h.1, fun d hd => hmore d (h.2 d hd)⟩

theorem isAlphanum_of_isAlpha {c : Char} (h : c.isAlpha = true) : c.isAlphanum = true := by
  rw [Char.isAlphanum, h, Bool.true_or]

theorem IsTagName.forall_isAlphanum {name : List Char} (h : IsTagName name) :
    ∀ c ∈ name, c.isAlphanum = true :=
  IsWord.forall_mem h (fun _ => isAlphanum_of_isAlpha) fun _ hc => hc

/-! ## Safe text -/

theorem SafeText.nil : SafeText [] where
  no_markup c hc := by cases hc
  entity before rest h := by simp at h

theorem SafeText.append {s t : List Char} (hs : SafeText s) (ht : SafeText t) :
    SafeText (s ++ t) where
  no_markup c hc := by
    rcases List.mem_append.mp hc with hc | hc
    · exact hs.no_markup c hc
    · exact ht.no_markup c hc
  entity before rest h := by
    rcases List.append_eq_append_iff.mp h with ⟨between, rfl, hrest⟩ | ⟨between, rfl, hrest⟩
    · exact ht.entity between rest hrest
    · cases between with
      | nil => exact ht.entity [] rest (by simpa using hrest.symm)
      | cons c between =>
        -- the ampersand lies in `s`, and so does all of its entity
        rw [List.cons_append, List.cons.injEq] at hrest
        obtain ⟨rfl, rfl⟩ := hrest
        obtain ⟨e, he, hpre⟩ := hs.entity before between rfl
        exact ⟨e, he, hpre.trans (List.prefix_append ('&' :: between) t)⟩

theorem safeText_of_forall {s : List Char}
    (h : ∀ c ∈ s, c ≠ '<' ∧ c ≠ '>' ∧ c ≠ '"' ∧ c ≠ '\'' ∧ c ≠ '&') : SafeText s where
  no_markup c hc := ⟨(h c hc).1, (h c hc).2.1, (h c hc).2.2.1, (h c hc).2.2.2.1⟩
  entity before rest hs := absurd rfl (h '&' (by simp [hs])).2.2.2.2

theorem safeText_entity {e : List Char} (he : e ∈ entities) : SafeText e where
  no_markup := by
    simp only [entities, List.mem_cons, List.not_mem_nil, or_false] at he
    rcases he with rfl | rfl | rfl | rfl | rfl <;> simp
  entity before rest h := by
    -- an entity has its ampersand at the front only
    have hfront : ∀ e ∈ entities, '&' ∉ e.tail := by decide
    cases before with
    | nil => exact ⟨e, he, by simp [h]⟩
    | cons c before => exact absurd (by simp [h]) (hfront e he)

theorem safeText_escapeChar (c : Char) : SafeText (escapeChar c) := by
  unfold escapeChar
  split
  · exact safeText_entity (by decide)
  · exact safeText_entity (by decide)
  · exact safeText_entity (by decide)
  · exact safeText_entity (by decide)
  · exact safeText_entity (by decide)
  · next hamp hlt hgt hquot hapos =>
    refine safeText_of_forall fun d hd => ?_
    rw [List.mem_singleton] at hd
    subst hd
    exact ⟨hlt, hgt, hquot, hapos, hamp⟩

theorem safeText_escape (s : List Char) : SafeText (escape s) := by
  induction s with
  | nil => exact SafeText.nil
  | cons c s ih => exact (safeText_escapeChar c).append ih

end Stencil.Markup
