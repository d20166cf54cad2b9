import Stencil.Proofs.Markup.StartTag
import Stencil.Proofs.Render.Composition
import Stencil.Proofs.Template.SourceOrder
import Stencil.Render.Forest

/-!
The start tags of a rendering.

The start tag of a tag is its name and the attributes that have a value to show: those that are null
or false are left out, those that are true are bare, and every other one has the text of its value
(`shown`, `toList_startTag`). So what a tag renders begins with a text from which a reader recovers
the name and exactly these attributes, each once, whatever stands in their values. They are in the
order of the line unless an id shorthand comes before the classes (`read_startTag`).
-/

namespace Stencil

/-! ## What a start tag shows -/

/-- What an attribute shows in a context, if anything. -/
def shown (c : Context) (attr : String × String) : Option Markup.Shown :=
  match attributeValue attr.2.toList c with
  | .bool true => some (attr.1.toList, none)
  | .bool false | .null => none
  | v => some (attr.1.toList, some v.attributeText.toList)

theorem name_of_shown {c : Context} {attr : String × String} {a : Markup.Shown}
    (h : shown c attr = some a) : a.1 = attr.1.toList := by
  unfold shown at h
  split at h
  · cases h
    rfl
  · cases h
  · cases h
  · cases h
    rfl

theorem toList_attributeText (c : Context) (attr : String × String) :
    (attributeText c attr).toList = ((shown c attr).map Markup.Shown.text).getD [] := by
  unfold attributeText shown
  generalize attributeValue attr.2.toList c = v
  cases v with
  | null => rfl
  | bool b =>
    cases b with
    | false => rfl
    | true => rw [String.toList_append]; rfl
  | _ => simp [Markup.Shown.text]

theorem flatMap_attributeText (c : Context) (attrs : List (String × String)) :
    attrs.flatMap (fun attr => (attributeText c attr).toList) =
      (attrs.filterMap (shown c)).flatMap Markup.Shown.text := by
  induction attrs with
  | nil => rfl
  | cons attr attrs ih =>
    rw [List.flatMap_cons, ih, toList_attributeText, List.filterMap_cons]
    cases shown c attr with
    | none => rfl
    | some a => rfl

def Tag.toStartTag (t : Tag) (c : Context) : Markup.StartTag :=
  ⟨t.name.toList, t.attrs.filterMap (shown c)⟩

theorem toList_startTag (t : Tag) (c : Context) :
    (startTag t c).toList = (t.toStartTag c).text := by
  have hattrs : (String.join (t.attrs.map (attributeText c))).toList =
      (t.attrs.filterMap (shown c)).flatMap Markup.Shown.text := by
    rw [String.toList_join, List.flatMap_map, flatMap_attributeText]
  simp only [startTag, String.toList_append, hattrs, Markup.StartTag.text, Tag.toStartTag]
  simp

/-- What a tag renders begins with its start tag. -/
theorem startTag_prefix_renderTag {t : Tag} {children : Rendering} {c : Context} {s : String}
    (h : (renderTag t children c).1 = .ok s) : (startTag t c).toList <+: s.toList := by
  unfold renderTag at h
  split at h
  · cases h
    rw [String.toList_append]
    exact List.prefix_append _ _
  · split at h
    · cases h
      rw [String.toList_append, String.toList_append, List.append_assoc]
      exact List.prefix_append _ _
    · obtain ⟨s₁, s₂, d, hbefore, _, rfl⟩ := Rendering.exists_of_append_eq_ok (Prod.ext h rfl)
      obtain ⟨s₃, s₄, d', hstart, _, rfl⟩ := Rendering.exists_of_append_eq_ok hbefore
      cases hstart
      simp only [String.toList_append, List.append_assoc]
      exact List.prefix_append _ _

/-! ## Reading it -/

theorem read_toStartTag {t : Tag} {line : List Char} (ht : t.Spelled line) (c : Context)
    (after : List Char) :
    Markup.StartTag.read ((startTag t c).toList ++ after) = some (t.toStartTag c, after) := by
  have hname : Markup.Unbroken t.name.toList := Markup.unbroken_of_isTagName ht.name
  have hattrs : ∀ a ∈ (t.toStartTag c).attrs, Markup.Unbroken a.1 := by
    intro a ha
    obtain ⟨attr, hattr, hshown⟩ := List.mem_filterMap.mp ha
    have hmem : attr.1 ∈ Entries.names t.attrs := List.mem_map_of_mem hattr
    have hattrName := (Tag.isAttrName_iff _).mp (Tag.isAttrName_of_mem_names ht hmem)
    rw [name_of_shown hshown]
    exact Markup.unbroken_of_isAttrName hattrName
  rw [toList_startTag, Markup.StartTag.read_text hname hattrs]

/-- What a tag renders begins with its start tag, which can be read: it has the name of the tag
and, once each, exactly the attributes that are neither null nor false. They stand in the order of
the line if and only if no id shorthand is in front of the classes. -/
theorem read_startTag {line : List Char} {t : Tag} (ht : classify line = some (.tag t))
    (c : Context) :
    (∀ children s, (renderTag t children c).1 = .ok s → (startTag t c).toList <+: s.toList) ∧
      (∀ after, Markup.StartTag.read ((startTag t c).toList ++ after) =
        some (⟨t.name.toList, t.attrs.filterMap (shown c)⟩, after)) ∧
      (Entries.names t.attrs).Nodup ∧
      (Entries.names t.attrs = (Tag.sourceNames line).eraseDups ↔
        Tag.ClassFirst (Tag.shorthands line)) := by
  have hspelled : t.Spelled line := saidBy_of_classify ht
  refine ⟨?_, ?_, ?_, ?_⟩
  · intro children s hs
    exact startTag_prefix_renderTag hs
  · exact read_toStartTag hspelled c
  · exact hspelled.nodup_names
  · exact Tag.names_eq_sourceNames_iff (Tag.ofLine?_of_classify ht)

/-- A value with a quote, a bracket and what looks like an entity, an attribute without a value and
two that are left out. -/
theorem read_startTag_entities :
    let line := "a.big(title='\"<&amp;', hidden, rel=null) lang=$none Go".toList
    let c := Context.ofList [("none", .bool false)]
    ∃ t, classify line = some (.tag t) ∧
      Entries.names t.attrs = ["class", "title", "hidden", "rel", "lang"] ∧
      Markup.StartTag.read (startTag t c).toList =
        some (⟨"a".toList, [("class".toList, some "big".toList), ("title".toList, some "\"<&amp;".toList),
          ("hidden".toList, none)]⟩, []) := by
  intro line c
  let t : Tag :=
    { name := "a"
      attrs := [("class", "\"big\""), ("title", "'\"<&amp;'"), ("hidden", "true"),
        ("rel", "null"), ("lang", "$none")]
      text := some "Go"
      isVoid := false }
  have ht : classify line = some (.tag t) := rfl
  have hread := (read_startTag ht c).2.1 []
  have hshown : t.attrs.filterMap (shown c) = [("class".toList, some "big".toList),
      ("title".toList, some "\"<&amp;".toList), ("hidden".toList, none)] := rfl
  rw [List.append_nil, hshown] at hread
  exact ⟨t, ht, rfl, hread⟩

/-- The id is given first, but the class is shown first. -/
theorem names_of_id_first :
    let line := "div#main.card hi".toList
    ∃ t, classify line = some (.tag t) ∧ Tag.sourceNames line = ["id", "class"] ∧
      t.attrs.filterMap (shown (Context.ofList [])) =
        [("class".toList, some "card".toList), ("id".toList, some "main".toList)] := by
  intro line
  let t : Tag :=
    { name := "div"
      attrs := [("class", "\"card\""), ("id", "\"main\"")]
      text := some "hi"
      isVoid := false }
  have ht : classify line = some (.tag t) := rfl
  exact ⟨t, ht, rfl, rfl⟩

end Stencil
