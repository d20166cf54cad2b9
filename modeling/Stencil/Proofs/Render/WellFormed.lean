import Stencil.Proofs.Render.Composition
import Stencil.Proofs.Template.Tag

/-!
Rendering yields documents.

A raw marker is the one place where a value goes into the output unescaped. Where no template has
one, everything else that depends on the context is escaped (`safeText_interpolate`,
`star_attributeText`), the names of tags and attributes are those of the lines, and every element is
closed where it was opened. So the output is a word of the document language, whatever the context
holds.
-/

namespace Stencil

open Markup Rendering

/-! ## Texts without raw markers -/

/-- The text has no place where a raw marker could start. -/
def RawFree (s : List Char) : Prop := ¬ ['!', '\x7b'] <:+: s

theorem RawFree.of_infix {s t : List Char} (ht : RawFree t) (h : s <:+: t) : RawFree s :=
  fun hs => ht (hs.trans h)

theorem eq_false_of_mem_markerPieces {s : List Char} (hs : RawFree s) {raw : Bool}
    {expr : List Char} (h : .marker raw expr ∈ markerPieces s) : raw = false := by
  cases raw with
  | false => rfl
  | true =>
    refine absurd (List.IsInfix.trans ?_ (infix_of_mem_markerPieces h)) hs
    exact (List.prefix_append ['!', '\x7b'] _).isInfix

/-- In a text without raw markers the values of all markers are escaped. -/
theorem safeText_interpolate {s : List Char} (hs : RawFree s) (c : Context) :
    SafeText (interpolate .html s c) := by
  have hpieces : ∀ piece ∈ markerPieces s, SafeText (piece.text .html c) := by
    intro piece hpiece
    cases piece with
    | literal ch => exact safeText_escape [ch]
    | marker raw expr =>
      obtain rfl := eq_false_of_mem_markerPieces hs hpiece
      exact safeText_escape _
  unfold interpolate
  generalize markerPieces s = pieces at hpieces ⊢
  induction pieces with
  | nil => exact SafeText.nil
  | cons piece pieces ih =>
    rw [List.flatMap_cons]
    exact (hpieces piece (by simp)).append (ih fun p hp => hpieces p (by simp [hp]))

/-! ## Tags -/

theorem star_attributeText (c : Context) {attr : String × String}
    (h : IsAttrName attr.1.toList) : Star Attribute (attributeText c attr).toList := by
  unfold attributeText
  split
  · rw [String.toList_append]
    exact Star.single (Attribute.bare h)
  · exact Star.nil
  · exact Star.nil
  · simp only [String.toList_append, String.toList_ofList]
    exact Star.single (Attribute.valued h (safeText_escape _))

/-- A tag with names of the document language and without raw markers in its text. -/
structure Tag.Clean (t : Tag) : Prop where
  name : IsTagName t.name.toList
  isVoid : t.isVoid = true → IsVoidName t.name.toList
  attrs : ∀ attr ∈ t.attrs, IsAttrName attr.1.toList
  text : ∀ text, t.text = some text → RawFree text.toList

theorem startTag_eq {t : Tag} (ht : t.Clean) (c : Context) :
    ∃ attrs, Star Attribute attrs ∧
      (startTag t c).toList = '<' :: t.name.toList ++ attrs ++ ['>'] := by
  have hattrs : ∀ part ∈ t.attrs.map fun attr => (attributeText c attr).toList,
      Star Attribute part := by
    intro part hpart
    obtain ⟨attr, hattr, rfl⟩ := List.mem_map.mp hpart
    exact star_attributeText c (ht.attrs attr hattr)
  refine ⟨_, Star.flatten hattrs, ?_⟩
  have hjoin : (String.join (t.attrs.map (attributeText c))).toList =
      (t.attrs.map fun attr => (attributeText c attr).toList).flatten := by
    rw [String.toList_join, List.flatMap_map, List.flatMap_def]
  simp only [startTag, String.toList_append, hjoin]
  rfl

theorem endTag_eq (t : Tag) : (endTag t).toList = ['<', '/'] ++ t.name.toList ++ ['>', '\n'] := by
  simp only [endTag, String.toList_append]
  rfl

/-! ## Renderings -/

/-- The rendering writes documents. -/
def WritesDocument (r : Rendering) : Prop :=
  r.Ensures fun _ x => ∀ s, x.1 = .ok s → Document s.toList

theorem writesDocument_emit {s : String} (h : Document s.toList) : WritesDocument (emit s) := by
  intro c t ht
  cases ht
  exact h

theorem stable_writesDocument : Stable fun _ x => ∀ s, x.1 = .ok s → Document s.toList where
  empty := writesDocument_emit Star.nil
  append := by
    intro a b ha hb c s hs
    obtain ⟨t, u, d, hat, hbu, rfl⟩ := exists_of_append_eq_ok (Prod.ext hs rfl)
    rw [String.toList_append]
    exact (ha c t (by rw [hat])).append (hb d u (by rw [hbu]))
  withEntry := by
    intro body hb h entry c s hs
    exact hb (h.bind entry.1 entry.2 c) s hs

theorem writesDocument_renderTag {t : Tag} (ht : t.Clean) {children : Rendering}
    (hc : WritesDocument children) : WritesDocument (renderTag t children) := by
  intro c s hs
  obtain ⟨attrs, hattrs, hstart⟩ := startTag_eq ht c
  unfold renderTag at hs
  split at hs
  · next hvoid =>
    cases hs
    rw [String.toList_append, hstart, List.append_assoc]
    exact Star.single (Item.void ht.name (ht.isVoid hvoid) hattrs)
  · split at hs
    · next text htext =>
      cases hs
      have hsafe := safeText_interpolate (ht.text text htext) c
      simp only [String.toList_append, hstart, endTag_eq, String.toList_ofList]
      have hitem := Item.inline ht.name hattrs hsafe
      simp only [List.append_assoc] at hitem ⊢
      exact Star.single hitem
    · obtain ⟨t₁, t₂, d, hbefore, hend, rfl⟩ := exists_of_append_eq_ok (Prod.ext hs rfl)
      obtain ⟨t₃, body, d', hbegin, hbody, rfl⟩ := exists_of_append_eq_ok hbefore
      cases hbegin
      cases hend
      have hdoc : Document body.toList := hc c body (by rw [hbody])
      simp only [String.toList_append, hstart, endTag_eq]
      have hitem := Item.block ht.name hattrs hdoc
      simp only [List.append_assoc] at hitem ⊢
      exact Star.single hitem

/-- What a line has to be for its rendering to be a document. -/
def Content.Clean : Content → Prop
  | .tag t => t.Clean
  | _ => True

theorem writesDocument_renderContent {includer : Includer}
    (hi : ∀ args c s, includer args c = .ok s → Document s.toList) {content : Content}
    (h : content.Clean) {children : Rendering} (hc : WritesDocument children) :
    WritesDocument (renderContent includer children content) := by
  unfold renderContent
  split
  · exact writesDocument_emit (Star.single Item.doctype)
  · next s =>
    refine writesDocument_emit ?_
    rw [String.toList_append, String.toList_ofList]
    exact Star.single (Item.text (safeText_escape s.toList))
  · exact writesDocument_renderTag h hc
  · exact ensures_renderLoop stable_writesDocument _ hc
  · exact ensures_renderLoop stable_writesDocument _ hc
  · next args => exact fun c s hs => hi args c s hs
  · exact writesDocument_emit Star.nil

/-! ## Lines -/

theorem Tag.Spelled.clean {t : Tag} {line : List Char} (ht : t.Spelled line)
    (hline : RawFree line) : t.Clean where
  name := ht.name
  isVoid hvoid := by
    rw [ht.isVoid] at hvoid
    exact (Tag.isVoidName_iff _).mp hvoid
  attrs attr hattr :=
    (Tag.isAttrName_iff _).mp (Tag.isAttrName_of_mem_names ht (List.mem_map_of_mem hattr))
  text text htext hraw := hline (ht.infix_of_text htext (by simp) (by decide) hraw)

theorem clean_of_mem_parse {source : List Char} (hs : RawFree source) {line : Line}
    (h : line ∈ Forest.lines (Forest.parse source)) : line.content.Clean := by
  obtain ⟨raw, hraw, hclass⟩ := exists_raw_of_mem_parse h
  have htrim : RawFree (trim raw) :=
    hs.of_infix ((isInfix_trim raw).trans (infix_of_mem_splitLines hraw))
  obtain ⟨level, content⟩ := line
  cases content with
  | tag t => exact Tag.Spelled.clean (saidBy_of_classify hclass) htrim
  | _ => trivial

/-! ## Templates and files -/

theorem document_of_renderSource {load : Loader}
    (hload : ∀ path c s, load path c = .ok s → Document s.toList) (base : Path)
    {source : List Char} (hs : RawFree source) {c : Context} {s : String}
    (h : renderSource load base source c = .ok s) : Document s.toList := by
  have hi : ∀ args c s, includeWith load base args c = .ok s → Document s.toList := by
    intro args c s hs
    unfold includeWith at hs
    split at hs
    · cases hs
      exact Star.nil
    · exact hload _ _ s hs
  have hline : ∀ line ∈ Forest.lines (Forest.parse source), ∀ children, WritesDocument children →
      WritesDocument (renderContent (includeWith load base) children line.content) :=
    fun line hl children hc => writesDocument_renderContent hi (clean_of_mem_parse hs hl) hc
  exact ensures_renderNodes stable_writesDocument _ .closed _ hline c s h

theorem document_of_loader {files : FileSource}
    (hf : ∀ path text, files path = .ok text → RawFree text.toList) (overrun : Stop)
    (depth : Nat) (path : Path) (c : Context) (s : String)
    (h : loader files overrun depth path c = .ok s) : Document s.toList := by
  induction depth generalizing path c s with
  | zero => cases h
  | succ depth ih =>
    rw [loader, renderFileWith] at h
    split at h
    · cases h
    · next source hsource => exact document_of_renderSource ih _ (hf path source hsource) h

/-- **Nothing in a context can break out of the markup.** Where neither a template nor a file that
can be read has the two characters that start a raw marker, whatever it renders to is a document:
tags and attributes have the form of names, every element is closed where it was opened, and all
other text is safe. -/
theorem document_of_render (o : RenderOptions) {files : FileSource} (fuel : Nat) (base : Path)
    {source : String} (c : Context) {html : String} (hs : ¬ ['!', '\x7b'] <:+: source.toList)
    (hf : ∀ path text, files path = .ok text → ¬ ['!', '\x7b'] <:+: text.toList)
    (h : render o files fuel base source c = .ok html) : Document html.toList := by
  obtain ⟨overrun, depth, hload⟩ := o.exists_loader_eq files fuel
  rw [render, hload] at h
  exact document_of_renderSource (document_of_loader hf overrun depth) base hs h

/-- A value full of markup comes out of an included file as text. -/
theorem document_of_render_include :
    render ⟨some 1⟩ (fun _ => .ok "p(title=x) #\x7bx\x7d") 0 ⟨""⟩ "ul\n  include a"
        (Context.ofList [("x", .str "<\"&")]) =
      .ok "<ul>\n<p title=\"&lt;&quot;&amp;\">&lt;&quot;&amp;</p>\n</ul>\n" ∧
    Document "<ul>\n<p title=\"&lt;&quot;&amp;\">&lt;&quot;&amp;</p>\n</ul>\n".toList := by
  have hpart : ∀ load base, renderSource load base "p(title=x) #\x7bx\x7d".toList
      (Context.ofList [("x", .str "<\"&")]) =
      .ok "<p title=\"&lt;&quot;&amp;\">&lt;&quot;&amp;</p>\n" := by
    intro load base
    have hparse : Forest.parse "p(title=x) #\x7bx\x7d".toList =
        [.mk 0 (.tag ⟨"p", [("title", "x")], some "#\x7bx\x7d", false⟩) []] := rfl
    rw [renderSource, hparse, renderForest, renderNodes, renderNodes]
    rfl
  have hinclude : ∀ load,
      includeWith (renderFileWith (fun _ => .ok "p(title=x) #\x7bx\x7d") load) ⟨""⟩ "a"
        (Context.ofList [("x", .str "<\"&")]) =
      .ok "<p title=\"&lt;&quot;&amp;\">&lt;&quot;&amp;</p>\n" := by
    intro load
    have hwords : words "a".toList = [['a']] := rfl
    rw [includeWith, hwords]
    exact hpart _ _
  have hrender : render ⟨some 1⟩ (fun _ => .ok "p(title=x) #\x7bx\x7d") 0 ⟨""⟩ "ul\n  include a"
      (Context.ofList [("x", .str "<\"&")]) =
      .ok "<ul>\n<p title=\"&lt;&quot;&amp;\">&lt;&quot;&amp;</p>\n</ul>\n" := by
    have hparse : Forest.parse "ul\n  include a".toList =
        [.mk 0 (.tag ⟨"ul", [], none, false⟩) [.mk 1 (.directive .includeFile "a") []]] := rfl
    have hloader : ∀ files, RenderOptions.loader ⟨some 1⟩ files 0 =
        renderFileWith files (loader files (.failed (.includeDepthExceeded 1)) 0) := fun _ => rfl
    rw [render, renderSource, hparse, hloader]
    simp only [renderForest, renderNodes, Content.branch?, renderContent, renderTag,
      Rendering.append_apply, Rendering.emit, hinclude]
    exact congrArg Except.ok (by decide +kernel)
  have hfiles : ∀ path text, (fun _ => .ok "p(title=x) #\x7bx\x7d" : FileSource) path = .ok text →
      ¬ ['!', '\x7b'] <:+: text.toList := by
    intro path text h
    cases h
    decide +kernel
  exact ⟨hrender, document_of_render _ _ _ _ (by decide +kernel) hfiles hrender⟩

end Stencil
