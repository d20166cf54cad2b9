import Stencil.Proofs.Render.Composition

/-!
Rendering leaves the context as it was.

A loop binds its variables in the one context that all renderings share. The checkpoint taken before
and the rollback after each entry undo the binding exactly (`rollback_bind`): old values come back
in their places, and names that were absent are absent again. From there the restored context is
carried through entries, tags, chains and siblings, on the way out of an error as well.
-/

namespace Stencil

theorem LoopHeader.rollback_bind (h : LoopHeader) (key value : Value) (c : Context) :
    (h.bind key value c).rollback (c.checkpoint h.names) = c := by
  cases hk : h.key with
  | none =>
    simp only [bind, names, hk, Context.checkpoint, Context.rollback, Option.toList_none,
      List.nil_append, List.map_cons, List.map_nil, List.foldr_cons, List.foldr_nil]
    exact c.restore_set h.value value
  | some k =>
    simp only [bind, names, hk, Context.checkpoint, Context.rollback, Option.toList_some,
      List.cons_append, List.nil_append, List.map_cons, List.map_nil, List.foldr_cons,
      List.foldr_nil]
    by_cases hkv : k = h.value
    · -- one name bound twice: the first restoration undoes both
      rw [← hkv, Context.set_set, Context.restore_set, Context.restore_get?]
    · have hv : c.get? h.value = (c.set k key).get? h.value := by
        rw [Context.get?_set, if_neg hkv]
      rw [hv, Context.restore_set, Context.restore_set]

namespace Rendering

/-- The rendering leaves every context as it was. -/
def Restores (r : Rendering) : Prop := r.Ensures fun c x => x.2 = c

theorem restores_emit (s : String) : (emit s).Restores := fun _ => rfl

theorem Restores.append {a b : Rendering} (ha : a.Restores) (hb : b.Restores) :
    (a ++ b).Restores := by
  intro c
  have hac := ha c
  rcases hr : a c with ⟨e | s, d⟩
  · rw [hr] at hac
    rw [append_of_error b hr]
    exact hac
  · rw [hr] at hac
    have hbd := hb d
    rcases hs : b d with ⟨e | t, d'⟩
    · rw [hs] at hbd
      rw [append_of_ok_of_error hr hs]
      exact hbd.trans hac
    · rw [hs] at hbd
      rw [append_of_ok hr hs]
      exact hbd.trans hac

theorem Restores.withEntry {body : Rendering} (hb : body.Restores) (h : LoopHeader)
    (entry : Value × Value) : (h.withEntry body entry).Restores := by
  intro c
  have hbody : (body (h.bind entry.1 entry.2 c)).2 = h.bind entry.1 entry.2 c := hb _
  simp only [LoopHeader.withEntry, hbody]
  exact h.rollback_bind entry.1 entry.2 c

theorem stable_restores : Stable fun c x => x.2 = c where
  empty := restores_emit ""
  append := Restores.append
  withEntry := Restores.withEntry

end Rendering

open Rendering

theorem restores_renderTag (t : Tag) {children : Rendering} (hc : children.Restores) :
    (renderTag t children).Restores := by
  intro c
  unfold renderTag
  split
  · rfl
  · split
    · rfl
    · exact (((restores_emit _).append hc).append (restores_emit _)) c

theorem restores_renderContent (includer : Includer) {children : Rendering}
    (hc : children.Restores) (content : Content) :
    (renderContent includer children content).Restores := by
  unfold renderContent
  split
  · exact restores_emit _
  · exact restores_emit _
  · exact restores_renderTag _ hc
  · exact ensures_renderLoop stable_restores _ hc
  · exact ensures_renderLoop stable_restores _ hc
  · exact fun _ => rfl
  · exact restores_emit _

theorem restores_renderNodes (includer : Includer) (chain : Chain) (nodes : List Node) :
    (renderNodes includer chain nodes).Restores :=
  ensures_renderNodes stable_restores includer chain nodes fun line _ _ hc =>
    restores_renderContent includer hc line.content

/-- Rendering any siblings, and any template, leaves the context exactly as it was: the same names
with the same values in the same order. It does so whether it ends in a text or in an error, and
whatever the includes are, so at every depth and for every tree of files. -/
theorem context_after_renderNodes (includer : Includer) (chain : Chain) (nodes : List Node)
    (source : List Char) (c : Context) :
    (renderNodes includer chain nodes c).2 = c ∧
      (renderForest includer (Forest.parse source) c).2 = c :=
  ⟨restores_renderNodes includer chain nodes c,
    restores_renderNodes includer .closed (Forest.parse source) c⟩

end Stencil
