import Stencil.Proofs.Template.Nesting
import Stencil.Render.Include

/-!
How renderings are put together.

Renderings form a monoid under `++`. A loop is the product of its body over the entries, each time
between binding the loop variables and rolling them back (`renderEntries_eq`), so a property of
single results that the empty rendering has, that products keep and that a loop entry keeps
(`Rendering.Stable`) holds of every list of siblings as soon as it holds of what the single lines
write (`ensures_renderNodes`).
-/

namespace Stencil

/-- The body for one entry, between binding the loop variables and rolling them back. -/
def LoopHeader.withEntry (h : LoopHeader) (body : Rendering) (entry : Value × Value) :
    Rendering := fun c =>
  let (result, d) := body (h.bind entry.1 entry.2 c)
  (result, d.rollback (c.checkpoint h.names))

namespace Rendering

/-! ## The monoid of renderings -/

theorem append_apply (a b : Rendering) (c : Context) :
    (a ++ b) c = match a c with
      | (.error e, c) => (.error e, c)
      | (.ok s, c) =>
        match b c with
        | (.error e, c) => (.error e, c)
        | (.ok t, c) => (.ok (s ++ t), c) :=
  rfl

theorem append_of_error {a : Rendering} {c d : Context} {e : Stop} (b : Rendering)
    (h : a c = (.error e, d)) : (a ++ b) c = (.error e, d) := by
  rw [append_apply, h]

theorem append_of_ok {a b : Rendering} {c d d' : Context} {s t : String}
    (ha : a c = (.ok s, d)) (hb : b d = (.ok t, d')) : (a ++ b) c = (.ok (s ++ t), d') := by
  rw [append_apply, ha]
  simp only [hb]

theorem append_of_ok_of_error {a b : Rendering} {c d d' : Context} {s : String}
    {e : Stop} (ha : a c = (.ok s, d)) (hb : b d = (.error e, d')) :
    (a ++ b) c = (.error e, d') := by
  rw [append_apply, ha]
  simp only [hb]

theorem exists_of_append_eq_ok {a b : Rendering} {c d' : Context} {s : String}
    (h : (a ++ b) c = (.ok s, d')) :
    ∃ t u d, a c = (.ok t, d) ∧ b d = (.ok u, d') ∧ s = t ++ u := by
  rcases ha : a c with ⟨e | t, d⟩
  · rw [append_of_error b ha] at h
    cases h
  · rcases hb : b d with ⟨e | u, d''⟩
    · rw [append_of_ok_of_error ha hb] at h
      cases h
    · rw [append_of_ok ha hb] at h
      cases h
      exact ⟨t, u, d, rfl, hb, rfl⟩

theorem append_assoc (a b r : Rendering) : a ++ b ++ r = a ++ (b ++ r) := by
  funext c
  rcases ha : a c with ⟨e | s, d⟩
  · rw [append_of_error _ ha, append_of_error _ (append_of_error _ ha)]
  · rcases hb : b d with ⟨e | t, d'⟩
    · rw [append_of_ok_of_error ha (append_of_error _ hb),
        append_of_error _ (append_of_ok_of_error ha hb)]
    · rcases hr : r d' with ⟨e | u, d''⟩
      · rw [append_of_ok_of_error (append_of_ok ha hb) hr,
          append_of_ok_of_error ha (append_of_ok_of_error hb hr)]
      · rw [append_of_ok (append_of_ok ha hb) hr, append_of_ok ha (append_of_ok hb hr),
          String.append_assoc]

theorem emit_empty_append (a : Rendering) : emit "" ++ a = a := by
  funext c
  have he : emit "" c = (.ok "", c) := rfl
  rcases ha : a c with ⟨e | s, d⟩
  · exact append_of_ok_of_error he ha
  · rw [append_of_ok he ha, String.empty_append]

theorem append_emit_empty (a : Rendering) : a ++ emit "" = a := by
  funext c
  rcases ha : a c with ⟨e | s, d⟩
  · exact append_of_error _ ha
  · have he : emit "" d = (.ok "", d) := rfl
    rw [append_of_ok ha he, String.append_empty]

/-- The renderings of a list, one after the other. -/
def concat (rs : List Rendering) : Rendering := rs.foldr (· ++ ·) (emit "")

theorem concat_cons (r : Rendering) (rs : List Rendering) : concat (r :: rs) = r ++ concat rs :=
  rfl

end Rendering

open Rendering

/-- A loop writes what its body writes for one entry after the other. -/
theorem renderEntries_eq (h : LoopHeader) (body : Rendering) (done : String)
    (entries : List (Value × Value)) :
    renderEntries h body done entries = emit done ++ concat (entries.map (h.withEntry body)) := by
  induction entries generalizing done with
  | nil => exact (append_emit_empty (emit done)).symm
  | cons entry rest ih =>
    obtain ⟨key, value⟩ := entry
    rw [List.map_cons, concat_cons, ← append_assoc]
    funext c
    have hd : emit done c = (.ok done, c) := rfl
    rcases hb : body (h.bind key value c) with ⟨e | s, d⟩
    · have hw : h.withEntry body (key, value) c = (.error e, d.rollback (c.checkpoint h.names)) := by
        simp only [LoopHeader.withEntry, hb]
      rw [append_of_error _ (append_of_ok_of_error hd hw)]
      simp only [renderEntries, hb]
    · have hw : h.withEntry body (key, value) c = (.ok s, d.rollback (c.checkpoint h.names)) := by
        simp only [LoopHeader.withEntry, hb]
      rw [append_apply, append_of_ok hd hw]
      simp only [renderEntries, hb, ih]
      rfl

/-! ## Properties of results -/

namespace Rendering

/-- Every context and the result in it satisfy `Q`. -/
def Ensures (r : Rendering) (Q : Context → Except Stop String × Context → Prop) : Prop :=
  ∀ c, Q c (r c)

/-- The property `Q` is kept wherever renderings are put together. -/
structure Stable (Q : Context → Except Stop String × Context → Prop) : Prop where
  empty : (emit "").Ensures Q
  append : ∀ {a b : Rendering}, a.Ensures Q → b.Ensures Q → (a ++ b).Ensures Q
  withEntry : ∀ {body : Rendering}, body.Ensures Q → ∀ (h : LoopHeader) (entry : Value × Value),
    (h.withEntry body entry).Ensures Q

variable {Q : Context → Except Stop String × Context → Prop}

theorem Stable.concat (hQ : Stable Q) {rs : List Rendering} (h : ∀ r ∈ rs, r.Ensures Q) :
    (concat rs).Ensures Q := by
  induction rs with
  | nil => exact hQ.empty
  | cons r rs ih =>
    rw [concat_cons]
    exact hQ.append (h r (List.mem_cons_self ..)) (ih fun r' hr => h r' (List.mem_cons_of_mem _ hr))

end Rendering

variable {Q : Context → Except Stop String × Context → Prop}

theorem ensures_renderLoop (hQ : Stable Q) (args : String) {body : Rendering}
    (hb : body.Ensures Q) : (renderLoop args body).Ensures Q := by
  intro c
  unfold renderLoop
  split
  · exact hQ.empty c
  · next h _ =>
    split
    · exact hQ.empty c
    · next entries _ =>
      rw [renderEntries_eq, emit_empty_append]
      refine hQ.concat ?_ c
      intro r hr
      obtain ⟨entry, _, rfl⟩ := List.mem_map.mp hr
      exact hQ.withEntry hb h entry

/-- A stable property holds of siblings when it holds of what each line writes around children that
have it; the branches of chains and the order of the siblings need no care. -/
theorem ensures_renderNodes (hQ : Stable Q) (includer : Includer) (chain : Chain)
    (nodes : List Node)
    (hline : ∀ line ∈ Forest.lines nodes, ∀ children : Rendering, children.Ensures Q →
      (renderContent includer children line.content).Ensures Q) :
    (renderNodes includer chain nodes).Ensures Q := by
  induction chain, nodes using renderNodes.induct with
  | case1 chain =>
    rw [renderNodes]
    exact hQ.empty
  | case2 chain level content children rest ihChildren ihRest ihClosed =>
    rw [Forest.lines] at hline
    have hbody := ihChildren fun line hl => hline line (by simp [hl])
    have hafter : ∀ line ∈ Forest.lines rest, _ := fun line hl => hline line (by simp [hl])
    intro c
    rw [renderNodes]
    dsimp only
    split
    · split
      · exact hQ.append hbody (ihRest _ hafter) c
      · exact ihRest _ hafter c
    · have hhere := hline ⟨level, content⟩ (List.mem_cons_self ..) _ hbody
      exact hQ.append hhere (ihClosed hafter) c

end Stencil
