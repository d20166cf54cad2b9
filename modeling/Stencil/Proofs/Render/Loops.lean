import Stencil.Proofs.Render.Concatenation

/-!
Loops.

A loop binds its variables in the one context that everything is rendered in, and it puts down the
texts of its body as it goes. Neither shows: what it writes is what the body writes on its own in
the context of the loop with the variables of one entry bound, for one entry after the other
(`renderNodes_loop`). The collection is read before the first of these bindings, and each of them is
rolled back to the context that the loop started from, since the body leaves its context as it was
(`withEntry_apply`); so no entry sees another, whatever the variables are called.
-/

namespace Stencil

/-- The texts of a body in one context after the other; the first error ends them. -/
def textsIn (body : Context → Except Stop String) (contexts : List Context) :
    Except Stop String :=
  String.join <$> contexts.mapM body

/-- What a loop writes in a context. A list is gone through by index, a map by key in its own order;
a malformed header, or a value that is neither, gives nothing. -/
def loopOutput (args : String) (body : Context → Except Stop String) (c : Context) :
    Except Stop String :=
  match LoopHeader.ofText? args.toList with
  | none => .ok ""
  | some h =>
    match Expr.evaluate h.iterable c with
    | .list items =>
      textsIn body (items.zipIdx.map fun (v, i) => h.bind (.int (Int64.ofNat i)) v c)
    | .map entries => textsIn body (entries.map fun (k, v) => h.bind (.str k) v c)
    | _ => .ok ""

/-! ## One text after the other -/

theorem textsIn_cons_of_error {body : Context → Except Stop String} {c : Context}
    {e : Stop} (h : body c = .error e) (contexts : List Context) :
    textsIn body (c :: contexts) = .error e := by
  rw [textsIn, List.mapM_cons, h]
  rfl

theorem textsIn_cons_of_ok {body : Context → Except Stop String} {c : Context}
    {s : String} (h : body c = .ok s) (contexts : List Context) :
    textsIn body (c :: contexts) = (textsIn body contexts).map (s ++ ·) := by
  rw [textsIn, textsIn, List.mapM_cons, h]
  cases contexts.mapM body with
  | error e => rfl
  | ok texts => exact congrArg Except.ok String.join_cons

/-- The error is that of the first context in which the body fails. -/
theorem textsIn_eq_error_iff {body : Context → Except Stop String}
    {contexts : List Context} {e : Stop} :
    textsIn body contexts = .error e ↔
      ∃ done d rest, contexts = done ++ d :: rest ∧ (∀ c ∈ done, ∃ s, body c = .ok s) ∧
        body d = .error e := by
  induction contexts with
  | nil =>
    constructor
    · nofun
    · rintro ⟨done, d, rest, h, _⟩
      cases done <;> cases h
  | cons c contexts ih =>
    cases hc : body c with
    | error e' =>
      rw [textsIn_cons_of_error hc]
      constructor
      · rintro ⟨⟩
        exact ⟨[], c, contexts, rfl, nofun, hc⟩
      · rintro ⟨done, d, rest, h, hdone, hd⟩
        cases done with
        | nil =>
          cases h
          exact hc.symm.trans hd
        | cons c' done =>
          cases h
          obtain ⟨s, hs⟩ := hdone c List.mem_cons_self
          cases hc.symm.trans hs
    | ok s =>
      have hmap : (textsIn body contexts).map (s ++ ·) = .error e ↔
          textsIn body contexts = .error e := by
        cases textsIn body contexts <;> simp [Except.map]
      rw [textsIn_cons_of_ok hc, hmap, ih]
      constructor
      · rintro ⟨done, d, rest, rfl, hdone, hd⟩
        exact ⟨c :: done, d, rest, rfl, List.forall_mem_cons.mpr ⟨⟨s, hc⟩, hdone⟩, hd⟩
      · rintro ⟨done, d, rest, h, hdone, hd⟩
        cases done with
        | nil =>
          cases h
          cases hc.symm.trans hd
        | cons c' done =>
          cases h
          exact ⟨done, d, rest, rfl, (List.forall_mem_cons.mp hdone).2, hd⟩

/-! ## The body and its bindings -/

namespace Rendering

variable {body : Rendering}

/-- A body that leaves its context as it was leaves that of the loop as it was. -/
theorem withEntry_apply (hb : body.Restores) (h : LoopHeader) (entry : Value × Value)
    (c : Context) :
    h.withEntry body entry c = ((body (h.bind entry.1 entry.2 c)).1, c) := by
  have hbody : (body (h.bind entry.1 entry.2 c)).2 = h.bind entry.1 entry.2 c := hb _
  simp only [LoopHeader.withEntry, hbody, h.rollback_bind]

theorem concat_withEntry_apply (hb : body.Restores) (h : LoopHeader)
    (entries : List (Value × Value)) (c : Context) :
    concat (entries.map (h.withEntry body)) c =
      (textsIn (fun d => (body d).1) (entries.map fun (k, v) => h.bind k v c), c) := by
  induction entries with
  | nil => rfl
  | cons entry entries ih =>
    obtain ⟨key, value⟩ := entry
    have hentry := withEntry_apply hb h (key, value) c
    rw [List.map_cons, List.map_cons, concat_cons]
    cases hbody : (body (h.bind key value c)).1 with
    | error e =>
      rw [hbody] at hentry
      rw [append_of_error _ hentry, textsIn_cons_of_error hbody]
    | ok s =>
      rw [hbody] at hentry
      rw [append_apply, hentry, textsIn_cons_of_ok hbody]
      dsimp only
      rw [ih]
      cases textsIn (fun d => (body d).1) (entries.map fun (k, v) => h.bind k v c) <;> rfl

/-- A loop on its own. -/
theorem renderLoop_apply (hb : body.Restores) (args : String) (c : Context) :
    renderLoop args body c = (loopOutput args (fun d => (body d).1) c, c) := by
  unfold renderLoop loopOutput
  cases LoopHeader.ofText? args.toList with
  | none => rfl
  | some h =>
    dsimp only
    cases Expr.evaluate h.iterable c with
    | list items =>
      simp only [Value.entries?, Value.indexed]
      rw [renderEntries_eq, emit_empty_append, concat_withEntry_apply hb, List.map_map]
      rfl
    | map entries =>
      simp only [Value.entries?]
      rw [renderEntries_eq, emit_empty_append, concat_withEntry_apply hb, List.map_map]
      rfl
    | _ => rfl

end Rendering

/-! ## A loop among its siblings -/

open Rendering

/-- **Loops are concatenation over entries.** Between the siblings before it and those after it, a
loop writes what its body writes on its own in one context after the other. These are the context
of the loop with the loop variables bound, first the key and then the value, to the entries of the
collection that the header names in the context of the loop. The first body that fails gives the
error. -/
theorem renderNodes_loop (includer : Includer) (before after children : List Node) (level : Nat)
    {kind : DirectiveKind} (hkind : kind = .forLoop ∨ kind = .foreachLoop) (args : String) :
    let body : Context → Except Stop String :=
      fun d => (renderNodes includer .closed children d).1
    renderNodes includer .closed (before ++ .mk level (.directive kind args) children :: after) =
      renderNodes includer .closed before ++ (fun c => (loopOutput args body c, c)) ++
        renderNodes includer .closed after ∧
    ∀ contexts e, textsIn body contexts = .error e ↔
      ∃ done d rest, contexts = done ++ d :: rest ∧ (∀ c ∈ done, ∃ s, body c = .ok s) ∧
        body d = .error e := by
  intro body
  refine ⟨?_, fun contexts e => textsIn_eq_error_iff⟩
  have hloop : renderNodes includer .closed (.mk level (.directive kind args) children :: after) =
      renderLoop args (renderNodes includer .closed children) ++
        renderNodes includer .closed after := by
    funext c
    rw [renderNodes]
    rcases hkind with rfl | rfl <;> rfl
  have houtput : renderLoop args (renderNodes includer .closed children) =
      fun c => (loopOutput args body c, c) :=
    funext (renderLoop_apply (restores_renderNodes includer .closed children) args)
  have hhead : ∀ n ∈ (Node.mk level (.directive kind args) children :: after).head?,
      n.content.continuesChain = false := by
    rintro n ⟨⟩
    rcases hkind with rfl | rfl <;> rfl
  rw [renderNodes_append includer .closed before hhead, hloop, houtput, append_assoc]

/-- A loop over a map, in the order of its entries, with a variable for the key and one that has the
name of the map; the body reads both, one of them inside an include. -/
theorem renderNodes_loop_key :
    let c := Context.ofList [("x", .map [("b", .str "2"), ("a", .str "1")])]
    let includer : Includer := fun _ d =>
      match d.get? "k" with
      | some (.str s) => .ok s
      | _ => .ok "?"
    let body : List Node :=
      [.mk 1 (.tag ⟨"i", [], some "#\x7bx\x7d", false⟩) [], .mk 1 (.directive .includeFile "a") []]
    (DirectiveKind.forLoop = .forLoop ∨ DirectiveKind.forLoop = .foreachLoop) ∧
    renderNodes includer .closed [.mk 0 (.directive .forLoop "k, x in x") body] c =
      (.ok "<i>2</i>\nb<i>1</i>\na", c) := by
  intro c includer body
  have hkind : DirectiveKind.forLoop = .forLoop ∨ DirectiveKind.forLoop = .foreachLoop :=
    Or.inl rfl
  obtain ⟨hsiblings, -⟩ := renderNodes_loop includer [] [] body 0 hkind "k, x in x"
  have hcontexts : loopOutput "k, x in x" (fun d => (renderNodes includer .closed body d).1) c =
      textsIn (fun d => (renderNodes includer .closed body d).1)
        [Context.ofList [("x", .str "2"), ("k", .str "b")],
          Context.ofList [("x", .str "1"), ("k", .str "a")]] := rfl
  have hfirst : (renderNodes includer .closed body
      (Context.ofList [("x", .str "2"), ("k", .str "b")])).1 = .ok "<i>2</i>\nb" := by
    simp only [body, renderNodes, Content.branch?, renderContent, renderTag, append_apply, emit]
    exact congrArg Except.ok (by decide +kernel)
  have hsecond : (renderNodes includer .closed body
      (Context.ofList [("x", .str "1"), ("k", .str "a")])).1 = .ok "<i>1</i>\na" := by
    simp only [body, renderNodes, Content.branch?, renderContent, renderTag, append_apply, emit]
    exact congrArg Except.ok (by decide +kernel)
  refine ⟨hkind, ?_⟩
  rw [List.nil_append] at hsiblings
  rw [hsiblings, renderNodes, emit_empty_append, append_emit_empty, hcontexts,
    textsIn_cons_of_ok hfirst, textsIn_cons_of_ok hsecond]
  rfl

end Stencil
