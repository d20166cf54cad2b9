import Stencil.Proofs.Render.Restoration

/-!
Rendering as a list of steps.

A rendering writes texts and comes to includes, and since it leaves the context as it was, what it
does next never depends on what it did before: what siblings do in a context is one list of steps,
found without rendering any include. `perform` goes through such a list and stops at the first
include that fails. Main statement: `renderNodes_eq`, rendering is performing the steps. What has to
be said about the order in which includes are met, about two renderings side by side or about one
rendering after the other is said about lists from here on.
-/

namespace Stencil

/-- What a rendering does at a time. -/
inductive Step where
  | write (s : String)
  /-- An include with these arguments, in the context where it stands. -/
  | visit (args : String) (c : Context)

def Step.result (includer : Includer) : Step → Except Stop String
  | write s => .ok s
  | visit args c => includer args c

/-- Takes the steps in their order; the first error ends them. -/
def perform (includer : Includer) : List Step → Except Stop String
  | [] => .ok ""
  | step :: rest => do return (← step.result includer) ++ (← perform includer rest)

/-! ## The steps of a template -/

/-- The steps of the body for one entry after the other. -/
def loopSteps (args : String) (body : Context → List Step) (c : Context) : List Step :=
  match LoopHeader.ofText? args.toList with
  | none => []
  | some h =>
    match (Expr.evaluate h.iterable c).entries? with
    | none => []
    | some entries => entries.flatMap fun (key, value) => body (h.bind key value c)

def tagSteps (t : Tag) (children : Context → List Step) (c : Context) : List Step :=
  if t.isVoid then [.write (startTag t c ++ "\n")]
  else
    match t.text with
    | some text =>
      [.write (startTag t c ++ String.ofList (interpolate .html text.toList c) ++ endTag t)]
    | none => .write (startTag t c ++ "\n") :: (children c ++ [.write (endTag t)])

def contentSteps (children : Context → List Step) (content : Content) (c : Context) : List Step :=
  match content with
  | .doctype => [.write "<!DOCTYPE html>\n"]
  | .text s => [.write (String.ofList (escape s.toList) ++ "\n")]
  | .tag t => tagSteps t children c
  | .directive .forLoop args | .directive .foreachLoop args => loopSteps args children c
  | .directive .includeFile args => [.visit args c]
  | .directive .. => []

/-- The steps of siblings that follow an open or closed chain. -/
def nodeSteps (chain : Chain) : List Node → Context → List Step
  | [] => fun _ => []
  | .mk level content children :: rest => fun c =>
    match content.branch? with
    | some (kind, args) =>
      match chain.branch level kind args c with
      | (true, chain) => nodeSteps .closed children c ++ nodeSteps chain rest c
      | (false, chain) => nodeSteps chain rest c
    | none => contentSteps (nodeSteps .closed children) content c ++ nodeSteps .closed rest c

def sourceSteps (source : List Char) (c : Context) : List Step :=
  nodeSteps .closed (Forest.parse source) c

/-! ## Includes among the steps -/

theorem mem_contentSteps {children : Context → List Step} {content : Content} {c : Context}
    {args : String} {d : Context} (h : .visit args d ∈ contentSteps children content c) :
    content = .directive .includeFile args ∨ ∃ e, .visit args d ∈ children e := by
  cases content with
  | doctype => simp [contentSteps] at h
  | text s => simp [contentSteps] at h
  | tag t =>
    refine Or.inr ⟨c, ?_⟩
    unfold contentSteps tagSteps at h
    cases hvoid : t.isVoid with
    | true => simp [hvoid] at h
    | false =>
      cases htext : t.text with
      | some text => simp [hvoid, htext] at h
      | none => simpa [hvoid, htext] using h
  | directive kind args' =>
    have hloop : .visit args d ∈ loopSteps args' children c → ∃ e, .visit args d ∈ children e := by
      intro h
      unfold loopSteps at h
      split at h
      · cases h
      · split at h
        · cases h
        · obtain ⟨_, _, h⟩ := List.mem_flatMap.mp h
          exact ⟨_, h⟩
    cases kind with
    | forLoop => exact Or.inr (hloop h)
    | foreachLoop => exact Or.inr (hloop h)
    | includeFile =>
      cases List.mem_singleton.mp h
      exact Or.inl rfl
    | _ => cases h

/-- The includes among the steps of a forest are those of its lines. -/
theorem mem_lines_of_visit_mem {chain : Chain} {nodes : List Node} {c : Context} {args : String}
    {d : Context} (h : .visit args d ∈ nodeSteps chain nodes c) :
    ∃ line ∈ Forest.lines nodes, line.content = .directive .includeFile args := by
  induction chain, nodes using renderNodes.induct generalizing c with
  | case1 chain =>
    rw [nodeSteps] at h
    cases h
  | case2 chain level content children rest ihChildren ihRest ihClosed =>
    have hchildren : ∀ {e}, .visit args d ∈ nodeSteps .closed children e →
        ∃ line ∈ Forest.lines (.mk level content children :: rest),
          line.content = .directive .includeFile args := by
      intro e he
      obtain ⟨line, hline, heq⟩ := ihChildren he
      exact ⟨line, by rw [Forest.lines]; simp [hline], heq⟩
    have hrest : (∃ line ∈ Forest.lines rest, line.content = .directive .includeFile args) →
        ∃ line ∈ Forest.lines (.mk level content children :: rest),
          line.content = .directive .includeFile args := by
      rintro ⟨line, hline, heq⟩
      exact ⟨line, by rw [Forest.lines]; simp [hline], heq⟩
    rw [nodeSteps] at h
    dsimp only at h
    split at h
    · split at h
      · rcases List.mem_append.mp h with h | h
        · exact hchildren h
        · exact hrest (ihRest _ h)
      · exact hrest (ihRest _ h)
    · rcases List.mem_append.mp h with h | h
      · rcases mem_contentSteps h with rfl | ⟨e, he⟩
        · exact ⟨⟨level, _⟩, by rw [Forest.lines]; simp, rfl⟩
        · exact hchildren he
      · exact hrest (ihClosed h)

/-! ## Performing -/

theorem perform_cons (includer : Includer) (step : Step) (rest : List Step) :
    perform includer (step :: rest) =
      (do return (← step.result includer) ++ (← perform includer rest)) :=
  rfl

theorem perform_cons_of_ok {includer : Includer} {step : Step} {s : String} (rest : List Step)
    (h : step.result includer = .ok s) :
    perform includer (step :: rest) = (perform includer rest).map (s ++ ·) := by
  rw [perform_cons, h]
  cases perform includer rest <;> rfl

theorem perform_cons_of_error {includer : Includer} {step : Step} {e : Stop}
    (rest : List Step) (h : step.result includer = .error e) :
    perform includer (step :: rest) = .error e := by
  rw [perform_cons, h]
  rfl

theorem map_empty_append (result : Except Stop String) :
    result.map ("" ++ ·) = result := by
  cases result with
  | error e => rfl
  | ok t => exact congrArg Except.ok String.empty_append

theorem perform_append (includer : Includer) (a b : List Step) :
    perform includer (a ++ b) = (do return (← perform includer a) ++ (← perform includer b)) := by
  induction a with
  | nil =>
    show perform includer b = _
    cases perform includer b with
    | error e => rfl
    | ok t => exact congrArg Except.ok String.empty_append.symm
  | cons step a ih =>
    rw [List.cons_append, perform_cons, perform_cons, ih]
    cases step.result includer with
    | error e => rfl
    | ok s =>
      cases perform includer a with
      | error e => rfl
      | ok t =>
        cases perform includer b with
        | error e => rfl
        | ok u => exact congrArg Except.ok String.append_assoc.symm

/-- Without an include nothing can go wrong, and how includes are rendered plays no part. -/
theorem perform_eq_ok {steps : List Step} (h : ∀ args d, .visit args d ∉ steps) :
    ∃ s, ∀ includer, perform includer steps = .ok s := by
  induction steps with
  | nil => exact ⟨"", fun _ => rfl⟩
  | cons step rest ih =>
    obtain ⟨t, ht⟩ := ih fun args d hd => h args d (List.mem_cons_of_mem _ hd)
    cases step with
    | write s =>
      refine ⟨s ++ t, fun includer => ?_⟩
      rw [perform_cons_of_ok rest rfl, ht]
      rfl
    | visit args d => exact absurd (List.mem_cons_self ..) (h args d)

theorem perform_write (includer : Includer) (s : String) :
    perform includer [.write s] = .ok s :=
  congrArg Except.ok String.append_empty

theorem perform_visit (includer : Includer) (args : String) (c : Context) :
    perform includer [.visit args c] = includer args c := by
  rw [perform_cons, Step.result]
  cases includer args c with
  | error e => rfl
  | ok s => exact congrArg Except.ok String.append_empty

namespace Rendering

variable {includer : Includer}

/-- The rendering performs the steps of the context it is in, and leaves the context alone. -/
def Performs (includer : Includer) (r : Rendering) (steps : Context → List Step) : Prop :=
  ∀ c, r c = (perform includer (steps c), c)

/-- Renderings that perform the same steps are one. -/
theorem Performs.unique {r r' : Rendering} {steps : Context → List Step}
    (h : Performs includer r steps) (h' : Performs includer r' steps) : r = r' :=
  funext fun c => (h c).trans (h' c).symm

theorem performs_empty : Performs includer (emit "") fun _ => [] := fun _ => rfl

theorem performs_emit (s : Context → String) :
    Performs includer (fun c => (.ok (s c), c)) fun c => [.write (s c)] := by
  intro c
  rw [perform_write]

theorem Performs.append {a b : Rendering} {s t : Context → List Step}
    (ha : Performs includer a s) (hb : Performs includer b t) :
    Performs includer (a ++ b) fun c => s c ++ t c := by
  intro c
  rw [append_apply, ha c, perform_append]
  cases perform includer (s c) with
  | error e => rfl
  | ok x =>
    dsimp only
    rw [hb c]
    cases perform includer (t c) with
    | error e => rfl
    | ok y => rfl

theorem Performs.withEntry {body : Rendering} {s : Context → List Step}
    (hb : Performs includer body s) (h : LoopHeader) (entry : Value × Value) :
    Performs includer (h.withEntry body entry) fun c => s (h.bind entry.1 entry.2 c) := by
  intro c
  have hbody := hb (h.bind entry.1 entry.2 c)
  simp only [LoopHeader.withEntry, hbody, h.rollback_bind]

theorem Performs.concat {α : Type} {rs : α → Rendering} {s : α → Context → List Step}
    (h : ∀ a, Performs includer (rs a) (s a)) (as : List α) :
    Performs includer (concat (as.map rs)) fun c => as.flatMap fun a => s a c := by
  induction as with
  | nil => exact performs_empty
  | cons a as ih =>
    intro c
    rw [List.map_cons, concat_cons]
    exact (h a).append ih c

end Rendering

open Rendering

variable {includer : Includer}

theorem performs_renderLoop (args : String) {body : Rendering} {s : Context → List Step}
    (hb : Performs includer body s) :
    Performs includer (renderLoop args body) (loopSteps args s) := by
  intro c
  unfold renderLoop loopSteps
  cases LoopHeader.ofText? args.toList with
  | none => rfl
  | some h =>
    dsimp only
    cases (Expr.evaluate h.iterable c).entries? with
    | none => rfl
    | some entries =>
      dsimp only
      rw [renderEntries_eq, emit_empty_append]
      exact Performs.concat (fun entry => hb.withEntry h entry) entries c

theorem performs_renderTag (t : Tag) {children : Rendering} {s : Context → List Step}
    (hc : Performs includer children s) :
    Performs includer (renderTag t children) (tagSteps t s) := by
  intro c
  unfold renderTag tagSteps
  cases t.isVoid with
  | true => exact performs_emit (fun c => startTag t c ++ "\n") c
  | false =>
    cases t.text with
    | some text =>
      exact performs_emit
        (fun c => startTag t c ++ String.ofList (interpolate .html text.toList c) ++ endTag t) c
    | none =>
      have h := (performs_emit fun _ => startTag t c ++ "\n").append
        (hc.append (performs_emit fun _ => endTag t))
      rw [← append_assoc] at h
      exact h c

theorem performs_renderContent {children : Rendering} {s : Context → List Step}
    (hc : Performs includer children s) (content : Content) :
    Performs includer (renderContent includer children content) (contentSteps s content) := by
  cases content with
  | doctype => exact performs_emit _
  | text s => exact performs_emit _
  | tag t => exact performs_renderTag t hc
  | directive kind args =>
    cases kind with
    | forLoop => exact performs_renderLoop args hc
    | foreachLoop => exact performs_renderLoop args hc
    | includeFile =>
      intro c
      exact congrArg (·, c) (perform_visit includer args c).symm
    | _ => exact performs_empty

theorem performs_renderNodes (chain : Chain) (nodes : List Node) :
    Performs includer (renderNodes includer chain nodes) (nodeSteps chain nodes) := by
  induction chain, nodes using renderNodes.induct with
  | case1 chain =>
    rw [renderNodes, nodeSteps]
    exact performs_empty
  | case2 chain level content children rest ihChildren ihRest ihClosed =>
    intro c
    rw [renderNodes, nodeSteps]
    dsimp only
    cases content.branch? with
    | none => exact (performs_renderContent ihChildren content).append ihClosed c
    | some branch =>
      obtain ⟨kind, args⟩ := branch
      dsimp only
      obtain ⟨now, next⟩ := chain.branch level kind args c
      cases now with
      | true => exact ihChildren.append (ihRest next) c
      | false => exact ihRest next c

/-- Rendering is performing the steps. -/
theorem renderNodes_eq (includer : Includer) (chain : Chain) (nodes : List Node) (c : Context) :
    renderNodes includer chain nodes c = (perform includer (nodeSteps chain nodes c), c) :=
  performs_renderNodes chain nodes c

theorem renderSource_eq (load : Loader) (base : Path) (source : List Char) (c : Context) :
    renderSource load base source c =
      perform (includeWith load base) (sourceSteps source c) := by
  rw [renderSource, renderForest, renderNodes_eq, sourceSteps]

end Stencil
