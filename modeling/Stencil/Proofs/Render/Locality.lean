import Stencil.Proofs.Render.Steps
import Stencil.Proofs.Template.Reading

/-!
Rendering reads only the names in the templates.

Two renderings of one template run side by side. While the contexts agree on the names that stand in
the templates, both take the same steps (`Side`): they write the same texts and come to the same
includes, in contexts that agree again, since loops and include parameters give the same names the
same values on both sides. What else a context holds, and in which order, no step can tell.
-/

namespace Stencil

/-! ## Steps side by side -/

/-- The same steps, with includes whose arguments have no other names in contexts that agree on
these. -/
inductive Side (P : String → Prop) : List Step → List Step → Prop
  | nil : Side P [] []
  | write (s : String) {a b : List Step} : Side P a b → Side P (.write s :: a) (.write s :: b)
  | visit {args : String} {c d : Context} {a b : List Step} : (∀ n, NameIn args.toList n → P n) →
      c.AgreeOn P d → Side P a b → Side P (.visit args c :: a) (.visit args d :: b)

variable {P : String → Prop}

theorem Side.append {a b a' b' : List Step} (h : Side P a b) (h' : Side P a' b') :
    Side P (a ++ a') (b ++ b') := by
  induction h with
  | nil => exact h'
  | write s _ ih => exact .write s ih
  | visit hargs hc _ ih => exact .visit hargs hc ih

theorem Side.flatMap {α : Type} {s t : α → List Step} (h : ∀ a, Side P (s a) (t a)) (as : List α) :
    Side P (as.flatMap s) (as.flatMap t) := by
  induction as with
  | nil => exact .nil
  | cons a as ih =>
    rw [List.flatMap_cons, List.flatMap_cons]
    exact (h a).append ih

theorem perform_congr {includer : Includer}
    (hi : ∀ args c d, (∀ n, NameIn args.toList n → P n) → c.AgreeOn P d →
      includer args c = includer args d)
    {a b : List Step} (h : Side P a b) : perform includer a = perform includer b := by
  induction h with
  | nil => rfl
  | write s _ ih => rw [perform_cons, perform_cons, ih]
  | @visit args c d _ _ hargs hc _ ih =>
    have hresult : Step.result includer (.visit args c) = Step.result includer (.visit args d) :=
      hi args c d hargs hc
    rw [perform_cons, perform_cons, hresult, ih]

/-! ## The steps of a template -/

/-- Contexts that agree on the names have the same steps. -/
def Local (P : String → Prop) (steps : Context → List Step) : Prop :=
  ∀ ⦃c d : Context⦄, c.AgreeOn P d → Side P (steps c) (steps d)

theorem LoopHeader.agreeOn_bind (h : LoopHeader) (key value : Value) {c d : Context}
    (hc : c.AgreeOn P d) : (h.bind key value c).AgreeOn P (h.bind key value d) := by
  unfold bind
  dsimp only
  cases h.key with
  | none => exact hc.set h.value value
  | some k => exact (hc.set k key).set h.value value

theorem local_loopSteps {args : String} (hargs : ∀ n, NameIn args.toList n → P n)
    {body : Context → List Step} (hbody : Local P body) : Local P (loopSteps args body) := by
  intro c d hc
  unfold loopSteps
  cases hheader : LoopHeader.ofText? args.toList with
  | none => exact .nil
  | some h =>
    dsimp only
    have hiterable : ∀ n, NameIn h.iterable n → P n := fun n hn =>
      hargs n (hn.mono (LoopHeader.infix_of_ofText? hheader))
    rw [Expr.evaluate_congr (hc.mono hiterable)]
    cases (Expr.evaluate h.iterable d).entries? with
    | none => exact .nil
    | some entries => exact Side.flatMap (fun entry => hbody (h.agreeOn_bind _ _ hc)) entries

theorem startTag_congr {t : Tag} {line : List Char} (ht : t.Spelled line) {c d : Context}
    (h : c.AgreeOn (NameIn line) d) : startTag t c = startTag t d := by
  have hattrs : ∀ attr ∈ t.attrs, attributeText c attr = attributeText d attr := by
    intro attr hattr
    unfold attributeText
    rw [attributeValue_congr (ht.given hattr) h]
  rw [startTag, startTag, List.map_congr_left hattrs]

theorem local_tagSteps {t : Tag} {line : List Char} (ht : t.Spelled line)
    (hline : ∀ n, NameIn line n → P n) {children : Context → List Step}
    (hchildren : Local P children) : Local P (tagSteps t children) := by
  intro c d hc
  have hstart := startTag_congr ht (hc.mono hline)
  unfold tagSteps
  rw [hstart]
  cases t.isVoid with
  | true => exact .write _ .nil
  | false =>
    cases htext : t.text with
    | some text =>
      have hnames : ∀ n, NameIn text.toList n → P n := fun n hn =>
        hline n (ht.nameIn_of_text htext hn)
      dsimp only
      rw [interpolate_congr .html (hc.mono hnames)]
      exact .write _ .nil
    | none => exact .write _ ((hchildren hc).append (.write _ .nil))

theorem local_contentSteps {content : Content} {line : List Char} (hcontent : content.SaidBy line)
    (hline : ∀ n, NameIn line n → P n) {children : Context → List Step}
    (hchildren : Local P children) : Local P (contentSteps children content) := by
  cases content with
  | doctype => exact fun _ _ _ => .write _ .nil
  | text s => exact fun _ _ _ => .write _ .nil
  | tag t => exact local_tagSteps hcontent hline hchildren
  | directive kind args =>
    have hargs : ∀ n, NameIn args.toList n → P n := fun n hn => hline n (hn.mono hcontent)
    cases kind with
    | forLoop => exact local_loopSteps hargs hchildren
    | foreachLoop => exact local_loopSteps hargs hchildren
    | includeFile => exact fun _ _ hc => .visit hargs hc .nil
    | _ => exact fun _ _ _ => .nil

theorem Content.eq_of_branch? {content : Content} {kind : DirectiveKind} {args : String}
    (h : content.branch? = some (kind, args)) : content = .directive kind args := by
  unfold branch? at h
  split at h <;> cases h <;> rfl

theorem Chain.branch_congr (chain : Chain) (level : Nat) (kind : DirectiveKind) {args : String}
    {c d : Context} (h : c.AgreeOn (NameIn args.toList) d) :
    chain.branch level kind args c = chain.branch level kind args d := by
  have hholds : holds args c = holds args d := by
    rw [holds, holds, Expr.evaluate_congr h]
  unfold branch
  rw [hholds]

theorem local_nodeSteps (chain : Chain) (nodes : List Node)
    (hlines : ∀ line ∈ Forest.lines nodes, ∃ text, line.content.SaidBy text ∧
      ∀ n, NameIn text n → P n) :
    Local P (nodeSteps chain nodes) := by
  induction chain, nodes using renderNodes.induct with
  | case1 chain =>
    intro c d _
    rw [nodeSteps]
    exact .nil
  | case2 chain level content children rest ihChildren ihRest ihClosed =>
    rw [Forest.lines] at hlines
    have hchildren := ihChildren fun line hl => hlines line (by simp [hl])
    have hrest : ∀ line ∈ Forest.lines rest, _ := fun line hl => hlines line (by simp [hl])
    obtain ⟨text, hsaid, htext⟩ := hlines _ (List.mem_cons_self ..)
    intro c d hc
    rw [nodeSteps]
    dsimp only
    cases hbranch : content.branch? with
    | none =>
      exact (local_contentSteps hsaid htext hchildren hc).append (ihClosed hrest hc)
    | some branch =>
      obtain ⟨kind, args⟩ := branch
      obtain rfl := Content.eq_of_branch? hbranch
      have hargs : ∀ n, NameIn args.toList n → P n := fun n hn => htext n (hn.mono hsaid)
      dsimp only
      rw [chain.branch_congr level kind (hc.mono hargs)]
      obtain ⟨now, next⟩ := chain.branch level kind args d
      cases now with
      | true => exact (hchildren hc).append (ihRest next hrest hc)
      | false => exact ihRest next hrest hc

theorem local_sourceSteps {source : List Char} (hs : ∀ n, NameIn source n → P n) :
    Local P (sourceSteps source) := by
  refine local_nodeSteps .closed _ fun line hline => ?_
  obtain ⟨raw, hraw, hclass⟩ := exists_raw_of_mem_parse hline
  refine ⟨trim raw, saidBy_of_classify hclass, fun n hn => hs n ?_⟩
  exact hn.mono ((isInfix_trim raw).trans (infix_of_mem_splitLines hraw))

/-! ## Includes -/

theorem agreeOn_overlayParam {word : List Char} (hword : ∀ n, NameIn word n → P n)
    {c d laid laid' : Context} (hc : c.AgreeOn P d) (hlaid : laid.AgreeOn P laid') :
    (overlayParam c laid word).AgreeOn P (overlayParam d laid' word) := by
  unfold overlayParam
  cases hsplit : splitOnce '=' word with
  | none => exact hlaid
  | some assigned =>
    obtain ⟨name, raw⟩ := assigned
    have hraw : raw <:+: word := by
      rw [(splitOnce_eq_some hsplit).1]
      exact ((List.suffix_cons '=' raw).trans (List.suffix_append _ _)).isInfix
    dsimp only
    split
    · rw [attributeValue_congr (.part hraw) (hc.mono hword)]
      exact hlaid.set _ _
    · exact hlaid

theorem agreeOn_overlay {params : List (List Char)}
    (hparams : ∀ param ∈ params, ∀ n, NameIn param n → P n) {c d : Context}
    (hc : c.AgreeOn P d) : (overlay c params).AgreeOn P (overlay d params) := by
  have hlaid : ∀ laid laid' : Context, laid.AgreeOn P laid' →
      (params.foldl (overlayParam c) laid).AgreeOn P (params.foldl (overlayParam d) laid') := by
    induction params with
    | nil => exact fun _ _ h => h
    | cons param params ih =>
      intro laid laid' h
      exact ih (fun p hp => hparams p (by simp [hp])) _ _
        (agreeOn_overlayParam (hparams param (by simp)) hc h)
  exact hlaid c d hc

theorem includeWith_congr {load : Loader}
    (hload : ∀ path c d, c.AgreeOn P d → load path c = load path d) (base : Path) {args : String}
    {c d : Context} (hargs : ∀ n, NameIn args.toList n → P n) (hc : c.AgreeOn P d) :
    includeWith load base args c = includeWith load base args d := by
  unfold includeWith
  cases hwords : words args.toList with
  | nil => rfl
  | cons target params =>
    have hparams : ∀ param ∈ params, ∀ n, NameIn param n → P n := fun param hparam n hn =>
      hargs n (hn.mono (infix_of_mem_words (by rw [hwords]; simp [hparam])))
    exact hload _ _ _ (agreeOn_overlay hparams hc)

theorem renderSource_congr {load : Loader}
    (hload : ∀ path c d, c.AgreeOn P d → load path c = load path d) (base : Path)
    {source : List Char} (hs : ∀ n, NameIn source n → P n) {c d : Context} (hc : c.AgreeOn P d) :
    renderSource load base source c = renderSource load base source d := by
  rw [renderSource_eq, renderSource_eq]
  exact perform_congr (fun _ _ _ => includeWith_congr hload base) (local_sourceSteps hs hc)

theorem loader_congr {files : FileSource}
    (hf : ∀ path text, files path = .ok text → ∀ n, NameIn text.toList n → P n)
    (overrun : Stop) (depth : Nat) (path : Path) (c d : Context) (hc : c.AgreeOn P d) :
    loader files overrun depth path c = loader files overrun depth path d := by
  induction depth generalizing path c d with
  | zero => rfl
  | succ depth ih =>
    unfold loader renderFileWith
    cases htext : files path with
    | error fault => rfl
    | ok text => exact renderSource_congr ih _ (hf path text htext) hc

/-! ## Templates -/

/-- **Rendering reads only the names that the templates have.** Two contexts that give the same
values, or none, to every name that stands in the source or in a file that can be read render to
the same text or the same error, whatever else is in them and in whatever order. -/
theorem render_eq_of_agree (o : RenderOptions) (files : FileSource) (fuel : Nat) (base : Path)
    (source : String) {c d : Context}
    (h : ∀ n : String, isName n.toList = true →
      (n.toList <:+: source.toList ∨
        ∃ path text, files path = .ok text ∧ n.toList <:+: text.toList) →
      c.get? n = d.get? n) :
    render o files fuel base source c = render o files fuel base source d := by
  have hc : c.AgreeOn (fun n => NameIn source.toList n ∨
      ∃ path text, files path = .ok text ∧ NameIn text.toList n) d := by
    rintro n (hn | ⟨path, text, htext, hn⟩)
    · exact h n hn.1 (Or.inl hn.2)
    · exact h n hn.1 (Or.inr ⟨path, text, htext, hn.2⟩)
  obtain ⟨overrun, depth, hload⟩ := o.exists_loader_eq files fuel
  rw [render, render, hload]
  refine renderSource_congr ?_ base (fun n hn => Or.inl hn) hc
  exact loader_congr (fun path text htext n hn => Or.inr ⟨path, text, htext, hn⟩) overrun depth

/-- An attribute without a value puts the word `true` in front of an expression, but a name `true`
that no template has is not looked up. -/
theorem render_eq_of_agree_flag :
    (∀ n : String, isName n.toList = true →
      (n.toList <:+: "include a".toList ∨ ∃ path text,
        (fun _ => .ok "p(class class=x)" : FileSource) path = .ok text ∧
          n.toList <:+: text.toList) →
      (Context.ofList [("x", .str "a"), ("true", .int 2)]).get? n =
        (Context.ofList [("other", .null), ("x", .str "a")]).get? n) ∧
    render ⟨some 1⟩ (fun _ => .ok "p(class class=x)") 0 ⟨""⟩ "include a"
        (Context.ofList [("x", .str "a"), ("true", .int 2)]) =
      render ⟨some 1⟩ (fun _ => .ok "p(class class=x)") 0 ⟨""⟩ "include a"
        (Context.ofList [("other", .null), ("x", .str "a")]) := by
  have hagree : ∀ n : String, isName n.toList = true →
      (n.toList <:+: "include a".toList ∨ ∃ path text,
        (fun _ => .ok "p(class class=x)" : FileSource) path = .ok text ∧
          n.toList <:+: text.toList) →
      (Context.ofList [("x", .str "a"), ("true", .int 2)]).get? n =
        (Context.ofList [("other", .null), ("x", .str "a")]).get? n := by
    intro n _ hn
    have hin : n.toList <:+: "include a".toList ∨ n.toList <:+: "p(class class=x)".toList := by
      rcases hn with hn | ⟨_, _, htext, hn⟩
      · exact Or.inl hn
      · cases htext
        exact Or.inr hn
    have htrue : "true" ≠ n := by
      rintro rfl
      revert hin
      decide +kernel
    have hother : "other" ≠ n := by
      rintro rfl
      revert hin
      decide +kernel
    show Entries.get? [("x", _), ("true", _)] n = Entries.get? [("other", _), ("x", _)] n
    simp only [Entries.get?_cons, if_neg htrue, if_neg hother]
  exact ⟨hagree, render_eq_of_agree _ _ _ _ _ hagree⟩

end Stencil
