import Stencil.Proofs.Render.Steps

/-!
One template after the other.

A line on the outermost level closes all blocks before it, so the trees of two sources stand side by
side when the second source starts there (`ofLines_append`). A chain that the first source leaves
open ends at any line that is no branch, so the steps stand side by side as well
(`nodeSteps_append`). At the seam itself only the line break matters: after a carriage return it is
the second half of a break, and the blank line that the first source then lacks says nothing.
-/

namespace Stencil

/-! ## Lines -/

theorem ofText?_nil : Line.ofText? [] = none := rfl

theorem filterMap_splitLinesFrom_append (line source next : List Char) :
    (splitLinesFrom line (source ++ '\n' :: next)).filterMap Line.ofText? =
      (splitLinesFrom line source).filterMap Line.ofText? ++ linesOf next := by
  fun_induction splitLinesFrom line source with
  | case1 line =>
    have hseam : splitLinesFrom line ('\n' :: next) = line.reverse :: splitLines next := rfl
    rw [List.nil_append, hseam, List.filterMap_cons, List.filterMap_cons]
    cases Line.ofText? line.reverse <;> rfl
  | case2 line cs ih =>
    rw [List.cons_append, List.cons_append, splitLinesFrom, List.filterMap_cons,
      List.filterMap_cons, ih]
    cases Line.ofText? line.reverse <;> rfl
  | case3 line c cs hpair hc ih =>
    by_cases hseam : c = '\r' ∧ cs = []
    · -- the seam is the second half of a break
      obtain ⟨rfl, rfl⟩ := hseam
      have hbreak : splitLinesFrom line ('\r' :: '\n' :: next) =
          line.reverse :: splitLines next := rfl
      rw [List.cons_append, List.nil_append, hbreak]
      simp only [splitLinesFrom, List.filterMap_cons, ofText?_nil, List.reverse_nil,
        List.filterMap_nil]
      cases Line.ofText? line.reverse <;> rfl
    · have hnext : ∀ rest, c = '\r' → cs ++ '\n' :: next = '\n' :: rest → False := by
        intro rest hr hrest
        cases cs with
        | nil => exact hseam ⟨hr, rfl⟩
        | cons d ds =>
          cases hrest
          exact hpair ds hr rfl
      rw [List.cons_append, splitLinesFrom]
      · rw [if_pos hc, List.filterMap_cons, List.filterMap_cons, ih]
        cases Line.ofText? line.reverse <;> rfl
      · exact hnext
  | case4 line c cs _ hc ih =>
    rw [List.cons_append, splitLinesFrom]
    · rw [if_neg hc, ih]
    · rintro rest rfl _
      exact hc (by decide)

/-- The lines of two sources with a line break between them are the lines of both. -/
theorem linesOf_append (source next : List Char) :
    linesOf (source ++ '\n' :: next) = linesOf source ++ linesOf next :=
  filterMap_splitLinesFrom_append [] source next

/-! ## Trees -/

/-- Whether the forest, if there is one, starts on the outermost level. -/
def Outermost (forest : Forest) : Prop := ∀ n ∈ forest.head?, n.level = 0

theorem attach_eq_cons (line : Line) (later : Forest) :
    ∃ children rest, attach line later = .mk line.level line.content children :: rest := by
  unfold attach
  split
  · exact ⟨_, _, rfl⟩
  · exact ⟨_, _, rfl⟩

theorem head?_ofLines (lines : List Line) :
    (Forest.ofLines lines).head?.map (fun n => (⟨n.level, n.content⟩ : Line)) = lines.head? := by
  cases lines with
  | nil => rfl
  | cons line lines =>
    obtain ⟨children, rest, h⟩ := attach_eq_cons line (Forest.ofLines lines)
    have hcons : Forest.ofLines (line :: lines) = attach line (Forest.ofLines lines) := rfl
    rw [hcons, h]
    rfl

/-- No line takes a tree on the outermost level under itself. -/
theorem attach_append (line : Line) (a : Forest) {b : Forest} (hb : Outermost b) :
    attach line (a ++ b) = attach line a ++ b := by
  have hsplit : (a ++ b).takeWhile (fun n => line.level < n.level) =
        a.takeWhile (fun n => line.level < n.level) ∧
      (a ++ b).dropWhile (fun n => line.level < n.level) =
        a.dropWhile (fun n => line.level < n.level) ++ b := by
    induction a with
    | nil =>
      cases b with
      | nil => exact ⟨rfl, rfl⟩
      | cons n b =>
        have hn : n.level = 0 := hb n rfl
        simp [hn]
    | cons n a ih =>
      by_cases hn : line.level < n.level
      · simpa [hn] using ih
      · simp [hn]
  unfold attach
  split
  · rw [hsplit.1, hsplit.2, List.cons_append]
  · rfl

theorem ofLines_append (lines : List Line) {more : List Line}
    (h : Outermost (Forest.ofLines more)) :
    Forest.ofLines (lines ++ more) = Forest.ofLines lines ++ Forest.ofLines more := by
  induction lines with
  | nil => rfl
  | cons line lines ih =>
    have hcons : ∀ ls, Forest.ofLines (line :: ls) = attach line (Forest.ofLines ls) :=
      fun _ => rfl
    rw [List.cons_append, hcons, hcons, ih, attach_append line _ h]

/-! ## Steps -/

/-- Whether a content is a branch of a chain that is open before it. -/
def Content.continuesChain : Content → Bool
  | .directive .elseIf _ | .directive .otherwise _ => true
  | _ => false

theorem nodeSteps_of_not_continuesChain (chain : Chain) (nodes : List Node)
    (h : ∀ n ∈ nodes.head?, n.content.continuesChain = false) :
    nodeSteps chain nodes = nodeSteps .closed nodes := by
  cases nodes with
  | nil => rw [nodeSteps, nodeSteps]
  | cons n rest =>
    obtain ⟨level, content, children⟩ := n
    have hcontent : content.continuesChain = false := h _ rfl
    rw [nodeSteps, nodeSteps]
    cases content with
    | directive kind args =>
      cases kind with
      | elseIf => cases hcontent
      | otherwise => cases hcontent
      | _ => rfl
    | _ => rfl

theorem nodeSteps_append (chain : Chain) (a : List Node) {b : List Node}
    (hb : ∀ n ∈ b.head?, n.content.continuesChain = false) (c : Context) :
    nodeSteps chain (a ++ b) c = nodeSteps chain a c ++ nodeSteps .closed b c := by
  induction a generalizing chain with
  | nil => rw [List.nil_append, nodeSteps_of_not_continuesChain chain b hb, nodeSteps,
      List.nil_append]
  | cons n a ih =>
    obtain ⟨level, content, children⟩ := n
    rw [List.cons_append, nodeSteps, nodeSteps]
    dsimp only
    cases content.branch? with
    | none =>
      dsimp only
      rw [ih, List.append_assoc]
    | some branch =>
      obtain ⟨kind, args⟩ := branch
      dsimp only
      obtain ⟨now, next⟩ := chain.branch level kind args c
      cases now with
      | true =>
        dsimp only
        rw [ih, List.append_assoc]
      | false => exact ih next

theorem sourceSteps_append (source next : List Char) (c : Context)
    (h : ∀ line ∈ (linesOf next).head?, line.level = 0 ∧ line.content.continuesChain = false) :
    sourceSteps (source ++ '\n' :: next) c = sourceSteps source c ++ sourceSteps next c := by
  have hfirst : ∀ n ∈ (Forest.parse next).head?,
      n.level = 0 ∧ n.content.continuesChain = false := by
    intro n hn
    refine h ⟨n.level, n.content⟩ ?_
    rw [Option.mem_def] at hn ⊢
    rw [← head?_ofLines]
    exact congrArg (Option.map _) hn
  rw [sourceSteps, Forest.parse, linesOf_append,
    ofLines_append _ fun n hn => (hfirst n hn).1]
  exact nodeSteps_append .closed _ (fun n hn => (hfirst n hn).2) c

/-! ## Renderings -/

/-- Siblings that start with no branch are rendered as if nothing stood before them. -/
theorem renderNodes_append (includer : Includer) (chain : Chain) (a : List Node) {b : List Node}
    (hb : ∀ n ∈ b.head?, n.content.continuesChain = false) :
    renderNodes includer chain (a ++ b) =
      renderNodes includer chain a ++ renderNodes includer .closed b := by
  have hbefore : Rendering.Performs includer (renderNodes includer chain a) (nodeSteps chain a) :=
    performs_renderNodes chain a
  have hparts := hbefore.append (performs_renderNodes .closed b)
  refine (performs_renderNodes chain (a ++ b)).unique fun c => ?_
  rw [hparts c, nodeSteps_append chain a hb]

/-- **Templates compose by concatenation.** If the second of two sources starts on the outermost
level, and not with a branch of a chain, then the two with a line break between them render to what
the first renders to and then what the second does, in the same context; the first source to fail
gives the error. -/
theorem render_append (o : RenderOptions) (files : FileSource) (fuel : Nat) (base : Path)
    (source next : String) (c : Context)
    (h : ∀ line, (linesOf next.toList).head? = some line →
      line.level = 0 ∧ line.content.continuesChain = false) :
    render o files fuel base (source ++ "\n" ++ next) c =
      match render o files fuel base source c, render o files fuel base next c with
      | .ok html, .ok html' => .ok (html ++ html')
      | .ok _, .error e => .error e
      | .error e, _ => .error e := by
  have hjoined : (source ++ "\n" ++ next).toList = source.toList ++ '\n' :: next.toList := by
    simp
  rw [render, hjoined, renderSource_eq, sourceSteps_append _ _ _ h, perform_append,
    ← renderSource_eq, ← renderSource_eq, ← render, ← render]
  cases render o files fuel base source c with
  | error e => rfl
  | ok html => cases render o files fuel base next c <;> rfl

/-- A chain that the first source leaves open, at a seam that is half a line break, takes no branch
of the second. -/
theorem render_append_open_chain :
    (∀ line, (linesOf "p b\nelse\n  p c".toList).head? = some line →
      line.level = 0 ∧ line.content.continuesChain = false) ∧
    render ⟨none⟩ (fun _ => .error .notFound) 0 ⟨""⟩ ("if x\n  p a\r" ++ "\n" ++ "p b\nelse\n  p c")
        (Context.ofList [("x", .bool false)]) =
      .ok ("" ++ "<p>b</p>\n") := by
  have hfirst : ∀ line, (linesOf "p b\nelse\n  p c".toList).head? = some line →
      line.level = 0 ∧ line.content.continuesChain = false := by
    intro line hline
    cases hline
    exact ⟨rfl, rfl⟩
  have hsource : render ⟨none⟩ (fun _ => .error .notFound) 0 ⟨""⟩ "if x\n  p a\r"
      (Context.ofList [("x", .bool false)]) = .ok "" := by
    have hparse : Forest.parse "if x\n  p a\r".toList =
        [.mk 0 (.directive .ifCase "x") [.mk 1 (.tag ⟨"p", [], some "a", false⟩) []]] := rfl
    rw [render, renderSource_eq, sourceSteps, hparse]
    simp only [nodeSteps]
    rfl
  have hnext : render ⟨none⟩ (fun _ => .error .notFound) 0 ⟨""⟩ "p b\nelse\n  p c"
      (Context.ofList [("x", .bool false)]) = .ok "<p>b</p>\n" := by
    have hparse : Forest.parse "p b\nelse\n  p c".toList =
        [.mk 0 (.tag ⟨"p", [], some "b", false⟩) [],
          .mk 0 (.directive .otherwise "") [.mk 1 (.tag ⟨"p", [], some "c", false⟩) []]] := rfl
    rw [render, renderSource_eq, sourceSteps, hparse]
    simp only [nodeSteps]
    rfl
  refine ⟨hfirst, ?_⟩
  rw [render_append _ _ _ _ _ _ _ hfirst, hsource, hnext]

end Stencil
