import Mathlib.Data.List.Induction
import Mathlib.Data.List.TakeWhile
import Stencil.Proofs.Render.Concatenation

/-!
Chains of branches.

Rendering goes through siblings one by one and carries along which chain is open and whether it has
its branch. Seen as a whole, a chain is an `if` together with all `elseif` and `else` siblings right
after it on its level. Of its members the first one that is taken is rendered (`renderChosen`); what
comes after the chain is rendered as if nothing stood before it; and a branch that belongs to no
chain is left out, with its children. Main statement: `renderNodes_chain`.

While a chain is open its members go on being taken or left out (`nodeSteps_cons_of_continuesOn`),
and an open chain goes back to an `if` that everything since has continued
(`exists_of_chainAfter_eq_opened`), so a branch that finds no chain open is in none.
-/

namespace Stencil

/-! ## Members -/

/-- Whether a chain on the level goes on with the node, an `elseif` or `else`. -/
def Node.continuesOn (level : Nat) (n : Node) : Bool :=
  n.content.continuesChain && n.level == level

/-- Whether a member of a chain is rendered if none before it is: an `else` always, an `if` or
`elseif` when its argument text counts as true. -/
def Node.isTaken (c : Context) (n : Node) : Bool :=
  match n.content.branch? with
  | some (.otherwise, _) => true
  | some (_, args) => holds args c
  | none => false

/-- Renders the children of the first member that is taken. -/
def renderChosen (includer : Includer) (members : List Node) : Rendering := fun c =>
  match members.find? (Node.isTaken c) with
  | some n => renderNodes includer .closed n.children c
  | none => (.ok "", c)

/-- An `if` before the node has a chain that goes on up to the node. -/
def InChain (before : List Node) (n : Node) : Prop :=
  ∃ earlier level args children run,
    before = earlier ++ .mk level (.directive .ifCase args) children :: run ∧
      ∀ m ∈ run ++ [n], m.continuesOn level = true

theorem isTaken_of_otherwise {n : Node} {args : String}
    (h : n.content = .directive .otherwise args) (c : Context) : n.isTaken c = true := by
  rw [Node.isTaken, h]
  rfl

/-- What stands after an `else` in its chain is never reached. -/
theorem renderChosen_append_otherwise (includer : Includer) (earlier later : List Node) {n : Node}
    {args : String} (h : n.content = .directive .otherwise args) :
    renderChosen includer (earlier ++ n :: later) = renderChosen includer (earlier ++ [n]) := by
  funext c
  have hfind : (earlier ++ n :: later).find? (Node.isTaken c) =
      (earlier ++ [n]).find? (Node.isTaken c) := by
    have hn := isTaken_of_otherwise h c
    rw [List.find?_append, List.find?_append, List.find?_cons_of_pos hn,
      List.find?_cons_of_pos hn]
  rw [renderChosen, renderChosen, hfind]

/-! ## The steps of a chain -/

def chosenSteps (members : List Node) (c : Context) : List Step :=
  match members.find? (Node.isTaken c) with
  | some n => nodeSteps .closed n.children c
  | none => []

theorem chosenSteps_cons (n : Node) (members : List Node) (c : Context) :
    chosenSteps (n :: members) c =
      if n.isTaken c then nodeSteps .closed n.children c else chosenSteps members c := by
  rw [chosenSteps, List.find?_cons]
  cases n.isTaken c <;> rfl

theorem nodeSteps_cons_of_continuesOn {level : Nat} {n : Node} (h : n.continuesOn level = true)
    (taken : Bool) (rest : List Node) (c : Context) :
    nodeSteps (.opened level taken) (n :: rest) c =
      (if !taken && n.isTaken c then nodeSteps .closed n.children c else []) ++
        nodeSteps (.opened level (taken || n.isTaken c)) rest c := by
  obtain ⟨l, content, children⟩ := n
  rw [Node.continuesOn, Bool.and_eq_true, beq_iff_eq] at h
  obtain ⟨hcontent, rfl⟩ := h
  rw [nodeSteps]
  cases content with
  | directive kind args =>
    cases kind with
    | elseIf =>
      cases taken with
      | true => simp [Content.branch?, Chain.branch, Node.level]
      | false =>
        have htaken : Node.isTaken c (.mk l (.directive .elseIf args) children) =
            holds args c := rfl
        rw [htaken]
        cases hholds : holds args c <;>
          simp [Content.branch?, Chain.branch, Node.level, Node.children, hholds]
    | otherwise =>
      have htaken : Node.isTaken c (.mk l (.directive .otherwise args) children) = true := rfl
      rw [htaken]
      cases taken <;> simp [Content.branch?, Chain.branch, Node.level, Node.children]
    | _ => cases hcontent
  | _ => cases hcontent

/-- A chain that its next sibling does not continue is as good as none. -/
theorem nodeSteps_of_not_continuesOn {level : Nat} {nodes : List Node}
    (h : ∀ n ∈ nodes.head?, n.continuesOn level = false) (taken : Bool) :
    nodeSteps (.opened level taken) nodes = nodeSteps .closed nodes := by
  cases nodes with
  | nil => rw [nodeSteps, nodeSteps]
  | cons n rest =>
    by_cases hcontinues : n.content.continuesChain = true
    · -- a branch on another level
      obtain ⟨l, content, children⟩ := n
      have hlevel : level ≠ l := by
        have hn := h _ rfl
        simp only [Node.continuesOn, Node.content, Node.level] at hcontinues hn
        rw [hcontinues, Bool.true_and, beq_eq_false_iff_ne] at hn
        exact hn.symm
      rw [nodeSteps, nodeSteps]
      cases content with
      | directive kind args =>
        cases kind with
        | elseIf => simp [Content.branch?, Chain.branch, hlevel]
        | otherwise => simp [Content.branch?, Chain.branch, hlevel]
        | _ => cases hcontinues
      | _ => cases hcontinues
    · refine nodeSteps_of_not_continuesChain _ _ ?_
      rintro m ⟨⟩
      exact Bool.not_eq_true _ ▸ hcontinues

/-- The rest of a chain: its first member that is taken if none was before, and then what follows
the chain on its own. -/
theorem nodeSteps_opened_append {level : Nat} {members after : List Node}
    (hmembers : ∀ m ∈ members, m.continuesOn level = true)
    (hafter : ∀ n ∈ after.head?, n.continuesOn level = false) (taken : Bool) (c : Context) :
    nodeSteps (.opened level taken) (members ++ after) c =
      (if taken then [] else chosenSteps members c) ++ nodeSteps .closed after c := by
  induction members generalizing taken with
  | nil =>
    rw [List.nil_append, nodeSteps_of_not_continuesOn hafter]
    cases taken <;> rfl
  | cons n members ih =>
    obtain ⟨hn, hrest⟩ := List.forall_mem_cons.mp hmembers
    rw [List.cons_append, nodeSteps_cons_of_continuesOn hn, ih hrest, chosenSteps_cons]
    cases taken with
    | true => rfl
    | false => cases n.isTaken c <;> simp

/-- A chain from its `if` on. -/
theorem nodeSteps_ifCase (level : Nat) (args : String) (children rest : List Node) (c : Context) :
    let first := Node.mk level (.directive .ifCase args) children
    nodeSteps .closed (first :: rest) c =
      chosenSteps (first :: rest.takeWhile (Node.continuesOn level)) c ++
        nodeSteps .closed (rest.dropWhile (Node.continuesOn level)) c := by
  intro first
  have hmembers : ∀ m ∈ rest.takeWhile (Node.continuesOn level), m.continuesOn level = true :=
    List.all_eq_true.mp List.all_takeWhile
  have hafter : ∀ n ∈ (rest.dropWhile (Node.continuesOn level)).head?,
      n.continuesOn level = false := by
    intro n hn
    have hhead := List.head?_dropWhile_not (Node.continuesOn level) rest
    rw [Option.mem_def.mp hn] at hhead
    simpa using hhead
  have hopened := nodeSteps_opened_append hmembers hafter (holds args c) c
  rw [List.takeWhile_append_dropWhile] at hopened
  have htaken : first.isTaken c = holds args c := rfl
  rw [chosenSteps_cons, htaken, nodeSteps]
  simp only [Content.branch?, Chain.branch]
  cases hholds : holds args c with
  | true =>
    rw [hholds] at hopened
    exact congrArg (nodeSteps .closed children c ++ ·) hopened
  | false =>
    rw [hholds] at hopened
    exact hopened

/-! ## The chain that is open -/

/-- The chain after a sibling. -/
def Chain.next (c : Context) (chain : Chain) (n : Node) : Chain :=
  match n.content.branch? with
  | some (kind, args) => (chain.branch n.level kind args c).2
  | none => .closed

/-- The chain after siblings that follow an open or closed chain. -/
def chainAfter (c : Context) (chain : Chain) (nodes : List Node) : Chain :=
  nodes.foldl (Chain.next c) chain

theorem nodeSteps_append_chainAfter (chain : Chain) (a b : List Node) (c : Context) :
    nodeSteps chain (a ++ b) c = nodeSteps chain a c ++ nodeSteps (chainAfter c chain a) b c := by
  induction a generalizing chain with
  | nil => rw [List.nil_append, nodeSteps, List.nil_append, chainAfter, List.foldl_nil]
  | cons n a ih =>
    obtain ⟨level, content, children⟩ := n
    have hafter : chainAfter c chain (.mk level content children :: a) =
        chainAfter c (chain.next c (.mk level content children)) a := rfl
    rw [List.cons_append, nodeSteps, nodeSteps, hafter]
    dsimp only
    cases hbranch : content.branch? with
    | none =>
      have hnext : chain.next c (.mk level content children) = .closed := by
        simp only [Chain.next, Node.content, hbranch]
      dsimp only
      rw [ih, hnext, List.append_assoc]
    | some branch =>
      obtain ⟨kind, args⟩ := branch
      have hnext : chain.next c (.mk level content children) =
          (chain.branch level kind args c).2 := by
        simp only [Chain.next, Node.content, Node.level, hbranch]
      rw [hnext]
      dsimp only
      obtain ⟨now, next⟩ := chain.branch level kind args c
      cases now with
      | true =>
        dsimp only
        rw [ih, List.append_assoc]
      | false => exact ih next

theorem Chain.branch_eq_opened {chain : Chain} {l level : Nat} {kind : DirectiveKind}
    {args : String} {c : Context} {taken : Bool}
    (h : (chain.branch l kind args c).2 = .opened level taken) :
    level = l ∧ (kind = .ifCase ∨ ∃ before, chain = .opened level before) := by
  unfold branch at h
  split at h
  · cases h
    exact ⟨rfl, Or.inl rfl⟩
  · next l' before =>
    split at h
    · cases h
    · next hlevel =>
      rw [bne_iff_ne, not_not] at hlevel
      split at h
      · cases h
        exact ⟨hlevel, Or.inr ⟨_, rfl⟩⟩
      · cases h
        exact ⟨hlevel, Or.inr ⟨_, rfl⟩⟩
  · next l' before =>
    split at h
    · cases h
    · next hlevel =>
      rw [bne_iff_ne, not_not] at hlevel
      cases h
      exact ⟨hlevel, Or.inr ⟨_, rfl⟩⟩
  · cases h

/-- After a sibling a chain is open that starts there, or the one before it that the sibling
continues. -/
theorem Chain.next_eq_opened {c : Context} {chain : Chain} {n : Node} {level : Nat} {taken : Bool}
    (h : chain.next c n = .opened level taken) :
    (∃ args children, n = .mk level (.directive .ifCase args) children) ∨
      n.continuesOn level = true ∧ ∃ before, chain = .opened level before := by
  obtain ⟨l, content, children⟩ := n
  cases content with
  | directive kind args =>
    have hcontinues : ∀ kind, Content.continuesChain (.directive kind args) = true →
        level = l → Node.continuesOn level (.mk l (.directive kind args) children) = true := by
      rintro kind hkind rfl
      rw [Node.continuesOn, Node.content, hkind, Node.level, BEq.rfl, Bool.true_and]
    cases kind with
    | ifCase =>
      cases h
      exact Or.inl ⟨args, children, rfl⟩
    | elseIf =>
      obtain ⟨hlevel, hkind | hbefore⟩ := Chain.branch_eq_opened h
      · cases hkind
      · exact Or.inr ⟨hcontinues _ rfl hlevel, hbefore⟩
    | otherwise =>
      obtain ⟨hlevel, hkind | hbefore⟩ := Chain.branch_eq_opened h
      · cases hkind
      · exact Or.inr ⟨hcontinues _ rfl hlevel, hbefore⟩
    | _ => cases h
  | _ => cases h

/-- An open chain goes back to an `if` that every sibling since has continued. -/
theorem exists_of_chainAfter_eq_opened {c : Context} {nodes : List Node} {level : Nat}
    {taken : Bool} (h : chainAfter c .closed nodes = .opened level taken) :
    ∃ earlier args children run,
      nodes = earlier ++ .mk level (.directive .ifCase args) children :: run ∧
        ∀ m ∈ run, m.continuesOn level = true := by
  induction nodes using List.reverseRecOn generalizing taken with
  | nil => cases h
  | append_singleton nodes n ih =>
    rw [chainAfter, List.foldl_append] at h
    rcases Chain.next_eq_opened h with ⟨args, children, rfl⟩ | ⟨hn, before, hbefore⟩
    · exact ⟨nodes, args, children, [], rfl, nofun⟩
    · obtain ⟨earlier, args, children, run, rfl, hrun⟩ := ih hbefore
      refine ⟨earlier, args, children, run ++ [n], by simp, ?_⟩
      intro m hm
      rcases List.mem_append.mp hm with hm | hm
      · exact hrun m hm
      · rw [List.mem_singleton.mp hm]
        exact hn

/-- A branch in no chain takes no step, and the siblings after it start anew. -/
theorem nodeSteps_append_stray {before rest : List Node} {stray : Node}
    (hstray : stray.content.continuesChain = true) (hchain : ¬ InChain before stray) (c : Context) :
    nodeSteps .closed (before ++ stray :: rest) c =
      nodeSteps .closed before c ++ nodeSteps .closed rest c := by
  have hdropped : nodeSteps .closed (stray :: rest) c = nodeSteps .closed rest c := by
    obtain ⟨level, content, children⟩ := stray
    rw [nodeSteps]
    cases content with
    | directive kind args => cases kind <;> first | rfl | cases hstray
    | _ => cases hstray
  rw [nodeSteps_append_chainAfter]
  cases hafter : chainAfter c .closed before with
  | closed => rw [hdropped]
  | opened level taken =>
    have hnot : stray.continuesOn level = false := by
      rw [← Bool.not_eq_true]
      intro hcontinues
      obtain ⟨earlier, args, children, run, hbefore, hrun⟩ := exists_of_chainAfter_eq_opened hafter
      refine hchain ⟨earlier, level, args, children, run, hbefore, ?_⟩
      intro m hm
      rcases List.mem_append.mp hm with hm | hm
      · exact hrun m hm
      · rw [List.mem_singleton.mp hm]
        exact hcontinues
    rw [nodeSteps_of_not_continuesOn (by rintro n ⟨⟩; exact hnot), hdropped]

/-! ## Renderings -/

open Rendering

variable {includer : Includer}

theorem performs_renderChosen (includer : Includer) (members : List Node) :
    Performs includer (renderChosen includer members) (chosenSteps members) := by
  intro c
  rw [renderChosen, chosenSteps]
  cases members.find? (Node.isTaken c) with
  | none => rfl
  | some n => exact performs_renderNodes .closed n.children c

theorem renderNodes_ifCase (level : Nat) (args : String) (children rest : List Node) :
    let first := Node.mk level (.directive .ifCase args) children
    renderNodes includer .closed (first :: rest) =
      renderChosen includer (first :: rest.takeWhile (Node.continuesOn level)) ++
        renderNodes includer .closed (rest.dropWhile (Node.continuesOn level)) := by
  intro first
  have hchosen := performs_renderChosen includer (first :: rest.takeWhile (Node.continuesOn level))
  have hparts := hchosen.append
    (performs_renderNodes .closed (rest.dropWhile (Node.continuesOn level)))
  refine (performs_renderNodes .closed (first :: rest)).unique fun c => ?_
  rw [hparts c, nodeSteps_ifCase]

theorem renderNodes_append_stray {before : List Node} {stray : Node}
    (hstray : stray.content.continuesChain = true) (hchain : ¬ InChain before stray)
    (rest : List Node) :
    renderNodes includer .closed (before ++ stray :: rest) =
      renderNodes includer .closed before ++ renderNodes includer .closed rest := by
  have hbefore : Performs includer (renderNodes includer .closed before)
      (nodeSteps .closed before) := performs_renderNodes .closed before
  have hparts := hbefore.append (performs_renderNodes .closed rest)
  refine (performs_renderNodes .closed (before ++ stray :: rest)).unique fun c => ?_
  rw [hparts c, nodeSteps_append_stray hstray hchain]

/-- **A chain renders one branch and ends where its branches end.** Among siblings, whatever stands
before it, an `if` is rendered together with the `elseif` and `else` nodes on its level right after
it: the children of the first of these that is taken, and then the siblings after them as if they
were the first. Behind an `else` no member of its chain is rendered. A branch in no chain, be it for
its level or for what stands between, is left out with its children. -/
theorem renderNodes_chain (includer : Includer) (before : List Node) :
    (∀ level args children rest,
      let first := Node.mk level (.directive .ifCase args) children
      let members := first :: rest.takeWhile (Node.continuesOn level)
      renderNodes includer .closed (before ++ first :: rest) =
        renderNodes includer .closed before ++ renderChosen includer members ++
          renderNodes includer .closed (rest.dropWhile (Node.continuesOn level)) ∧
      ∀ earlier n later args', members = earlier ++ n :: later →
        n.content = .directive .otherwise args' →
        renderChosen includer members = renderChosen includer (earlier ++ [n])) ∧
    ∀ stray rest, stray.content.continuesChain = true → ¬ InChain before stray →
      renderNodes includer .closed (before ++ stray :: rest) =
        renderNodes includer .closed before ++ renderNodes includer .closed rest := by
  refine ⟨?_, ?_⟩
  · intro level args children rest first members
    refine ⟨?_, ?_⟩
    · rw [renderNodes_append includer .closed before (by rintro n ⟨⟩; rfl), renderNodes_ifCase,
        append_assoc]
    · intro earlier n later args' hmembers hn
      rw [hmembers, renderChosen_append_otherwise includer earlier later hn]
  · intro stray rest hstray hchain
    exact renderNodes_append_stray hstray hchain rest

/-- A chain with a second `else` between two texts, and an `else` after another sibling. -/
theorem renderNodes_chain_else :
    let includer : Includer := fun _ _ => .ok ""
    let first : Node := .mk 0 (.directive .ifCase "") []
    let other : Node := .mk 0 (.directive .otherwise "") [.mk 1 (.text "a") []]
    let second : Node := .mk 0 (.directive .otherwise "") [.mk 1 (.text "b") []]
    let text : Node := .mk 0 (.text "c") []
    renderNodes includer .closed [text, first, other, second, text] Context.empty =
      (.ok "c\na\nc\n", Context.empty) ∧
    other.content.continuesChain = true ∧ ¬ InChain [first, text] other ∧
    renderNodes includer .closed [first, text, other] Context.empty =
      (.ok "c\n", Context.empty) := by
  intro includer first other second text
  have hstray : ¬ InChain [first, text] other := by
    rintro ⟨earlier, level, args, children, run, hbefore, hrun⟩
    have htext : text ∈ run := by
      rcases earlier with _ | ⟨_, _ | ⟨_, earlier⟩⟩
      · rw [List.nil_append, List.cons.injEq] at hbefore
        rw [← hbefore.2]
        exact List.mem_cons_self
      · simp [text] at hbefore
      · simp at hbefore
    have hcontinues : text.continuesOn level = true := hrun text (List.mem_append_left _ htext)
    cases hcontinues
  have hc : renderNodes includer .closed [text] Context.empty = (.ok "c\n", Context.empty) := by
    simp only [text, renderNodes]
    rfl
  refine ⟨?_, rfl, hstray, ?_⟩
  · obtain ⟨hchain, hend⟩ := (renderNodes_chain includer [text]).1 0 "" [] [other, second, text]
    have hother : renderChosen includer [first, other] Context.empty =
        (.ok "a\n", Context.empty) := by
      show renderNodes includer .closed [.mk 1 (.text "a") []] Context.empty = _
      simp only [renderNodes]
      rfl
    have hchosen := (congrFun (hend [first] other [second] "" rfl rfl) Context.empty).trans hother
    exact (congrFun hchain Context.empty).trans (append_of_ok (append_of_ok hc hchosen) hc)
  · have htexts : renderNodes includer .closed [first, text] Context.empty =
        (.ok "c\n", Context.empty) := by
      simp only [first, text, renderNodes]
      rfl
    have hnone : renderNodes includer .closed [] Context.empty = (.ok "", Context.empty) := by
      rw [renderNodes]
      rfl
    have hleft := (renderNodes_chain includer [first, text]).2 other [] rfl hstray
    exact (congrFun hleft Context.empty).trans (append_of_ok htexts hnone)

end Stencil
