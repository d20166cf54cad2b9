import Stencil.Template.Arena
import Stencil.Template.Tree

/-!
The arena of a template holds its trees.

`ofTrees` numbers the nodes of a forest, each before its children and all of them before its next
sibling. That the arena of a template, which grows line by line, is the one of its trees
(`parse_eq_ofTrees`) is shown from any state of the builder on. What it will still take in are the
trees that the later lines make: the leading ones deeper than the innermost open node go under that
node, the next ones under the node around it, and so on; what is left goes to the top level
(`absorb`). One line moves its own tree from those to come into the arena (`absorb_push`).
-/

namespace Stencil

/-! ## Cutting forests -/

/-- Cutting at the weaker test first changes nothing for the stronger one. -/
private theorem takeWhile_of_imp {p q : Node → Bool} (hpq : ∀ n, p n = true → q n = true)
    (forest : Forest) :
    (forest.takeWhile q).takeWhile p = forest.takeWhile p ∧
      (forest.takeWhile q).dropWhile p = (forest.dropWhile p).takeWhile q ∧
      (forest.dropWhile p).dropWhile q = forest.dropWhile q := by
  induction forest with
  | nil => exact ⟨rfl, rfl, rfl⟩
  | cons n forest ih =>
    cases hp : p n with
    | true => simpa [hp, hpq n hp] using ih
    | false => cases hq : q n <;> simp [hp, hq]

theorem cut_deeper {limit level : Nat} (h : limit < level) (forest : Forest) :
    (forest.takeWhile fun n => limit < n.level).takeWhile (fun n => level < n.level) =
        forest.takeWhile (fun n => level < n.level) ∧
      (forest.takeWhile fun n => limit < n.level).dropWhile (fun n => level < n.level) =
        (forest.dropWhile fun n => level < n.level).takeWhile (fun n => limit < n.level) ∧
      (forest.dropWhile fun n => level < n.level).dropWhile (fun n => limit < n.level) =
        forest.dropWhile (fun n => limit < n.level) := by
  refine takeWhile_of_imp (fun n hn => ?_) forest
  simp only [decide_eq_true_eq] at hn ⊢
  omega

theorem cut_attach {limit : Nat} {line : Line} (h : limit < line.level) (later : Forest) :
    (attach line later).takeWhile (fun n => limit < n.level) =
        attach line (later.takeWhile fun n => limit < n.level) ∧
      (attach line later).dropWhile (fun n => limit < n.level) =
        later.dropWhile fun n => limit < n.level := by
  obtain ⟨htake, hdrop, hrest⟩ := cut_deeper h later
  unfold attach
  split
  · rw [List.takeWhile_cons_of_pos (by simp [h]), List.dropWhile_cons_of_pos (by simp [h]), htake,
      hdrop, hrest]
    exact ⟨rfl, rfl⟩
  · rw [List.takeWhile_cons_of_pos (by simp [h]), List.dropWhile_cons_of_pos (by simp [h])]
    exact ⟨rfl, rfl⟩

theorem cut_attach_of_not {limit : Nat} {line : Line} (h : ¬ limit < line.level)
    (later : Forest) :
    (attach line later).takeWhile (fun n => limit < n.level) = [] ∧
      (attach line later).dropWhile (fun n => limit < n.level) = attach line later := by
  unfold attach
  split
  · exact ⟨List.takeWhile_cons_of_neg (by simp [h]), List.dropWhile_cons_of_neg (by simp [h])⟩
  · exact ⟨List.takeWhile_cons_of_neg (by simp [h]), List.dropWhile_cons_of_neg (by simp [h])⟩

namespace Arena

/-! ## Numbers for trees -/

mutual

/-- The entries of a tree whose root has the number `id`. -/
def ofNode (id : Nat) : Node → List Entry
  | .mk level content children =>
    let inner := ofForest (id + 1) children
    ⟨level, content, inner.1⟩ :: inner.2

/-- The numbers of the roots and all entries of a forest whose first root has the number `id`. -/
def ofForest (id : Nat) : List Node → List Nat × List Entry
  | [] => ([], [])
  | n :: rest =>
    let entries := ofNode id n
    let later := ofForest (id + entries.length) rest
    (id :: later.1, entries ++ later.2)

end

def ofTrees (forest : Forest) : Arena := ⟨(ofForest 0 forest).1, (ofForest 0 forest).2⟩

theorem ofForest_cons (id level : Nat) (content : Content) (children rest : List Node) :
    ofForest id (.mk level content children :: rest) =
      let inner := ofForest (id + 1) children
      let later := ofForest (id + 1 + inner.2.length) rest
      (id :: later.1, ⟨level, content, inner.1⟩ :: (inner.2 ++ later.2)) := by
  simp only [ofForest, ofNode, List.length_cons, List.cons_append, Nat.add_assoc, Nat.add_comm 1]

/-- A tree that is a single node. -/
theorem ofForest_cons_leaf (id level : Nat) (content : Content) (rest : List Node) :
    ofForest id (.mk level content [] :: rest) =
      (id :: (ofForest (id + 1) rest).1, ⟨level, content, []⟩ :: (ofForest (id + 1) rest).2) := by
  rw [ofForest_cons]
  rfl

/-! ## Trees under a node -/

/-- Appends the nodes of a forest, as the last children of a node or as the last roots. -/
def graft (a : Arena) (parent? : Option Nat) (forest : Forest) : Arena :=
  let inner := ofForest a.nodes.length forest
  match parent? with
  | some parent => ⟨a.roots, a.nodes.modify parent (Entry.adopt inner.1) ++ inner.2⟩
  | none => ⟨a.roots ++ inner.1, a.nodes ++ inner.2⟩

private theorem modify_append_of_lt {α : Type} {xs : List α} {i : Nat} (h : i < xs.length)
    (ys : List α) (f : α → α) : (xs ++ ys).modify i f = xs.modify i f ++ ys := by
  induction xs generalizing i with
  | nil => cases h
  | cons x xs ih =>
    cases i with
    | zero => rfl
    | succ i => simpa using ih (Nat.lt_of_succ_lt_succ h)

private theorem modify_length_append {α : Type} (xs : List α) (y : α) (ys : List α) (f : α → α) :
    (xs ++ y :: ys).modify xs.length f = xs ++ f y :: ys := by
  induction xs with
  | nil => rfl
  | cons x xs ih => simpa using ih

theorem Entry.adopt_adopt (ids more : List Nat) :
    Entry.adopt more ∘ Entry.adopt ids = Entry.adopt (ids ++ more) := by
  funext e
  simp [adopt]

theorem graft_nil (a : Arena) (parent? : Option Nat) : a.graft parent? [] = a := by
  have hadopt : Entry.adopt [] = id := by
    funext e
    simp [Entry.adopt]
  cases parent? with
  | none => simp [graft, ofForest]
  | some parent => simp [graft, ofForest, hadopt]

theorem length_push (a : Arena) (parent? : Option Nat) (line : Line) :
    (a.push parent? line).nodes.length = a.nodes.length + 1 := by
  cases parent? <;> simp [push]

/-- A line that opens a block and the trees after it: its children go under it, and the others where
it went itself. -/
theorem graft_attach_of_opens {line : Line} (h : line.content.opensBlock = true) {a : Arena}
    {parent? : Option Nat} (hp : ∀ parent ∈ parent?, parent < a.nodes.length) (later : Forest) :
    a.graft parent? (attach line later) =
      ((a.push parent? line).graft (some a.nodes.length)
        (later.takeWhile fun n => line.level < n.level)).graft parent?
          (later.dropWhile fun n => line.level < n.level) := by
  rw [attach, if_pos h]
  generalize later.takeWhile (fun n => line.level < n.level) = inside
  generalize later.dropWhile (fun n => line.level < n.level) = outside
  cases parent? with
  | none =>
    simp only [graft, push, ofForest_cons, List.length_append, List.length_modify,
      List.length_singleton]
    rw [modify_length_append]
    simp [Entry.adopt]
  | some parent =>
    have hlt : parent < a.nodes.length := hp parent rfl
    have hlast : ∀ xs : List Entry, xs.length = a.nodes.length → ∀ y f,
        (xs ++ [y]).modify a.nodes.length f = xs ++ [f y] := by
      rintro xs hlen y f
      rw [← hlen, modify_length_append]
    simp only [graft, push, ofForest_cons, List.length_append, List.length_modify,
      List.length_singleton]
    rw [modify_append_of_lt hlt, hlast _ (List.length_modify ..), List.append_assoc,
      modify_append_of_lt (by rwa [List.length_modify]), List.modify_modify_eq, Entry.adopt_adopt]
    simp [Entry.adopt]

theorem graft_attach_of_not {line : Line} (h : ¬ line.content.opensBlock = true) {a : Arena}
    {parent? : Option Nat} (hp : ∀ parent ∈ parent?, parent < a.nodes.length) (later : Forest) :
    a.graft parent? (attach line later) = (a.push parent? line).graft parent? later := by
  rw [attach, if_neg h]
  cases parent? with
  | none => simp [graft, push, ofForest_cons_leaf]
  | some parent =>
    have hlt : parent < a.nodes.length := hp parent rfl
    simp only [graft, push, ofForest_cons_leaf, List.length_append, List.length_modify,
      List.length_singleton]
    rw [modify_append_of_lt hlt, modify_append_of_lt (by rwa [List.length_modify]),
      List.modify_modify_eq, Entry.adopt_adopt]
    simp

/-! ## Line by line -/

/-- Takes in the trees of the lines to come, each under the innermost open node that it lies deeper
than. -/
def absorb (a : Arena) : List Frame → Forest → Arena
  | [], forest => a.graft none forest
  | frame :: stack, forest =>
    (a.graft (some frame.id) (forest.takeWhile fun n => frame.level < n.level)).absorb stack
      (forest.dropWhile fun n => frame.level < n.level)

theorem absorb_nil (a : Arena) (stack : List Frame) : a.absorb stack [] = a := by
  induction stack with
  | nil => exact a.graft_nil none
  | cons frame stack ih => rw [absorb, List.takeWhile_nil, List.dropWhile_nil, graft_nil, ih]

/-- A line closes the open nodes that get nothing of its tree. -/
theorem absorb_attach (a : Arena) (stack : List Frame) (line : Line) (later : Forest) :
    a.absorb stack (attach line later) =
      a.absorb (stack.dropWhile fun frame => line.level ≤ frame.level) (attach line later) := by
  induction stack with
  | nil => rfl
  | cons frame stack ih =>
    by_cases hlevel : line.level ≤ frame.level
    · obtain ⟨htake, hdrop⟩ := cut_attach_of_not (Nat.not_lt.mpr hlevel) later
      rw [List.dropWhile_cons_of_pos (by simpa using hlevel), absorb, htake, hdrop, graft_nil, ih]
    · rw [List.dropWhile_cons_of_neg (by simpa using hlevel)]

namespace Builder

/-- All open nodes are there. -/
def InBounds (b : Builder) : Prop := ∀ frame ∈ b.stack, frame.id < b.arena.nodes.length

theorem InBounds.push {b : Builder} (h : b.InBounds) (line : Line) : (b.push line).InBounds := by
  have hkept : ∀ frame ∈ b.stack.dropWhile (fun frame => line.level ≤ frame.level),
      frame.id < b.arena.nodes.length + 1 := fun frame hf =>
    Nat.lt_succ_of_lt (h frame ((List.dropWhile_sublist _).subset hf))
  intro frame hf
  rw [Builder.push] at hf ⊢
  dsimp only at hf ⊢
  rw [length_push]
  split at hf
  · rcases List.mem_cons.mp hf with rfl | hf
    · exact Nat.lt_succ_self _
    · exact hkept frame hf
  · exact hkept frame hf

/-- A line takes the root of its tree from the trees that are still to come. -/
theorem absorb_push {b : Builder} (h : b.InBounds) (line : Line) (later : Forest) :
    b.arena.absorb b.stack (attach line later) =
      (b.push line).arena.absorb (b.push line).stack later := by
  have hkept : ∀ frame ∈ b.stack.dropWhile (fun frame => line.level ≤ frame.level),
      frame.id < b.arena.nodes.length := fun frame hf =>
    h frame ((List.dropWhile_sublist _).subset hf)
  rw [absorb_attach, Builder.push]
  dsimp only
  cases hstack : b.stack.dropWhile fun frame => line.level ≤ frame.level with
  | nil =>
    have hparent : ∀ parent ∈ (none : Option Nat), parent < b.arena.nodes.length := fun _ hp =>
      absurd hp (Option.not_mem_none _)
    split
    · next hopen => exact graft_attach_of_opens hopen hparent later
    · next hopen => exact graft_attach_of_not hopen hparent later
  | cons frame stack =>
    have hlevel : frame.level < line.level := by
      have hhead := List.head?_dropWhile_not (fun frame : Frame => line.level ≤ frame.level) b.stack
      rw [hstack] at hhead
      simpa using hhead
    have hparent : ∀ parent ∈ some frame.id, parent < b.arena.nodes.length := by
      rintro parent ⟨⟩
      exact hkept frame (by rw [hstack]; exact List.mem_cons_self)
    obtain ⟨htake, hdrop⟩ := cut_attach hlevel later
    obtain ⟨hinside, hbetween, houtside⟩ := cut_deeper hlevel later
    rw [absorb, htake, hdrop]
    split
    · next hopen =>
      rw [graft_attach_of_opens hopen hparent, hinside, hbetween, ← houtside]
      rfl
    · next hopen =>
      rw [graft_attach_of_not hopen hparent]
      rfl

/-- From any state on, the lines to come bring in their trees. -/
theorem foldl_push {b : Builder} (h : b.InBounds) (lines : List Line) :
    (lines.foldl Builder.push b).arena = b.arena.absorb b.stack (Forest.ofLines lines) := by
  induction lines generalizing b with
  | nil => exact (absorb_nil b.arena b.stack).symm
  | cons line lines ih =>
    have hcons : Forest.ofLines (line :: lines) = attach line (Forest.ofLines lines) := rfl
    rw [List.foldl_cons, ih (h.push line), hcons, absorb_push h]

/-- Only the lines that say something count. -/
theorem foldl_pushLine (b : Builder) (raws : List (List Char)) :
    raws.foldl Builder.pushLine b = (raws.filterMap Line.ofText?).foldl Builder.push b := by
  induction raws generalizing b with
  | nil => rfl
  | cons raw raws ih =>
    rw [List.foldl_cons, ih, Builder.pushLine, List.filterMap_cons]
    cases Line.ofText? raw <;> rfl

end Builder

/-- The arena of a template is that of its trees, numbered in the order of a walk through them. -/
theorem parse_eq_ofTrees (source : List Char) : parse source = ofTrees (Forest.parse source) := by
  have hstart : Builder.start.InBounds := fun _ hf => absurd hf List.not_mem_nil
  rw [parse, Builder.foldl_pushLine, Builder.foldl_push hstart]
  rfl

end Arena

end Stencil
