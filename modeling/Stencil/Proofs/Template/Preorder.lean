import Stencil.Proofs.Template.Nesting

/-!
The arena of a template in the order of its lines.

`Walk` goes through the nodes of an arena from the roots on, each node before its children and all
of them before its next sibling, and puts the trees together again that it goes through. It need not
come to an end, but where it does it ends in one way only (`Walk.unique`).

The arena of a template numbers the nodes as the lines come and hangs each of them under an open
node. That the walk still visits the numbers one after the other, and ends in the forest that is
rendered, rests on the trees that the builder makes line by line (`parse_eq_ofTrees`): what lies
below a node comes before the next line that closes it, so the numbers of a tree are consecutive.
That is shown of a part of an arena first, of any number of nodes before and after it
(`walk_ofForest`).
-/

namespace Stencil.Arena

/-- The walk through the nodes `ids` and all nodes below them: the numbers in the order in which it
comes to them, and the trees that stand there. -/
inductive Walk (a : Arena) : List Nat → List Nat → Forest → Prop
  | nil : Walk a [] [] []
  | cons {id : Nat} {e : Entry} {ids inside later : List Nat} {children rest : Forest}
      (he : a.nodes[id]? = some e) (hchildren : Walk a e.children inside children)
      (hrest : Walk a ids later rest) :
      Walk a (id :: ids) (id :: (inside ++ later)) (.mk e.level e.content children :: rest)

theorem Walk.unique {a : Arena} {ids visited visited' : List Nat} {forest forest' : Forest}
    (h : Walk a ids visited forest) (h' : Walk a ids visited' forest') :
    visited = visited' ∧ forest = forest' := by
  induction h generalizing visited' forest' with
  | nil =>
    cases h'
    exact ⟨rfl, rfl⟩
  | cons he _ _ ih ihrest =>
    cases h' with
    | cons he' hchildren' hrest' =>
      rw [he] at he'
      cases he'
      obtain ⟨rfl, rfl⟩ := ih hchildren'
      obtain ⟨rfl, rfl⟩ := ihrest hrest'
      exact ⟨rfl, rfl⟩

/-! ## Consecutive numbers -/

/-- The entries stand in the arena, the first of them with the number `id`. -/
def Holds (a : Arena) (id : Nat) (entries : List Entry) : Prop := entries <+: a.nodes.drop id

theorem Holds.cons {a : Arena} {id : Nat} {e : Entry} {entries : List Entry}
    (h : a.Holds id (e :: entries)) : a.nodes[id]? = some e ∧ a.Holds (id + 1) entries := by
  obtain ⟨after, hafter⟩ := h
  constructor
  · have hget := congrArg (fun es => es[0]?) hafter
    simpa using hget.symm
  · refine ⟨after, ?_⟩
    have htail := congrArg List.tail hafter
    simpa using htail

theorem Holds.append {a : Arena} {id : Nat} {entries more : List Entry}
    (h : a.Holds id (entries ++ more)) :
    a.Holds id entries ∧ a.Holds (id + entries.length) more := by
  obtain ⟨after, hafter⟩ := h
  rw [List.append_assoc] at hafter
  refine ⟨⟨more ++ after, hafter⟩, after, ?_⟩
  rw [← List.drop_drop, ← hafter, List.drop_left]

/-- The walk through the trees of a forest visits their numbers one after the other. -/
theorem walk_ofForest (a : Arena) (id : Nat) : ∀ forest : List Node,
    a.Holds id (ofForest id forest).2 →
    Walk a (ofForest id forest).1 (List.range' id (ofForest id forest).2.length) forest
  | [], _ => .nil
  | .mk level content children :: rest, h => by
    rw [ofForest_cons] at h ⊢
    obtain ⟨he, h⟩ := h.cons
    obtain ⟨hinside, hlater⟩ := h.append
    have hchildren := walk_ofForest a (id + 1) children hinside
    have hrest := walk_ofForest a _ rest hlater
    have hnumbers := Walk.cons he hchildren hrest
    rwa [List.range'_append_1, ← List.range'_succ, ← List.length_append] at hnumbers

/-- Each of the numbers is that of one root or one child. -/
theorem perm_ofForest (id : Nat) : ∀ forest : List Node,
    ((ofForest id forest).1 ++ (ofForest id forest).2.flatMap Entry.children).Perm
      (List.range' id (ofForest id forest).2.length)
  | [] => List.Perm.nil
  | .mk level content children :: rest => by
    have hinside := perm_ofForest (id + 1) children
    have hlater := perm_ofForest (id + 1 + (ofForest (id + 1) children).2.length) rest
    rw [ofForest_cons]
    dsimp only
    generalize ofForest (id + 1) children = inner at hinside hlater ⊢
    generalize ofForest (id + 1 + inner.2.length) rest = later at hlater ⊢
    rw [List.flatMap_cons, List.flatMap_append, List.length_cons, List.length_append,
      List.range'_succ, ← List.range'_append_1, List.cons_append]
    refine List.Perm.cons id (List.Perm.trans ?_ (hinside.append hlater))
    -- the later roots move behind the first tree
    rw [← List.append_assoc, ← List.append_assoc, ← List.append_assoc]
    refine List.Perm.append_right _ ?_
    rw [List.append_assoc]
    exact List.perm_append_comm

/-! ## The order of a template -/

/-- Node `k` is a child of node `j`. -/
def IsChild (a : Arena) (k j : Nat) : Prop := ∃ e, a.nodes[j]? = some e ∧ k ∈ e.children

/-- The arena holds the forest with its nodes in the order of the walk, which is that of the
lines. -/
structure InPreorder (a : Arena) (lines : List Line) (forest : Forest) : Prop where
  /-- The nodes are numbered as the lines come. -/
  line_eq : a.nodes.map Entry.line = lines
  /-- Each number is in one of the lists, and once. -/
  once : (a.roots ++ a.nodes.flatMap Entry.children).Perm (List.range a.nodes.length)
  later_and_deeper : ∀ (j k : Nat) (e : Entry), a.nodes[j]? = some e → k ∈ e.children →
    j < k ∧ ∃ e', a.nodes[k]? = some e' ∧ e.level < e'.level
  /-- The walk comes to an end, in this forest and with all numbers in their order. -/
  walk : ∀ visited trees, Walk a a.roots visited trees ↔
    visited = List.range a.nodes.length ∧ trees = forest
  /-- Only directives have children, and tags that are not void and have no text. -/
  parents : ∀ e ∈ a.nodes, e.children ≠ [] →
    (∃ kind args, e.content = .directive kind args) ∨
      ∃ t, e.content = .tag t ∧ t.isVoid = false ∧ t.text = none
  /-- No way down from node to child goes on for ever. -/
  wellFounded : WellFounded a.IsChild

theorem wellFounded_isChild {a : Arena}
    (h : ∀ j k, a.IsChild k j → j < k ∧ k < a.nodes.length) : WellFounded a.IsChild := by
  refine Subrelation.wf ?_ (measure fun j => a.nodes.length - j).wf
  intro k j hchild
  obtain ⟨hlt, hlen⟩ := h j k hchild
  show a.nodes.length - k < a.nodes.length - j
  omega

theorem opensBlock_cases {content : Content} (h : content.opensBlock = true) :
    (∃ kind args, content = .directive kind args) ∨
      ∃ t, content = .tag t ∧ t.isVoid = false ∧ t.text = none := by
  cases content with
  | doctype => cases h
  | text _ => cases h
  | directive kind args => exact Or.inl ⟨kind, args, rfl⟩
  | tag t =>
    simp only [Content.opensBlock, Tag.opensBlock, Bool.and_eq_true, Bool.not_eq_true',
      Option.isNone_iff_eq_none] at h
    exact Or.inr ⟨t, rfl, h.1, h.2⟩

/-- A child lies after and below its parent, which opens a block. -/
theorem Numbered.below {id : Nat} {lines : List Line} {roots : List Nat} {entries : List Entry}
    (h : Numbered id lines roots entries) {j k : Nat} {e : Entry} (he : entries[j]? = some e)
    (hk : id + k ∈ e.children) : j < k ∧ e.content.opensBlock = true ∧
      ∃ e', entries[k]? = some e' ∧ e.level < e'.level := by
  obtain ⟨i, hi, hparent⟩ := (h.mem_children j e he (id + k)).mp hk
  obtain rfl : k = i := by omega
  obtain ⟨⟨above, below, habove, hbelow, hlt, hopen, hlevel, _⟩, _⟩ := hparent
  rw [← h.lines_eq, List.getElem?_map] at habove hbelow
  rw [he] at habove
  cases habove
  obtain ⟨e', he', rfl⟩ := Option.map_eq_some_iff.mp hbelow
  exact ⟨hlt, hopen, e', he', hlevel⟩

/-- **The arena of a template is its forest in the order of the lines.** The nodes are numbered as
their lines come. Every node is a root or the child of one node, children come after their parents
and lie deeper, only what opens a block has children, and the walk from the roots visits the nodes
by their numbers from the first to the last and ends in the forest that is rendered. -/
theorem inPreorder_parse (source : List Char) :
    InPreorder (parse source) (linesOf source) (Forest.parse source) := by
  rw [parse_eq_ofTrees]
  have hn : Numbered 0 (linesOf source) (ofTrees (Forest.parse source)).roots
      (ofTrees (Forest.parse source)).nodes := numbered_ofLines (linesOf source) 0
  have hbelow : ∀ (j k : Nat) (e : Entry), (ofTrees (Forest.parse source)).nodes[j]? = some e →
      k ∈ e.children → j < k ∧ e.content.opensBlock = true ∧
        ∃ e', (ofTrees (Forest.parse source)).nodes[k]? = some e' ∧ e.level < e'.level := by
    intro j k e he hk
    exact hn.below he (by rwa [Nat.zero_add])
  have hwalk := walk_ofForest (ofTrees (Forest.parse source)) 0 (Forest.parse source)
    (List.prefix_refl _)
  constructor
  case line_eq => exact hn.lines_eq
  case once =>
    rw [List.range_eq_range']
    exact perm_ofForest 0 (Forest.parse source)
  case later_and_deeper =>
    intro j k e he hk
    obtain ⟨hlt, _, hdeeper⟩ := hbelow j k e he hk
    exact ⟨hlt, hdeeper⟩
  case walk =>
    intro visited trees
    rw [List.range_eq_range']
    constructor
    · exact fun h => h.unique hwalk
    · rintro ⟨rfl, rfl⟩
      exact hwalk
  case parents =>
    intro e hmem hne
    obtain ⟨j, he⟩ := List.mem_iff_getElem?.mp hmem
    obtain ⟨k, hk⟩ := List.exists_mem_of_ne_nil _ hne
    exact opensBlock_cases (hbelow j k e he hk).2.1
  case wellFounded =>
    refine wellFounded_isChild ?_
    rintro j k ⟨e, he, hk⟩
    obtain ⟨hlt, _, e', he', _⟩ := hbelow j k e he hk
    exact ⟨hlt, (List.getElem?_eq_some_iff.mp he').1⟩

end Stencil.Arena
