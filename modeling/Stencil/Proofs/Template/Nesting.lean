import Stencil.Proofs.Template.Numbering

/-!
Indentation as nesting.

Which line a line belongs to is a matter of the levels alone: of the lines before it that open a
block and that it and all lines in between lie deeper than, the last one is its parent. The builder
of the arena gives every line exactly this parent, number by number.

That is shown of the trees of the lines, whose numbers are those of the builder
(`Arena.parse_eq_ofTrees`). The invariant is `Numbered`, which says it of any list of lines and any
first number. It is carried from the lines after a line to the list with that line in front, where
the trees that move under the new line are those of the leading deeper lines (`takeWhile_ofLines`).
-/

namespace Stencil

/-! ## The parent of a line -/

/-- Line `j` opens a block, and line `k` and all lines between the two lie deeper than it. -/
def Encloses (lines : List Line) (j k : Nat) : Prop :=
  ∃ a b, lines[j]? = some a ∧ lines[k]? = some b ∧ j < k ∧ a.content.opensBlock = true ∧
    a.level < b.level ∧ ∀ m l, j < m → m < k → lines[m]? = some l → a.level < l.level

/-- The last line that encloses line `k`. -/
def IsParent (lines : List Line) (j k : Nat) : Prop :=
  Encloses lines j k ∧ ∀ i, Encloses lines i k → i ≤ j

/-- No line encloses line `k`. -/
def IsRoot (lines : List Line) (k : Nat) : Prop := k < lines.length ∧ ∀ j, ¬ Encloses lines j k

theorem not_encloses_zero (lines : List Line) (j : Nat) : ¬ Encloses lines j 0 := by
  rintro ⟨_, _, _, _, hlt, _⟩
  omega

theorem encloses_cons_succ (l : Line) (lines : List Line) (j k : Nat) :
    Encloses (l :: lines) (j + 1) (k + 1) ↔ Encloses lines j k := by
  constructor
  · rintro ⟨a, b, ha, hb, hlt, hopen, hlevel, hbetween⟩
    refine ⟨a, b, by simpa using ha, by simpa using hb, by omega, hopen, hlevel, ?_⟩
    intro m x hjm hmk hx
    exact hbetween (m + 1) x (by omega) (by omega) (by simpa using hx)
  · rintro ⟨a, b, ha, hb, hlt, hopen, hlevel, hbetween⟩
    refine ⟨a, b, by simpa using ha, by simpa using hb, by omega, hopen, hlevel, ?_⟩
    intro m x hjm hmk hx
    cases m with
    | zero => omega
    | succ m => exact hbetween m x (by omega) (by omega) (by simpa using hx)

/-- A line at the front encloses the leading lines that lie deeper. -/
theorem encloses_cons_zero (l : Line) (lines : List Line) (k : Nat) :
    Encloses (l :: lines) 0 (k + 1) ↔ l.content.opensBlock = true ∧ k < lines.length ∧
      ∀ m x, m ≤ k → lines[m]? = some x → l.level < x.level := by
  constructor
  · rintro ⟨a, b, ha, hb, _, hopen, hlevel, hbetween⟩
    cases ha
    have hb' : lines[k]? = some b := by simpa using hb
    refine ⟨hopen, (List.getElem?_eq_some_iff.mp hb').1, ?_⟩
    intro m x hmk hx
    rcases Nat.lt_or_eq_of_le hmk with hlt | rfl
    · exact hbetween (m + 1) x (by omega) (by omega) (by simpa using hx)
    · rw [hb'] at hx
      cases hx
      exact hlevel
  · rintro ⟨hopen, hk, hdeeper⟩
    have hb : lines[k]? = some lines[k] := List.getElem?_eq_getElem hk
    refine ⟨l, lines[k], rfl, by simp, by omega, hopen, hdeeper k _ (Nat.le_refl k) hb, ?_⟩
    intro m x hm hmk hx
    cases m with
    | zero => omega
    | succ m => exact hdeeper m x (by omega) (by simpa using hx)

/-- Whether a line is enclosed depends on the lines up to it only. -/
theorem encloses_append (lines later : List Line) (j : Nat) {k : Nat} (hk : k < lines.length) :
    Encloses (lines ++ later) j k ↔ Encloses lines j k := by
  have hget : ∀ m, m ≤ k → (lines ++ later)[m]? = lines[m]? := fun m hm =>
    List.getElem?_append_left (by omega)
  constructor
  · rintro ⟨a, b, ha, hb, hlt, hopen, hlevel, hbetween⟩
    refine ⟨a, b, by rw [← hget j (by omega)]; exact ha, by rw [← hget k (by omega)]; exact hb,
      hlt, hopen, hlevel, ?_⟩
    intro m x hjm hmk hx
    exact hbetween m x hjm hmk (by rw [hget m (by omega)]; exact hx)
  · rintro ⟨a, b, ha, hb, hlt, hopen, hlevel, hbetween⟩
    refine ⟨a, b, by rw [hget j (by omega)]; exact ha, by rw [hget k (by omega)]; exact hb,
      hlt, hopen, hlevel, ?_⟩
    intro m x hjm hmk hx
    exact hbetween m x hjm hmk (by rw [← hget m (by omega)]; exact hx)

theorem isRoot_cons_zero (l : Line) (lines : List Line) : IsRoot (l :: lines) 0 :=
  ⟨by simp, not_encloses_zero _⟩

theorem isRoot_cons_succ (l : Line) (lines : List Line) (k : Nat) :
    IsRoot (l :: lines) (k + 1) ↔ IsRoot lines k ∧ ¬ Encloses (l :: lines) 0 (k + 1) := by
  constructor
  · rintro ⟨hk, hroot⟩
    refine ⟨⟨by simpa using hk, fun j hj => ?_⟩, hroot 0⟩
    exact hroot (j + 1) ((encloses_cons_succ l lines j k).mpr hj)
  · rintro ⟨⟨hk, hroot⟩, hzero⟩
    refine ⟨by simpa using hk, fun j hj => ?_⟩
    cases j with
    | zero => exact hzero hj
    | succ j => exact hroot j ((encloses_cons_succ l lines j k).mp hj)

theorem isParent_cons_succ (l : Line) (lines : List Line) (j k : Nat) :
    IsParent (l :: lines) (j + 1) (k + 1) ↔ IsParent lines j k := by
  constructor
  · rintro ⟨hj, hlast⟩
    refine ⟨(encloses_cons_succ l lines j k).mp hj, fun i hi => ?_⟩
    have := hlast (i + 1) ((encloses_cons_succ l lines i k).mpr hi)
    omega
  · rintro ⟨hj, hlast⟩
    refine ⟨(encloses_cons_succ l lines j k).mpr hj, fun i hi => ?_⟩
    cases i with
    | zero => omega
    | succ i =>
      have := hlast i ((encloses_cons_succ l lines i k).mp hi)
      omega

theorem isParent_cons_zero (l : Line) (lines : List Line) (k : Nat) :
    IsParent (l :: lines) 0 (k + 1) ↔ IsRoot lines k ∧ Encloses (l :: lines) 0 (k + 1) := by
  constructor
  · rintro ⟨hzero, hlast⟩
    refine ⟨⟨((encloses_cons_zero l lines k).mp hzero).2.1, fun j hj => ?_⟩, hzero⟩
    have := hlast (j + 1) ((encloses_cons_succ l lines j k).mpr hj)
    omega
  · rintro ⟨⟨_, hroot⟩, hzero⟩
    refine ⟨hzero, fun i hi => ?_⟩
    cases i with
    | zero => omega
    | succ i => exact absurd ((encloses_cons_succ l lines i k).mp hi) (hroot i)

/-! ## The lines of a forest -/

/-- The lines of a forest from the first to the last. -/
def Forest.lines : List Node → List Line
  | [] => []
  | .mk level content children :: rest => ⟨level, content⟩ :: (lines children ++ lines rest)

namespace Forest

theorem lines_append (a b : List Node) : lines (a ++ b) = lines a ++ lines b := by
  induction a with
  | nil => rw [lines, List.nil_append, List.nil_append]
  | cons n a ih =>
    obtain ⟨level, content, children⟩ := n
    simp only [List.cons_append, lines, ih, List.append_assoc]

theorem lines_attach (line : Line) (later : Forest) :
    lines (attach line later) = line :: lines later := by
  have hsplit := List.takeWhile_append_dropWhile (p := fun n : Node => line.level < n.level)
    (l := later)
  unfold attach
  split
  · rw [lines, ← lines_append, hsplit]
  · rw [lines, lines, List.nil_append]

/-- A forest made of lines holds them all in their order. -/
theorem lines_ofLines (ls : List Line) : lines (ofLines ls) = ls := by
  induction ls with
  | nil =>
    show lines [] = []
    rw [lines]
  | cons l ls ih =>
    have hcons : ofLines (l :: ls) = attach l (ofLines ls) := rfl
    rw [hcons, lines_attach, ih]

end Forest

/-! ## The leading deeper lines -/

private theorem lt_length_takeWhile (p : Line → Bool) (lines : List Line) (k : Nat) :
    k < (lines.takeWhile p).length ↔
      k < lines.length ∧ ∀ m x, m ≤ k → lines[m]? = some x → p x = true := by
  induction lines generalizing k with
  | nil => simp
  | cons l lines ih =>
    cases hl : p l with
    | false =>
      rw [List.takeWhile_cons_of_neg (by simp [hl])]
      constructor
      · intro h
        simp at h
      · rintro ⟨_, hall⟩
        have := hall 0 l (Nat.zero_le k) rfl
        simp [hl] at this
    | true =>
      rw [List.takeWhile_cons_of_pos hl, List.length_cons, List.length_cons]
      cases k with
      | zero =>
        refine ⟨fun _ => ⟨by omega, ?_⟩, fun _ => by omega⟩
        intro m x hm hx
        obtain rfl : m = 0 := by omega
        cases hx
        exact hl
      | succ k =>
        rw [Nat.succ_lt_succ_iff, Nat.succ_lt_succ_iff, ih]
        refine and_congr_right fun _ => ⟨fun hall m x hm hx => ?_, fun hall m x hm hx => ?_⟩
        · cases m with
          | zero =>
            cases hx
            exact hl
          | succ m => exact hall m x (by omega) (by simpa using hx)
        · exact hall (m + 1) x (by omega) (by simpa using hx)

/-- The root lines among the leading lines below `limit` are the root lines that no line up to
them keeps from being there. -/
theorem isRoot_takeWhile (limit : Nat) (lines : List Line) (k : Nat) :
    IsRoot (lines.takeWhile fun l => limit < l.level) k ↔
      IsRoot lines k ∧ ∀ m x, m ≤ k → lines[m]? = some x → limit < x.level := by
  have hsplit := List.takeWhile_append_dropWhile (p := fun l : Line => decide (limit < l.level))
    (l := lines)
  have hlen := lt_length_takeWhile (fun l => decide (limit < l.level)) lines k
  simp only [decide_eq_true_eq] at hlen
  constructor
  · rintro ⟨hk, hroot⟩
    refine ⟨⟨(hlen.mp hk).1, fun j hj => hroot j ?_⟩, (hlen.mp hk).2⟩
    rw [← hsplit] at hj
    exact (encloses_append _ _ j hk).mp hj
  · rintro ⟨⟨hk, hroot⟩, hdeeper⟩
    have hk' := hlen.mpr ⟨hk, hdeeper⟩
    refine ⟨hk', fun j hj => hroot j ?_⟩
    rw [← hsplit]
    exact (encloses_append _ _ j hk').mpr hj

/-- The leading trees below `limit` are those of the leading lines below it. -/
theorem takeWhile_ofLines (limit : Nat) (lines : List Line) :
    (Forest.ofLines lines).takeWhile (fun n => limit < n.level) =
      Forest.ofLines (lines.takeWhile fun l => limit < l.level) := by
  induction lines with
  | nil => rfl
  | cons l lines ih =>
    have hcons : Forest.ofLines (l :: lines) = attach l (Forest.ofLines lines) := rfl
    by_cases hl : limit < l.level
    · rw [hcons, (cut_attach hl _).1, ih, List.takeWhile_cons_of_pos (by simpa using hl)]
      rfl
    · rw [hcons, (cut_attach_of_not hl _).1, List.takeWhile_cons_of_neg (by simpa using hl)]
      rfl

/-! ## Numbering -/

namespace Arena

def Entry.line (e : Entry) : Line := ⟨e.level, e.content⟩

theorem ofForest_append (id : Nat) (a b : List Node) :
    ofForest id (a ++ b) =
      ((ofForest id a).1 ++ (ofForest (id + (ofForest id a).2.length) b).1,
        (ofForest id a).2 ++ (ofForest (id + (ofForest id a).2.length) b).2) := by
  induction a generalizing id with
  | nil => rfl
  | cons n a ih => simp only [List.cons_append, ofForest, ih, List.length_append,
      List.append_assoc, Nat.add_assoc]

theorem ofForest_attach_of_opens {line : Line} (h : line.content.opensBlock = true) (id : Nat)
    (later : Forest) :
    ∃ inside outside, ofForest (id + 1) later = (inside ++ outside, (ofForest (id + 1) later).2) ∧
      inside = (ofForest (id + 1) (later.takeWhile fun n => line.level < n.level)).1 ∧
      ofForest id (attach line later) =
        (id :: outside, ⟨line.level, line.content, inside⟩ :: (ofForest (id + 1) later).2) := by
  have hsplit := List.takeWhile_append_dropWhile (p := fun n : Node => line.level < n.level)
    (l := later)
  have happend := ofForest_append (id + 1) (later.takeWhile fun n => line.level < n.level)
    (later.dropWhile fun n => line.level < n.level)
  rw [hsplit] at happend
  refine ⟨_, _, by rw [happend], rfl, ?_⟩
  rw [attach, if_pos h, happend, ofForest_cons]

theorem ofForest_attach_of_not {line : Line} (h : ¬ line.content.opensBlock = true) (id : Nat)
    (later : Forest) :
    ofForest id (attach line later) =
      (id :: (ofForest (id + 1) later).1,
        ⟨line.level, line.content, []⟩ :: (ofForest (id + 1) later).2) := by
  rw [attach, if_neg h, ofForest_cons_leaf]

/-- The roots and entries that lines make when the first of them has the number `id`. -/
structure Numbered (id : Nat) (lines : List Line) (roots : List Nat) (entries : List Entry) :
    Prop where
  lines_eq : entries.map Entry.line = lines
  roots_sorted : roots.Pairwise (· < ·)
  mem_roots : ∀ k, k ∈ roots ↔ ∃ i, k = id + i ∧ IsRoot lines i
  children_sorted : ∀ (j : Nat) (e : Entry), entries[j]? = some e → e.children.Pairwise (· < ·)
  mem_children : ∀ (j : Nat) (e : Entry), entries[j]? = some e →
    ∀ k, k ∈ e.children ↔ ∃ i, k = id + i ∧ IsParent lines j i

/-- A line in front takes those roots for its children that it encloses. -/
theorem Numbered.cons {id : Nat} {l : Line} {lines : List Line} {inside outside : List Nat}
    {entries : List Entry} (hn : Numbered (id + 1) lines (inside ++ outside) entries)
    (hin : ∀ i, id + 1 + i ∈ inside ↔ IsRoot lines i ∧ Encloses (l :: lines) 0 (i + 1)) :
    Numbered id (l :: lines) (id :: outside) (⟨l.level, l.content, inside⟩ :: entries) := by
  obtain ⟨hinside, houtside, hbefore⟩ := List.pairwise_append.mp hn.roots_sorted
  have hroot : ∀ k, k ∈ inside ++ outside → ∃ i, k = id + 1 + i ∧ IsRoot lines i :=
    fun k => (hn.mem_roots k).mp
  constructor
  case lines_eq => rw [List.map_cons, hn.lines_eq]; rfl
  case roots_sorted =>
    refine List.pairwise_cons.mpr ⟨fun k hk => ?_, houtside⟩
    obtain ⟨i, rfl, _⟩ := hroot k (List.mem_append_right _ hk)
    omega
  case mem_roots =>
    intro k
    rw [List.mem_cons]
    constructor
    · rintro (rfl | hk)
      · exact ⟨0, rfl, isRoot_cons_zero l lines⟩
      · obtain ⟨i, rfl, hi⟩ := hroot k (List.mem_append_right _ hk)
        refine ⟨i + 1, by omega, (isRoot_cons_succ l lines i).mpr ⟨hi, fun henc => ?_⟩⟩
        -- an enclosed root would be on both sides of the cut
        exact Nat.lt_irrefl _ (hbefore _ ((hin i).mpr ⟨hi, henc⟩) _ hk)
    · rintro ⟨i, rfl, hi⟩
      cases i with
      | zero => exact Or.inl rfl
      | succ i =>
        obtain ⟨hi, henc⟩ := (isRoot_cons_succ l lines i).mp hi
        have hmem := (hn.mem_roots (id + 1 + i)).mpr ⟨i, rfl, hi⟩
        rcases List.mem_append.mp hmem with hk | hk
        · exact absurd ((hin i).mp hk).2 henc
        · exact Or.inr (by rwa [Nat.add_assoc, Nat.add_comm 1] at hk)
  case children_sorted =>
    intro j e he
    cases j with
    | zero =>
      cases he
      exact hinside
    | succ j => exact hn.children_sorted j e (by simpa using he)
  case mem_children =>
    intro j e he k
    cases j with
    | zero =>
      cases he
      constructor
      · intro hk
        obtain ⟨i, rfl, hi⟩ := hroot k (List.mem_append_left _ hk)
        exact ⟨i + 1, by omega, (isParent_cons_zero l lines i).mpr ((hin i).mp hk)⟩
      · rintro ⟨i, rfl, hi⟩
        cases i with
        | zero => exact absurd hi.1 (not_encloses_zero _ _)
        | succ i =>
          have := (hin i).mpr ((isParent_cons_zero l lines i).mp hi)
          rwa [Nat.add_assoc, Nat.add_comm 1] at this
    | succ j =>
      rw [hn.mem_children j e (by simpa using he)]
      constructor
      · rintro ⟨i, rfl, hi⟩
        exact ⟨i + 1, by omega, (isParent_cons_succ l lines j i).mpr hi⟩
      · rintro ⟨i, rfl, hi⟩
        cases i with
        | zero => exact absurd hi.1 (not_encloses_zero _ _)
        | succ i => exact ⟨i, by omega, (isParent_cons_succ l lines j i).mp hi⟩

theorem numbered_ofLines (lines : List Line) (id : Nat) :
    Numbered id lines (ofForest id (Forest.ofLines lines)).1
      (ofForest id (Forest.ofLines lines)).2 := by
  induction hlen : lines.length using Nat.strongRecOn generalizing lines id with
  | ind n ih =>
    cases lines with
    | nil =>
      constructor
      case lines_eq => rfl
      case roots_sorted => exact List.Pairwise.nil
      case mem_roots =>
        intro k
        refine ⟨fun hk => absurd hk List.not_mem_nil, ?_⟩
        rintro ⟨i, _, hi, _⟩
        exact absurd hi (Nat.not_lt_zero i)
      case children_sorted =>
        intro j e he
        cases he
      case mem_children =>
        intro j e he
        cases he
    | cons l lines =>
      rw [List.length_cons] at hlen
      have hlater := ih lines.length (by omega) lines (id + 1) rfl
      have hcons : Forest.ofLines (l :: lines) = attach l (Forest.ofLines lines) := rfl
      rw [hcons]
      by_cases hopen : l.content.opensBlock = true
      · obtain ⟨inside, outside, hroots, hinside, heq⟩ :=
          ofForest_attach_of_opens hopen id (Forest.ofLines lines)
        rw [heq]
        rw [hroots] at hlater
        refine hlater.cons fun i => ?_
        -- the new children are the roots of the leading deeper lines, a shorter list
        have hfewer := (lines.takeWhile_sublist fun x => decide (l.level < x.level)).length_le
        have hnested := ih _ (by omega) (lines.takeWhile fun x => l.level < x.level) (id + 1) rfl
        rw [hinside, takeWhile_ofLines, hnested.mem_roots, encloses_cons_zero]
        constructor
        · rintro ⟨i', hi', hroot⟩
          obtain rfl : i' = i := by omega
          obtain ⟨hroot, hdeeper⟩ := (isRoot_takeWhile l.level lines i').mp hroot
          exact ⟨hroot, hopen, hroot.1, hdeeper⟩
        · rintro ⟨hroot, _, _, hdeeper⟩
          exact ⟨i, rfl, (isRoot_takeWhile l.level lines i).mpr ⟨hroot, hdeeper⟩⟩
      · rw [ofForest_attach_of_not hopen]
        have hlater' : Numbered (id + 1) lines ([] ++ (ofForest (id + 1) (Forest.ofLines lines)).1)
            (ofForest (id + 1) (Forest.ofLines lines)).2 := hlater
        refine hlater'.cons fun i => ?_
        rw [encloses_cons_zero]
        simp [hopen]

end Arena

/-! ## The outline of a template -/

/-- The lines of a source that say something: they are not blank and are classified. -/
def keptLines (source : List Char) : List (List Char) :=
  (splitLines source).filter fun raw => !(trim raw).isEmpty && (classify (trim raw)).isSome

/-- An arena with one node for each of the lines, nested as their indentation says. -/
structure Outline (raws : List (List Char)) (a : Arena) : Prop where
  length : a.nodes.length = raws.length
  node : ∀ (k : Nat) (raw : List Char) (e : Arena.Entry), raws[k]? = some raw →
    a.nodes[k]? = some e →
      classify (trim raw) = some e.content ∧ e.level = (raw.takeWhile (· == ' ')).length / 2
  roots_sorted : a.roots.Pairwise (· < ·)
  mem_roots : ∀ k, k ∈ a.roots ↔ IsRoot (a.nodes.map Arena.Entry.line) k
  children_sorted : ∀ (j : Nat) (e : Arena.Entry), a.nodes[j]? = some e →
    e.children.Pairwise (· < ·)
  mem_children : ∀ (j : Nat) (e : Arena.Entry), a.nodes[j]? = some e →
    ∀ k, k ∈ e.children ↔ IsParent (a.nodes.map Arena.Entry.line) j k

theorem Line.ofText?_eq (raw : List Char) :
    Line.ofText? raw = if (trim raw).isEmpty then none
      else (classify (trim raw)).map fun content => ⟨levelOf raw, content⟩ := by
  unfold Line.ofText?
  cases trim raw with
  | nil => rfl
  | cons c cs => rfl

/-- What stands in the forest of a source was read off one of its lines. -/
theorem exists_raw_of_mem_parse {source : List Char} {line : Line}
    (h : line ∈ Forest.lines (Forest.parse source)) :
    ∃ raw ∈ splitLines source, classify (trim raw) = some line.content := by
  rw [Forest.parse, Forest.lines_ofLines, linesOf, List.mem_filterMap] at h
  obtain ⟨raw, hraw, hline⟩ := h
  refine ⟨raw, hraw, ?_⟩
  rw [Line.ofText?_eq] at hline
  split at hline
  · cases hline
  · obtain ⟨content, hclass, rfl⟩ := Option.map_eq_some_iff.mp hline
    exact hclass

/-- The lines of a source are what its kept lines say, one by one. -/
theorem map_ofText?_keptLines (source : List Char) :
    (keptLines source).map Line.ofText? = (linesOf source).map some := by
  unfold keptLines linesOf
  induction splitLines source with
  | nil => rfl
  | cons raw raws ih =>
    rw [List.filterMap_cons, Line.ofText?_eq]
    cases htrim : (trim raw).isEmpty with
    | true => simpa [htrim] using ih
    | false =>
      cases hclass : classify (trim raw) with
      | none => simpa [htrim, hclass] using ih
      | some content => simpa [htrim, hclass, Line.ofText?_eq] using ih

/-- **Indentation is nesting.** The arena of a template has one node for each kept line, of the
kind and level that the line spells. The children of a node are the lines whose parent it is and
the roots are the lines without one, each in the order of the lines. -/
theorem outline_parse (source : List Char) :
    Outline (keptLines source) (Arena.parse source) := by
  rw [Arena.parse_eq_ofTrees]
  have hn := Arena.numbered_ofLines (linesOf source) 0
  have hlines : (Arena.ofTrees (Forest.parse source)).nodes.map Arena.Entry.line = linesOf source :=
    hn.lines_eq
  have hkept := map_ofText?_keptLines source
  rw [← hlines] at hkept
  constructor
  case length => simpa using (congrArg List.length hkept).symm
  case node =>
    intro k raw e hraw he
    have hk := congrArg (fun lines => lines[k]?) hkept
    simp only [List.getElem?_map, hraw, he, Option.map_some, Option.some.injEq,
      Line.ofText?_eq] at hk
    split at hk
    · cases hk
    · obtain ⟨content, hclass, hline⟩ := Option.map_eq_some_iff.mp hk
      rw [Arena.Entry.line, Line.mk.injEq] at hline
      obtain ⟨hlevel, rfl⟩ := hline
      exact ⟨hclass, hlevel.symm⟩
  case roots_sorted => exact hn.roots_sorted
  case mem_roots =>
    intro k
    rw [hlines]
    refine (hn.mem_roots k).trans ⟨?_, fun hk => ⟨k, by omega, hk⟩⟩
    rintro ⟨i, rfl, hi⟩
    rwa [Nat.zero_add]
  case children_sorted => exact hn.children_sorted
  case mem_children =>
    intro j e he k
    rw [hlines]
    refine (hn.mem_children j e he k).trans ⟨?_, fun hk => ⟨k, by omega, hk⟩⟩
    rintro ⟨i, rfl, hi⟩
    rwa [Nat.zero_add]

end Stencil
