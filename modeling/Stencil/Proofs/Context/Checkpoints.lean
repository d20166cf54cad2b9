import Stencil.Host.HostValue
import Stencil.Proofs.Entries

/-!
Checkpoints and what is done to a context after them.

A rollback decides what each name of its checkpoint stands for and leaves the others alone
(`get?_rollback`), whatever happened in between, other rollbacks included. The order of the entries
is another matter, since erasing a name and setting it again moves it to the end. It comes back if
in between the names of the checkpoint were only set: setting such a name makes no difference to the
rollback (`rollback_set`), as long as the context holds the names that it held at the checkpoint.
-/

namespace Stencil

namespace Context

/-! ## One name -/

theorem restore_set_self (c : Context) (n : String) (v : Value) (v? : Option Value) :
    (c.set n v).restore n v? = c.restore n v? := by
  cases v? with
  | none => exact congrArg Context.mk (Entries.erase_insert c.entries n v)
  | some w => exact c.set_set n v w

/-- A name that has its place can be restored before or after another one is set. -/
theorem restore_set_of_ne {c : Context} {m n : String} (h : m ≠ n) {v? : Option Value}
    (hm : v? ≠ none → c.get? m ≠ none) (v : Value) :
    (c.set n v).restore m v? = (c.restore m v?).set n v := by
  cases v? with
  | none => exact congrArg Context.mk (Entries.erase_insert_of_ne c.entries h v)
  | some w =>
    have hplace : c.entries.get? m ≠ none := hm (by simp)
    exact congrArg Context.mk (Entries.insert_comm h hplace v w)

/-! ## All names of a checkpoint -/

theorem rollback_cons (c d : Context) (n : String) (names : List String) :
    d.rollback (c.checkpoint (n :: names)) =
      (d.rollback (c.checkpoint names)).restore n (c.get? n) := rfl

theorem get?_rollback (c d : Context) (names : List String) (n : String) :
    (d.rollback (c.checkpoint names)).get? n = if n ∈ names then c.get? n else d.get? n := by
  induction names with
  | nil => rfl
  | cons m names ih =>
    rw [rollback_cons, get?_restore, ih]
    by_cases hmn : m = n
    · simp [hmn]
    · simp [hmn, Ne.symm hmn]

theorem rollback_self (c : Context) (names : List String) :
    c.rollback (c.checkpoint names) = c := by
  induction names with
  | nil => rfl
  | cons n names ih => rw [rollback_cons, ih, restore_get?]

/-- The context still has every name of the other one. -/
def HasNamesOf (d c : Context) : Prop := ∀ n, c.get? n ≠ none → d.get? n ≠ none

theorem HasNamesOf.set {c d : Context} (h : d.HasNamesOf c) (n : String) (v : Value) :
    (d.set n v).HasNamesOf c := by
  intro m hm
  rw [get?_set]
  split
  · simp
  · exact h m hm

theorem rollback_set_of_not_mem {c d : Context} (h : d.HasNamesOf c) {names : List String}
    {n : String} (hn : n ∉ names) (v : Value) :
    (d.set n v).rollback (c.checkpoint names) = (d.rollback (c.checkpoint names)).set n v := by
  induction names with
  | nil => rfl
  | cons m names ih =>
    rw [List.mem_cons, not_or] at hn
    have hplace : c.get? m ≠ none → (d.rollback (c.checkpoint names)).get? m ≠ none := by
      intro hm
      rw [get?_rollback]
      split
      · exact hm
      · exact h m hm
    rw [rollback_cons, rollback_cons, ih hn.2, restore_set_of_ne (Ne.symm hn.1) hplace]

/-- Setting a name of the checkpoint makes no difference to the rollback. -/
theorem rollback_set {c d : Context} (h : d.HasNamesOf c) {names : List String} {n : String}
    (hn : n ∈ names) (v : Value) :
    (d.set n v).rollback (c.checkpoint names) = d.rollback (c.checkpoint names) := by
  induction names with
  | nil => cases hn
  | cons m names ih =>
    rw [rollback_cons, rollback_cons]
    by_cases hmem : n ∈ names
    · rw [ih hmem]
    · obtain rfl : n = m := (List.mem_cons.mp hn).resolve_right hmem
      rw [rollback_set_of_not_mem h hmem, restore_set_self]

/-! ## What is done to a context -/

/-- Something that is done to a context. -/
inductive Change where
  | set (name : String) (v : Value)
  | insert (name : String) (h : HostValue)
  | remove (name : String)
  | merge (other : Context)
  | extend (pairs : List (String × Value))
  /-- A rollback of a checkpoint that was taken at any time, of this or of another context. -/
  | rollback (cp : Checkpoint)

def Change.apply (c : Context) : Change → Context
  | set name v => c.set name v
  | insert name h => c.set name h.toValue
  | remove name => c.erase name
  | merge other => c.merge other
  | extend pairs => c.extend pairs
  | rollback cp => c.rollback cp

def after (c : Context) (changes : List Change) : Context := changes.foldl Change.apply c

/-- The pairs that a change lays over the context, if it does nothing else. -/
def Change.pairs? : Change → Option (List (String × Value))
  | set name v => some [(name, v)]
  | insert name h => some [(name, h.toValue)]
  | merge other => some other.entries
  | extend pairs => some pairs
  | remove _ | rollback _ => none

/-- The change sets names of the list and does nothing else. -/
def Change.Sets (names : List String) (change : Change) : Prop :=
  ∃ pairs, change.pairs? = some pairs ∧ ∀ p ∈ pairs, p.1 ∈ names

theorem Change.apply_of_pairs? {change : Change} {pairs : List (String × Value)}
    (h : change.pairs? = some pairs) (c : Context) : change.apply c = c.extend pairs := by
  cases change <;> cases h <;> rfl

theorem HasNamesOf.extend {c d : Context} (h : d.HasNamesOf c) (pairs : List (String × Value)) :
    (d.extend pairs).HasNamesOf c := by
  induction pairs generalizing d with
  | nil => exact h
  | cons p pairs ih => exact ih (h.set p.1 p.2)

theorem rollback_extend {c d : Context} (h : d.HasNamesOf c) {names : List String}
    {pairs : List (String × Value)} (hpairs : ∀ p ∈ pairs, p.1 ∈ names) :
    (d.extend pairs).rollback (c.checkpoint names) = d.rollback (c.checkpoint names) := by
  induction pairs generalizing d with
  | nil => rfl
  | cons p pairs ih =>
    obtain ⟨hp, hpairs⟩ := List.forall_mem_cons.mp hpairs
    calc
      (d.extend (p :: pairs)).rollback (c.checkpoint names)
      _ = (d.set p.1 p.2).rollback (c.checkpoint names) := ih (h.set p.1 p.2) hpairs
      _ = d.rollback (c.checkpoint names) := rollback_set h hp p.2

/-- What only sets names of the checkpoint is undone, the order included. -/
theorem rollback_after_sets {c d : Context} (h : d.HasNamesOf c) {names : List String}
    {changes : List Change} (hchanges : ∀ change ∈ changes, change.Sets names) :
    (d.after changes).rollback (c.checkpoint names) = d.rollback (c.checkpoint names) := by
  induction changes generalizing d with
  | nil => rfl
  | cons change changes ih =>
    obtain ⟨⟨pairs, hpairs, hlisted⟩, hchanges⟩ := List.forall_mem_cons.mp hchanges
    have happly := change.apply_of_pairs? hpairs d
    calc
      (d.after (change :: changes)).rollback (c.checkpoint names)
      _ = ((d.extend pairs).after changes).rollback (c.checkpoint names) := by rw [← happly]; rfl
      _ = (d.extend pairs).rollback (c.checkpoint names) := ih (h.extend pairs) hchanges
      _ = d.rollback (c.checkpoint names) := rollback_extend h hlisted

/-- **A rollback is exact.** Whatever was done to a context after the checkpoint, each name of the
checkpoint stands again for what it stood for then, or for nothing if it was absent, and every other
name stands for what it stands for before the rollback. If nothing was done but set names of the
checkpoint, the context is the one it was, its order included. -/
theorem rollback_after (c : Context) (names : List String) (changes : List Change) :
    (∀ n ∈ names, ((c.after changes).rollback (c.checkpoint names)).get? n = c.get? n) ∧
    (∀ n, n ∉ names →
      ((c.after changes).rollback (c.checkpoint names)).get? n = (c.after changes).get? n) ∧
    ((∀ change ∈ changes, change.Sets names) →
      (c.after changes).rollback (c.checkpoint names) = c) := by
  refine ⟨?_, ?_, ?_⟩
  · intro n hn
    rw [get?_rollback, if_pos hn]
  · intro n hn
    rw [get?_rollback, if_neg hn]
  · intro hchanges
    rw [rollback_after_sets (fun _ h => h) hchanges, rollback_self]

theorem rollback_after_shadowing :
    let c : Context := ⟨[("item", .int 1), ("total", .int 2)]⟩
    let names := ["key", "item", "key"]
    let changes : List Change :=
      [.set "key" (.int 0), .set "item" .null, .extend [("item", .bool true), ("key", .int 1)]]
    (∀ change ∈ changes, change.Sets names) ∧
      (c.after changes).rollback (c.checkpoint names) = c := by
  intro c names changes
  have hchanges : ∀ change ∈ changes, change.Sets names := by
    simp only [changes, List.forall_mem_cons]
    exact ⟨⟨_, rfl, by decide⟩, ⟨_, rfl, by decide⟩, ⟨_, rfl, by decide⟩, nofun⟩
  exact ⟨hchanges, (rollback_after c names changes).2.2 hchanges⟩

/-- A name that was removed in between comes back behind the others. -/
example :
    let c : Context := ⟨[("item", .int 1), ("total", .int 2)]⟩
    (c.after [.remove "item"]).rollback (c.checkpoint ["item"]) =
      ⟨[("total", .int 2), ("item", .int 1)]⟩ := rfl

end Context

end Stencil
