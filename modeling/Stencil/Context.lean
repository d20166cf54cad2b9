import Stencil.Value.Order

/-!
The names a template is rendered against.

A context maps names to values in the order of insertion. A checkpoint records what some names stand
for, or that they stand for nothing; rolling back gives each of them that state again and leaves all
other names alone.
-/

namespace Stencil

structure Context where
  entries : Entries Value

namespace Context

def empty : Context := ⟨[]⟩

def ofList (pairs : List (String × Value)) : Context := ⟨Entries.ofList pairs⟩

def get? (c : Context) (name : String) : Option Value := c.entries.get? name

def contains (c : Context) (name : String) : Bool := c.entries.contains name

def set (c : Context) (name : String) (v : Value) : Context := ⟨Entries.insert name v c.entries⟩

def erase (c : Context) (name : String) : Context := ⟨c.entries.erase name⟩

def size (c : Context) : Nat := c.entries.length

/-- Lays the pairs over the context, one after the other. -/
def extend (c : Context) (pairs : List (String × Value)) : Context := ⟨c.entries.insertAll pairs⟩

def merge (c other : Context) : Context := c.extend other.entries

def toValue (c : Context) : Value := .map c.entries

/-- Equality of the bindings, in any order. -/
def equal (a b : Context) : Bool := a.toValue.strictEq b.toValue

/-- What some names stood for; `none` where a name was absent. -/
structure Checkpoint where
  saved : List (String × Option Value)

def checkpoint (c : Context) (names : List String) : Checkpoint :=
  ⟨names.map fun name => (name, c.get? name)⟩

/-- Gives a name the state that was saved for it. -/
def restore (c : Context) (name : String) : Option Value → Context
  | some v => c.set name v
  | none => c.erase name

/-- Restores the saved names, the last one first. -/
def rollback (c : Context) (cp : Checkpoint) : Context :=
  cp.saved.foldr (fun (name, v?) c => c.restore name v?) c

theorem get?_set (c : Context) (n name : String) (v : Value) :
    (c.set n v).get? name = if n = name then some v else c.get? name :=
  Entries.get?_insert c.entries n name v

theorem get?_erase (c : Context) (n name : String) :
    (c.erase n).get? name = if n = name then none else c.get? name :=
  Entries.get?_erase c.entries n name

theorem get?_restore (c : Context) (n name : String) (v? : Option Value) :
    (c.restore n v?).get? name = if n = name then v? else c.get? name := by
  cases v? with
  | none => exact get?_erase c n name
  | some v => exact get?_set c n name v

theorem set_set (c : Context) (n : String) (v w : Value) : (c.set n v).set n w = c.set n w :=
  congrArg Context.mk (Entries.insert_insert c.entries n v w)

theorem restore_get? (c : Context) (n : String) : c.restore n (c.get? n) = c := by
  cases h : c.get? n with
  | none => exact congrArg Context.mk (Entries.erase_of_get?_eq_none h)
  | some v => exact congrArg Context.mk (Entries.insert_of_get? h)

/-- Restoring a name undoes what was set for it, its place in the order included. -/
theorem restore_set (c : Context) (n : String) (v : Value) :
    (c.set n v).restore n (c.get? n) = c := by
  cases h : c.get? n with
  | none => exact congrArg Context.mk (Entries.erase_insert_of_get?_eq_none v h)
  | some w =>
    calc
      (c.set n v).set n w = c.set n w := set_set c n v w
      _ = c := congrArg Context.mk (Entries.insert_of_get? h)

end Context

end Stencil
