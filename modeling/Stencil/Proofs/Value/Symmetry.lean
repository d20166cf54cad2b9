import Stencil.Proofs.Entries
import Stencil.Proofs.Value.Laws
import Stencil.Value.Order

/-!
Comparing two values the other way round.

The order of two values is reversed when they change places (`order?_swap`), and whether they are
loosely equal does not depend on which of them comes first (`looseEq_comm`). The second needs an
argument for maps alone: only the keys of one side are looked up in the other one. As no map has a
key twice and both have equally many, the keys that were found are all of them.
-/

namespace Stencil

/-! ## Order -/

theorem Double.order?_swap (x y : Float) : order? y x = (order? x y).map Ordering.swap := by
  unfold order?
  cases rank? x with
  | none => cases rank? y <;> rfl
  | some m =>
    cases rank? y with
    | none => rfl
    | some n => exact congrArg some Std.OrientedCmp.eq_swap

theorem Double.equal_comm (x y : Float) : equal x y = equal y x := by
  unfold equal
  cases rank? x with
  | none => cases rank? y <;> rfl
  | some m =>
    cases rank? y with
    | none => rfl
    | some n => exact Bool.beq_comm

namespace Value

theorem textOrder_swap (s t : List Char) : textOrder t s = (textOrder s t).swap := by
  induction s generalizing t with
  | nil => cases t <;> rfl
  | cons c s ih =>
    cases t with
    | nil => rfl
    | cons d t =>
      rw [textOrder, textOrder, Ordering.swap_then, ← ih t, ← Std.OrientedCmp.eq_swap]

theorem truthOrder_swap (a b : Value) : truthOrder b a = (truthOrder a b).swap := by
  rw [truthOrder, truthOrder]
  exact Std.OrientedCmp.eq_swap

/-- The order of two values that are not both of one kind with an order of its own. -/
def mixedOrder? (a b : Value) : Option Ordering :=
  if a.isNull || a.isBool || b.isNull || b.isBool then some (truthOrder a b)
  else if a.isNumber || b.isNumber then
    match a.toFloat?, b.toFloat? with
    | some x, some y => Double.order? x y
    | _, _ => none
  else none

theorem mixedOrder?_swap (a b : Value) : mixedOrder? b a = (mixedOrder? a b).map Ordering.swap := by
  have hplain : (b.isNull || b.isBool || a.isNull || a.isBool) =
      (a.isNull || a.isBool || b.isNull || b.isBool) := by
    cases a.isNull <;> cases a.isBool <;> cases b.isNull <;> cases b.isBool <;> rfl
  unfold mixedOrder?
  rw [hplain, Bool.or_comm b.isNumber]
  split
  · rw [truthOrder_swap]
    rfl
  · split
    · cases a.toFloat? with
      | none => cases b.toFloat? <;> rfl
      | some x =>
        cases b.toFloat? with
        | none => rfl
        | some y => exact Double.order?_swap x y
    · rfl

/-- The values change places in one case as in another: the reversed order, or none. -/
theorem order?_swap (a b : Value) : b.order? a = (a.order? b).map Ordering.swap := by
  have hmixed := mixedOrder?_swap a b
  cases a with
  | int m =>
    cases b with
    | int n => exact congrArg some Std.OrientedCmp.eq_swap
    | _ => exact hmixed
  | decimal d =>
    cases b with
    | decimal e => exact congrArg some (d.order_swap e)
    | _ => exact hmixed
  | str s =>
    cases b with
    | str t => exact congrArg some (textOrder_swap _ _)
    | _ => exact hmixed
  | date d =>
    cases b with
    | date e => exact congrArg some (d.order_swap e)
    | dateTime t => exact congrArg some (d.midnight.order_swap t)
    | _ => exact hmixed
  | dateTime t =>
    cases b with
    | date d => exact congrArg some (t.order_swap d.midnight)
    | dateTime u => exact congrArg some (t.order_swap u)
    | _ => exact hmixed
  | _ => cases b <;> exact hmixed

/-! ## Loose equality of values that are no collections of one kind -/

theorem scalarStrictEq_comm (a b : Value) : scalarStrictEq a b = scalarStrictEq b a := by
  cases a with
  | bool x => cases b with
    | bool y => exact Bool.beq_comm
    | _ => rfl
  | int m => cases b with
    | int n => exact Bool.beq_comm
    | _ => rfl
  | float x => cases b with
    | float y => exact Double.equal_comm x y
    | _ => rfl
  | str s => cases b with
    | str t => exact Bool.beq_comm
    | _ => rfl
  | decimal d => cases b with
    | decimal e => exact d.equal_comm e
    | _ => rfl
  | date d => cases b with
    | date e => exact Bool.beq_comm
    | _ => rfl
  | dateTime t => cases b with
    | dateTime u => exact Bool.beq_comm
    | _ => rfl
  | _ => cases b <;> rfl

theorem sameFloat?_comm (a b : Value) : sameFloat? a b = sameFloat? b a := by
  unfold sameFloat?
  cases a.toFloat? with
  | none => cases b.toFloat? <;> rfl
  | some x =>
    cases b.toFloat? with
    | none => rfl
    | some y => exact congrArg some (Double.equal_comm x y)

theorem scalarLooseEq_comm (a b : Value) : scalarLooseEq a b = scalarLooseEq b a := by
  unfold scalarLooseEq
  rw [Bool.or_comm b.isNull, Bool.or_comm b.isBool]
  split
  · exact Bool.and_comm ..
  · split
    · exact Bool.beq_comm
    · have hother : (if a.isNumber || b.isNumber then (sameFloat? a b).getD false
          else scalarStrictEq a b) =
          if b.isNumber || a.isNumber then (sameFloat? b a).getD false
          else scalarStrictEq b a := by
        rw [sameFloat?_comm b a, scalarStrictEq_comm b a, Bool.or_comm b.isNumber]
      cases a with
      | str s =>
        cases b with
        | str t => exact congrArg₂ Option.getD (sameFloat?_comm _ _) Bool.beq_comm
        | _ => exact hother
      | _ => cases b <;> exact hother

/-! ## Keys -/

/-- The map stands in the value, at any depth. -/
inductive HasMap (entries : Entries Value) : Value → Prop
  | here : HasMap entries (.map entries)
  | list {items : List Value} {v : Value} (hv : v ∈ items) (h : HasMap entries v) :
      HasMap entries (.list items)
  | map {others : List (String × Value)} {name : String} {v : Value}
      (hv : (name, v) ∈ others) (h : HasMap entries v) : HasMap entries (.map others)

/-- No map in the value has a key twice. -/
def UniqueKeys (v : Value) : Prop := ∀ entries, v.HasMap entries → (Entries.names entries).Nodup

theorem uniqueKeys_of_entries? {v : Value} (h : v.entries? = none) : v.UniqueKeys := by
  rintro entries (_ | _ | _)
  · cases h
  · cases h
  · cases h

@[simp] theorem uniqueKeys_list (items : List Value) :
    (list items).UniqueKeys ↔ ∀ v ∈ items, v.UniqueKeys := by
  constructor
  · intro h v hv entries hentries
    exact h entries (.list hv hentries)
  · rintro h entries (_ | ⟨hv, hentries⟩)
    exact h _ hv entries hentries

@[simp] theorem uniqueKeys_map (entries : List (String × Value)) :
    (map entries).UniqueKeys ↔ (Entries.names entries).Nodup ∧ ∀ e ∈ entries, e.2.UniqueKeys := by
  constructor
  · intro h
    refine ⟨h entries .here, ?_⟩
    rintro ⟨name, v⟩ hv others hothers
    exact h others (.map hv hothers)
  · rintro ⟨hnodup, h⟩ others (_ | _ | ⟨hv, hothers⟩)
    · exact hnodup
    · exact h _ hv others hothers

/-! ## Loose equality of collections -/

theorem listLooseEq_comm {xs ys : List Value}
    (h : ∀ x ∈ xs, ∀ y ∈ ys, x.looseEq y = y.looseEq x) :
    listLooseEq xs ys = listLooseEq ys xs := by
  induction xs generalizing ys with
  | nil => cases ys <;> rfl
  | cons x xs ih =>
    cases ys with
    | nil => rfl
    | cons y ys =>
      rw [listLooseEq, listLooseEq, h x List.mem_cons_self y List.mem_cons_self,
        ih fun x hx y hy => h x (List.mem_cons_of_mem _ hx) y (List.mem_cons_of_mem _ hy)]

theorem mapLooseEq_iff (xs ys : List (String × Value)) :
    mapLooseEq xs ys = true ↔
      ∀ e ∈ xs, ∃ y, Entries.get? ys e.1 = some y ∧ e.2.looseEq y = true := by
  induction xs with
  | nil => simp [mapLooseEq]
  | cons e xs ih =>
    obtain ⟨k, x⟩ := e
    rw [mapLooseEq, Bool.and_eq_true, ih, List.forall_mem_cons]
    refine and_congr_left fun _ => ?_
    cases hy : Entries.get? ys k with
    | none => simp
    | some y => simp

/-- What was found for each of the keys on one side was found for all keys on the other side. -/
theorem mapLooseEq_of_swap {xs ys : List (String × Value)} (hx : (Entries.names xs).Nodup)
    (hy : (Entries.names ys).Nodup) (hlength : xs.length = ys.length)
    (h : ∀ x ∈ xs, ∀ y ∈ ys, x.2.looseEq y.2 = y.2.looseEq x.2) (heq : mapLooseEq xs ys = true) :
    mapLooseEq ys xs = true := by
  rw [mapLooseEq_iff] at heq ⊢
  have hsubset : Entries.names xs ⊆ Entries.names ys := by
    intro n hn
    obtain ⟨e, he, rfl⟩ := List.mem_map.mp hn
    obtain ⟨y, hget, _⟩ := heq e he
    exact List.mem_map.mpr ⟨(e.1, y), Entries.mem_of_get? hget, rfl⟩
  rintro ⟨n, y⟩ hmem
  have hname : n ∈ Entries.names ys := List.mem_map.mpr ⟨(n, y), hmem, rfl⟩
  obtain ⟨⟨m, x⟩, hxmem, rfl⟩ :=
    List.mem_map.mp (Entries.mem_names_of_subset hx hlength hsubset hname)
  obtain ⟨y', hget, hloose⟩ := heq _ hxmem
  have hy' : y' = y := Option.some.inj (hget.symm.trans ((Entries.get?_eq_some_iff hy).mpr hmem))
  refine ⟨x, (Entries.get?_eq_some_iff hx).mpr hxmem, ?_⟩
  rw [← h _ hxmem _ hmem, ← hy']
  exact hloose

theorem mapLooseEq_comm {xs ys : List (String × Value)} (hx : (Entries.names xs).Nodup)
    (hy : (Entries.names ys).Nodup) (hlength : xs.length = ys.length)
    (h : ∀ x ∈ xs, ∀ y ∈ ys, x.2.looseEq y.2 = y.2.looseEq x.2) :
    mapLooseEq xs ys = mapLooseEq ys xs :=
  Bool.eq_iff_iff.mpr ⟨mapLooseEq_of_swap hx hy hlength h,
    mapLooseEq_of_swap hy hx hlength.symm fun y hy x hx => (h x hx y hy).symm⟩

theorem looseEq_comm {a b : Value} (ha : a.UniqueKeys) (hb : b.UniqueKeys) :
    a.looseEq b = b.looseEq a := by
  have hscalar := scalarLooseEq_comm a b
  cases a with
  | list xs =>
    cases b with
    | list ys =>
      rw [uniqueKeys_list] at ha hb
      rw [looseEq, looseEq]
      exact listLooseEq_comm fun x hx y hy => looseEq_comm (ha x hx) (hb y hy)
    | _ => exact hscalar
  | map xs =>
    cases b with
    | map ys =>
      rw [uniqueKeys_map] at ha hb
      rw [looseEq, looseEq, Bool.beq_comm (a := xs.length)]
      cases hlength : (ys.length == xs.length) with
      | false => rfl
      | true =>
        exact mapLooseEq_comm ha.1 hb.1 (beq_iff_eq.mp hlength).symm
          fun (n, x) hx (m, y) hy => looseEq_comm (ha.2 (n, x) hx) (hb.2 (m, y) hy)
    | _ => exact hscalar
  | _ => cases b <;> exact hscalar
termination_by sizeOf a
decreasing_by
  · decreasing_tactic
  · have hsize := List.sizeOf_lt_of_mem ‹_ ∈ xs›
    rw [Prod.mk.sizeOf_spec] at hsize
    subst_vars
    simp_wf
    omega

/-- **Comparing the other way round.** Two values have an order if and only if they have one when
they change places, and then the reversed one. Where no map has a key twice, they are loosely equal
if and only if they are when they change places. -/
theorem comparison_swap (a b : Value) :
    (a.order? b = none ↔ b.order? a = none) ∧
    (∀ o, a.order? b = some o ↔ b.order? a = some o.swap) ∧
    (a.UniqueKeys → b.UniqueKeys → a.looseEq b = b.looseEq a) := by
  refine ⟨?_, ?_, looseEq_comm⟩
  · rw [order?_swap a b, Option.map_eq_none_iff]
  · intro o
    rw [order?_swap a b]
    cases a.order? b with
    | none => simp
    | some o' => cases o <;> cases o' <;> decide

/-- Maps in different orders, one inside the other. -/
theorem comparison_swap_maps :
    let a := map [("x", list [int 1, null]), ("y", map [("p", str "2"), ("q", bool true)])]
    let b := map [("y", map [("q", int 5), ("p", int 2)]), ("x", list [str "1", str ""])]
    a.UniqueKeys ∧ b.UniqueKeys ∧ a.looseEq b = b.looseEq a := by
  intro a b
  have hleaf : ∀ v : Value, v.entries? = none → v.UniqueKeys := fun _ => uniqueKeys_of_entries?
  have ha : a.UniqueKeys := by
    have hleaves : ((int 1).UniqueKeys ∧ null.UniqueKeys) ∧
        (str "2").UniqueKeys ∧ (bool true).UniqueKeys :=
      ⟨⟨hleaf _ rfl, hleaf _ rfl⟩, hleaf _ rfl, hleaf _ rfl⟩
    simpa [a, Entries.names] using hleaves
  have hb : b.UniqueKeys := by
    have hleaves : ((int 5).UniqueKeys ∧ (int 2).UniqueKeys) ∧
        (str "1").UniqueKeys ∧ (str "").UniqueKeys :=
      ⟨⟨hleaf _ rfl, hleaf _ rfl⟩, hleaf _ rfl, hleaf _ rfl⟩
    simpa [b, Entries.names] using hleaves
  exact ⟨ha, hb, (comparison_swap a b).2.2 ha hb⟩

/-- With a key twice, what one side finds need not be all that the other one has. -/
example :
    (map [("a", null), ("a", null)]).looseEq (map [("a", null), ("b", null)]) = true ∧
    (map [("a", null), ("b", null)]).looseEq (map [("a", null), ("a", null)]) = false := by
  decide

end Value

end Stencil
