import Stencil.Proofs.Value.Comparison

/-!
Values of one kind.

Integers, decimals, texts, and dates with or without a time have each an order in which any two of
them can be compared. It is transitive, since what is compared are their numbers, their characters
or the parts of their dates one after the other (`exists_orderedBy`). Equal places in the order need
not make equal values: decimals with different scales, or a date and its midnight.
-/

namespace Stencil

namespace Value

theorem textOrder_eq_compare (s t : List Char) :
    textOrder s t = compare (s.map Char.toNat) (t.map Char.toNat) := by
  induction s generalizing t with
  | nil => cases t <;> rfl
  | cons c s ih =>
    cases t with
    | nil => rfl
    | cons d t => rw [textOrder, ih, List.map_cons, List.map_cons, List.compare_cons_cons]

/-! ## Kinds -/

/-- Values that are all integers, all decimals, all texts or all dates, some with and some without a
time. -/
def OfOneKind (items : List Value) : Prop :=
  (∀ v ∈ items, ∃ n, v = int n) ∨ (∀ v ∈ items, ∃ d, v = decimal d) ∨
    (∀ v ∈ items, ∃ s, v = str s) ∨ ∀ v ∈ items, (∃ d, v = date d) ∨ ∃ t, v = dateTime t

/-- The number that an integer or a decimal is. -/
def number : Value → ℚ
  | int n => n.toInt
  | decimal d => d.value
  | _ => 0

def codePoints : Value → List Nat
  | str s => s.toList.map Char.toNat
  | _ => []

/-- The start of a date, or a date with its time. -/
def moment : Value → DateTime
  | date d => d.midnight
  | dateTime t => t
  | _ => Date.midnight ⟨0, 0, 0⟩

theorem order?_moment {v w : Value} (hv : (∃ d, v = date d) ∨ ∃ t, v = dateTime t)
    (hw : (∃ d, w = date d) ∨ ∃ t, w = dateTime t) :
    v.order? w = some (v.moment.order w.moment) := by
  obtain ⟨d, rfl⟩ | ⟨t, rfl⟩ := hv <;> obtain ⟨e, rfl⟩ | ⟨u, rfl⟩ := hw
  · exact congrArg some (Date.order_midnight d e).symm
  · rfl
  · rfl
  · rfl

/-- Any two of the values can be compared, and this is their order. -/
def OrderedBy (cmp : Value → Value → Ordering) (items : List Value) : Prop :=
  ∀ v ∈ items, ∀ w ∈ items, v.order? w = some (cmp v w)

/-- The values of a kind have a transitive order. -/
theorem exists_orderedBy {items : List Value} (h : OfOneKind items) :
    ∃ cmp, Std.TransCmp cmp ∧ OrderedBy cmp items := by
  obtain hint | hdecimal | hstr | hdate := h
  case inl =>
    refine ⟨fun v w => compare v.number w.number, transCmp_comap number, fun v hv w hw => ?_⟩
    obtain ⟨m, rfl⟩ := hint v hv
    obtain ⟨n, rfl⟩ := hint w hw
    exact (IsExact.int m).order?_of_sameType (.int n) rfl
  case inr.inl =>
    refine ⟨fun v w => compare v.number w.number, transCmp_comap number, fun v hv w hw => ?_⟩
    obtain ⟨d, rfl⟩ := hdecimal v hv
    obtain ⟨e, rfl⟩ := hdecimal w hw
    exact (IsExact.decimal d).order?_of_sameType (.decimal e) rfl
  case inr.inr.inl =>
    refine ⟨fun v w => compare v.codePoints w.codePoints, transCmp_comap codePoints,
      fun v hv w hw => ?_⟩
    obtain ⟨s, rfl⟩ := hstr v hv
    obtain ⟨t, rfl⟩ := hstr w hw
    exact congrArg some (textOrder_eq_compare _ _)
  case inr.inr.inr =>
    have := transCmp_dateTime
    exact ⟨fun v w => v.moment.order w.moment, transCmp_comap moment,
      fun v hv w hw => order?_moment (hdate v hv) (hdate w hw)⟩

end Value

end Stencil
