import Mathlib.Order.Compare
import Stencil.Calendar
import Stencil.Number.Decimal.Basic
import Stencil.Proofs.Number.Rounding

/-!
What is relied on of decimals and dates.

Decimals, dates and times of day are no part of the template language: it takes them over as they
are and only asks for their order and, of a decimal, for its float. All that is used of them is
here. Decimals are in the order of their numbers (`Decimal.order_eq_compare`), and dates, with or
without a time, in a transitive order, where a date is its midnight. So two of one kind change
places with their order reversed, and whether two decimals are equal does not depend on which of
them comes first. A decimal without a fraction has the float of the integer that it is
(`Decimal.rank?_toFloat`).
-/

namespace Stencil

theorem transCmp_comap {α β : Type} {cmp : β → β → Ordering} [Std.TransCmp cmp] (f : α → β) :
    Std.TransCmp fun a b => cmp (f a) (f b) where
  eq_swap := Std.OrientedCmp.eq_swap
  isLE_trans hab hbc := Std.TransCmp.isLE_trans hab hbc

/-! ## Decimals -/

namespace Decimal

/-- The number that a decimal is. -/
def value (d : Decimal) : ℚ := d.units / 10 ^ d.scale

theorem value_lt_iff (a b : Decimal) :
    a.value < b.value ↔ a.units * tenTo b.scale < b.units * tenTo a.scale := by
  have hpos : ∀ k : Nat, (0 : ℚ) < 10 ^ k := fun k => pow_pos (by norm_num) k
  rw [value, value, div_lt_div_iff₀ (hpos _) (hpos _), ← @Int.cast_lt ℚ]
  simp [tenTo]

theorem order_eq_compare (a b : Decimal) : a.order b = compare a.value b.value := by
  rw [order]
  rcases lt_trichotomy a.value b.value with h | h | h
  · rw [compare_lt_iff_lt.mpr h, compare_lt_iff_lt]
    exact (value_lt_iff a b).mp h
  · rw [compare_eq_iff_eq.mpr h, compare_eq_iff_eq]
    refine le_antisymm (not_lt.mp fun hlt => ?_) (not_lt.mp fun hlt => ?_)
    · exact absurd ((value_lt_iff b a).mpr hlt) h.not_gt
    · exact absurd ((value_lt_iff a b).mpr hlt) h.not_lt
  · rw [compare_gt_iff_gt.mpr h, compare_gt_iff_gt]
    exact (value_lt_iff b a).mp h

theorem order_swap (a b : Decimal) : b.order a = (a.order b).swap := by
  rw [order_eq_compare, order_eq_compare]
  exact Std.OrientedCmp.eq_swap

theorem equal_comm (a b : Decimal) : a.equal b = b.equal a := by
  rw [equal, equal, order_swap b a]
  cases b.order a <;> rfl

theorem units_of_value {d : Decimal} {n : Int} (h : d.value = n) : d.units = n * tenTo d.scale := by
  have hpos : (0 : ℚ) < 10 ^ d.scale := pow_pos (by norm_num) _
  rw [value, div_eq_iff (ne_of_gt hpos)] at h
  have hcast : ((d.units : Int) : ℚ) = ((n * tenTo d.scale : Int) : ℚ) := by simpa [tenTo] using h
  exact_mod_cast hcast

/-- The fraction of a whole number is zero, whatever its places. -/
theorem isZero_fraction {scale : Nat} (h : scale ≤ 28) :
    Double.isZero (Float.ofNat 0 / Float.ofNat (tenTo scale)) = true := by
  have hall : ∀ k ≤ 28, Double.isZero (Float.ofNat 0 / Float.ofNat (tenTo k)) = true := by
    decide +kernel
  exact hall scale h

theorem natAbs_units (d : Decimal) : d.units.natAbs = d.mantissa := by
  rw [units]
  split <;> omega

/-- A whole decimal becomes the float that the integer becomes, but for the sign of a zero. -/
theorem rank?_toFloat {d : Decimal} {n : Int} (h : d.value = n) :
    Double.rank? d.toFloat = some (signedRank n) := by
  have hunits := units_of_value h
  have hpos : 0 < tenTo d.scale := tenTo_pos _
  have hmantissa : d.mantissa = n.natAbs * tenTo d.scale := by
    rw [← natAbs_units, hunits, Int.natAbs_mul, Int.natAbs_natCast]
  have hn : n.natAbs < 2 ^ 128 := by
    have hle : n.natAbs ≤ d.mantissa := by
      rw [hmantissa]
      exact Nat.le_mul_of_pos_right _ hpos
    have hlt : d.mantissa < 2 ^ 96 := d.mantissa_lt
    omega
  rw [toFloat]
  split
  · next hscale =>
    rw [beq_iff_eq.mp hscale, tenTo_zero, Int.natCast_one, Int.mul_one] at hunits
    rw [hunits]
    exact rank?_ofInt hn
  · have hwhole : d.mantissa / tenTo d.scale = n.natAbs := by
      rw [hmantissa, Nat.mul_div_cancel _ hpos]
    have hrest : d.mantissa % tenTo d.scale = 0 := by
      rw [hmantissa, Nat.mul_mod_left]
    simp only [hwhole, hrest, isZero_fraction d.scale_le, if_true]
    rw [units] at hunits
    have hsign : ∀ m : Int, 0 < m → 0 < m * tenTo d.scale := fun m hm =>
      Int.mul_pos hm (by omega)
    split
    · next hnegative =>
      rw [if_pos hnegative] at hunits
      have hle : n ≤ 0 := by
        by_contra hgt
        have := hsign n (by omega)
        omega
      rw [rank?_neg_ofNat hn, signedRank_of_nonpos hle]
    · next hnegative =>
      rw [if_neg hnegative] at hunits
      have hle : ¬ n < 0 := by
        intro hlt
        have := hsign (-n) (by omega)
        rw [Int.neg_mul] at this
        omega
      rw [rank?_ofNat hn, signedRank, if_neg hle]

end Decimal

/-! ## Dates -/

theorem transCmp_date : Std.TransCmp Date.order :=
  inferInstanceAs (Std.TransCmp
    (compareLex (compareOn Date.year) (compareLex (compareOn Date.month) (compareOn Date.day))))

theorem transCmp_dateTime : Std.TransCmp DateTime.order :=
  have := transCmp_date
  have : Std.TransCmp fun a b : DateTime => a.date.order b.date := transCmp_comap DateTime.date
  inferInstanceAs (Std.TransCmp
    (compareLex (fun a b : DateTime => a.date.order b.date)
      (compareLex (compareOn DateTime.hour) (compareLex (compareOn DateTime.minute)
        (compareLex (compareOn DateTime.second) (compareOn DateTime.nanos))))))

theorem Date.order_swap (a b : Date) : b.order a = (a.order b).swap :=
  transCmp_date.eq_swap

theorem DateTime.order_swap (a b : DateTime) : b.order a = (a.order b).swap :=
  transCmp_dateTime.eq_swap

theorem Date.order_midnight (a b : Date) : a.midnight.order b.midnight = a.order b := by
  simp [DateTime.order, midnight]

end Stencil
