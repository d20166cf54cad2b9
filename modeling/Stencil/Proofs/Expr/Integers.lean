import Mathlib.Algebra.Ring.Int.Defs
import Stencil.Expr.Eval

/-!
Arithmetic on integers.

An operator that gives a whole number for two integers (`ArithOp.whole?`) gives that number, or an
overflow if sixty-four bits do not hold it. Nothing can be divided by zero, and only a division that
leaves a remainder gives a float. Main statement: `eval_arith_int`.

A division counts as exact when its checked remainder is zero, and there is no checked remainder
where the quotient does not fit. That is so for one pair of integers, the least one and minus one
(`remainder?_eq_none_iff`). There the quotient, which is exact and too large, becomes a float, and
the remainder, which is zero, an overflow (`eval_arith_least`).
-/

namespace Stencil

/-- The integers that sixty-four bits hold. -/
def FitsInt64 (n : Int) : Prop := -2 ^ 63 ≤ n ∧ n < 2 ^ 63

instance (n : Int) : Decidable (FitsInt64 n) := inferInstanceAs (Decidable (_ ∧ _))

theorem fitsInt64_toInt (x : Int64) : FitsInt64 x.toInt := ⟨x.le_toInt, x.toInt_lt⟩

theorem fit?_eq_none_iff {n : Int} : fit? n = none ↔ ¬ FitsInt64 n := by
  have hmin : Int64.minValue.toInt = -2 ^ 63 := by decide
  have hmax : Int64.maxValue.toInt = 2 ^ 63 - 1 := by decide
  rw [fit?, hmin, hmax, FitsInt64]
  split <;> simp <;> omega

theorem exists_fit? {n : Int} (h : FitsInt64 n) : ∃ k, fit? n = some k ∧ k.toInt = n := by
  cases hk : fit? n with
  | none => exact absurd h (fit?_eq_none_iff.mp hk)
  | some k => exact ⟨k, rfl, toInt_of_fit? hk⟩

namespace Expr

/-- The whole number that an operator gives for two integers, if it gives one. A remainder has the
sign of the integer that is divided. -/
def ArithOp.whole? (op : ArithOp) (a b : Int) : Option Int :=
  match op with
  | add => some (a + b)
  | sub => some (a - b)
  | mul => some (a * b)
  | div => if b ∣ a then some (a / b) else none
  | rem => some (a.tmod b)

/-! ## Remainders -/

/-- Halved or more, an integer fits; divided by minus one, all of them do but the least. -/
theorem fitsInt64_tdiv {a b : Int} (ha : FitsInt64 a) (hb : b ≠ 0)
    (h : ¬ (a = -2 ^ 63 ∧ b = -1)) : FitsInt64 (a.tdiv b) := by
  rw [FitsInt64] at ha ⊢
  have habs : (a.tdiv b).natAbs = a.natAbs / b.natAbs := Int.natAbs_tdiv a b
  by_cases hone : b = 1 ∨ b = -1
  · rcases hone with rfl | rfl
    · rw [Int.tdiv_one]
      exact ha
    · rw [Int.tdiv_neg, Int.tdiv_one]
      omega
  · have htwo : 2 ≤ b.natAbs := by omega
    have hhalf : a.natAbs / b.natAbs ≤ a.natAbs / 2 := Nat.div_le_div_left htwo (by decide)
    omega

theorem remainder?_eq_none_iff {x y : Int64} (hy : y ≠ 0) :
    remainder? x.toInt y.toInt = none ↔ x = Int64.minValue ∧ y = -1 := by
  have hleast : x = Int64.minValue ∧ y = -1 ↔ x.toInt = -2 ^ 63 ∧ y.toInt = -1 := by
    rw [← Int64.toInt_inj, ← Int64.toInt_inj]
    rfl
  have hy' : y.toInt ≠ 0 := fun h => hy (Int64.toInt_inj.mp h)
  rw [remainder?, Option.map_eq_none_iff, fit?_eq_none_iff, hleast]
  constructor
  · intro h
    exact Classical.byContradiction fun hnot => h (fitsInt64_tdiv (fitsInt64_toInt x) hy' hnot)
  · rintro ⟨hx, hy⟩
    rw [hx, hy]
    decide

theorem remainder?_eq_some {x y : Int64} (hy : y ≠ 0)
    (h : ¬ (x = Int64.minValue ∧ y = -1)) :
    remainder? x.toInt y.toInt = some (x.toInt.tmod y.toInt) := by
  cases hr : remainder? x.toInt y.toInt with
  | none => exact absurd ((remainder?_eq_none_iff hy).mp hr) h
  | some r =>
    obtain ⟨_, _, hr'⟩ := Option.map_eq_some_iff.mp hr
    rw [← hr']

/-! ## Results -/

theorem intResult_of_fits {n : Int} (h : FitsInt64 n) :
    ∃ k : Int64, k.toInt = n ∧ intResult n = .ok (.int k) := by
  obtain ⟨k, hk, hn⟩ := exists_fit? h
  exact ⟨k, hn, by rw [intResult, hk]⟩

theorem intResult_of_not_fits {n : Int} (h : ¬ FitsInt64 n) :
    intResult n = .error .overflow := by
  rw [intResult, fit?_eq_none_iff.mpr h]

theorem refuses_zero_iff {op : ArithOp} {y : Int64} :
    (op.divides && y.toInt == 0) = true ↔ op.divides = true ∧ y = 0 := by
  rw [Bool.and_eq_true, beq_iff_eq]
  exact and_congr_right fun _ => ⟨fun h => Int64.toInt_inj.mp h, fun h => h ▸ rfl⟩

theorem intArith_of_zero {op : ArithOp} {x y : Int64} (h : op.divides = true ∧ y = 0) :
    intArith op x y = .error .divisionByZero := by
  simp only [intArith, refuses_zero_iff.mpr h]
  rfl

theorem intArith_of_exact {op : ArithOp} {x y : Int64} {n : Int}
    (hzero : ¬ (op.divides = true ∧ y = 0))
    (hleast : ¬ (op.divides = true ∧ x = Int64.minValue ∧ y = -1))
    (h : op.whole? x.toInt y.toInt = some n) : intArith op x y = intResult n := by
  have hdivisor : ¬ (op.divides && y.toInt == 0) = true := fun h => hzero (refuses_zero_iff.mp h)
  simp only [intArith, if_neg hdivisor]
  cases op with
  | add | sub | mul =>
    cases h
    rfl
  | div =>
    have hy : y ≠ 0 := fun hy => hzero ⟨rfl, hy⟩
    rw [ArithOp.whole?, Option.ite_none_right_eq_some] at h
    obtain ⟨hdvd, heq⟩ := h
    cases heq
    rw [remainder?_eq_some hy fun hmin => hleast ⟨rfl, hmin⟩, Int.tmod_eq_zero_of_dvd hdvd,
      Int.tdiv_eq_ediv_of_dvd hdvd]
    rfl
  | rem =>
    have hy : y ≠ 0 := fun hy => hzero ⟨rfl, hy⟩
    cases h
    rw [remainder?_eq_some hy fun hmin => hleast ⟨rfl, hmin⟩]

theorem whole?_eq_none_iff {op : ArithOp} {a b : Int} :
    op.whole? a b = none ↔ op = .div ∧ ¬ b ∣ a := by
  cases op <;> simp [ArithOp.whole?]

theorem intArith_div_of_not_dvd {x y : Int64} (h : ¬ y.toInt ∣ x.toInt) (hy : y ≠ 0) :
    intArith .div x y = .ok (.float (Float.ofInt x.toInt / Float.ofInt y.toInt)) := by
  have hdivisor : ¬ (ArithOp.divides .div && y.toInt == 0) = true :=
    fun h => hy (refuses_zero_iff.mp h).2
  have hremainder : (remainder? x.toInt y.toInt == some 0) = false := by
    rw [beq_eq_false_iff_ne]
    intro hr
    obtain ⟨_, _, hzero⟩ := Option.map_eq_some_iff.mp hr
    exact h (Int.dvd_of_tmod_eq_zero hzero)
  simp only [intArith, if_neg hdivisor, hremainder]
  rfl

/-- The operands are evaluated once each, and then only the operator decides. -/
theorem eval_binary_int {c : Context} {left right : Expr} {x y : Int64}
    (hl : eval c left = .ok (.int x)) (hr : eval c right = .ok (.int y)) (op : ArithOp) :
    eval c (.binary (.arith op) left right) = asValue (intArith op x y) := by
  rw [eval, hl, hr]
  cases op <;> rfl

/-- **Checked integer arithmetic is exact.** For two operands that evaluate to integers: zero is
refused as a divisor; where there is a whole result it is the value if it fits and an overflow if it
does not; and only a division that does not come out even gives a float, the quotient of the two
as floats. Left out is the least integer divided by minus one. -/
theorem eval_arith_int {c : Context} {left right : Expr} {x y : Int64}
    (hl : eval c left = .ok (.int x)) (hr : eval c right = .ok (.int y)) {op : ArithOp}
    (hleast : ¬ (op.divides = true ∧ x = Int64.minValue ∧ y = -1)) :
    let value := eval c (.binary (.arith op) left right)
    (op.divides = true ∧ y = 0 → value = .error .divisionByZero) ∧
    (¬ (op.divides = true ∧ y = 0) →
      (∀ n, op.whole? x.toInt y.toInt = some n →
        (FitsInt64 n → ∃ k : Int64, k.toInt = n ∧ value = .ok (.int k)) ∧
        (¬ FitsInt64 n → value = .error .overflow)) ∧
      (op.whole? x.toInt y.toInt = none →
        value = .ok (.float (Float.ofInt x.toInt / Float.ofInt y.toInt)))) ∧
    ∀ z, value = .ok (.float z) → op = .div ∧ ¬ y.toInt ∣ x.toInt := by
  intro value
  have hvalue : value = asValue (intArith op x y) := eval_binary_int hl hr op
  have hzero : op.divides = true ∧ y = 0 → value = .error .divisionByZero := by
    intro hdivides
    rw [hvalue, intArith_of_zero hdivides]
    rfl
  have hexact : ¬ (op.divides = true ∧ y = 0) → ∀ n, op.whole? x.toInt y.toInt = some n →
      (FitsInt64 n → ∃ k : Int64, k.toInt = n ∧ value = .ok (.int k)) ∧
      (¬ FitsInt64 n → value = .error .overflow) := by
    intro hdivides n hn
    rw [hvalue, intArith_of_exact hdivides hleast hn]
    constructor
    · intro hfits
      obtain ⟨k, hk, hresult⟩ := intResult_of_fits hfits
      exact ⟨k, hk, by rw [hresult]; rfl⟩
    · intro hfits
      rw [intResult_of_not_fits hfits]
      rfl
  refine ⟨hzero, fun hdivides => ⟨hexact hdivides, ?_⟩, ?_⟩
  · intro hnone
    obtain ⟨rfl, hdvd⟩ := whole?_eq_none_iff.mp hnone
    rw [hvalue, intArith_div_of_not_dvd hdvd fun hy => hdivides ⟨rfl, hy⟩]
    rfl
  · intro z hz
    by_cases hdivides : op.divides = true ∧ y = 0
    · cases (hzero hdivides).symm.trans hz
    · cases hn : op.whole? x.toInt y.toInt with
      | none => exact whole?_eq_none_iff.mp hn
      | some n =>
        by_cases hfits : FitsInt64 n
        · obtain ⟨k, _, hk⟩ := (hexact hdivides n hn).1 hfits
          cases hk.symm.trans hz
        · cases ((hexact hdivides n hn).2 hfits).symm.trans hz

/-- The least integer divided by two, and subtracted from one. -/
theorem eval_arith_int_halved :
    let least : Expr := .literal (.int Int64.minValue)
    let two : Expr := .literal (.int 2)
    let one : Expr := .literal (.int 1)
    (eval .empty least = .ok (.int Int64.minValue) ∧ eval .empty two = .ok (.int 2) ∧
      eval .empty one = .ok (.int 1)) ∧
    ¬ (ArithOp.div.divides = true ∧ Int64.minValue = Int64.minValue ∧ (2 : Int64) = -1) ∧
    ¬ (ArithOp.sub.divides = true ∧ (1 : Int64) = Int64.minValue ∧ Int64.minValue = -1) ∧
    (∃ k : Int64, k.toInt = -2 ^ 62 ∧
      eval .empty (.binary (.arith .div) least two) = .ok (.int k)) ∧
    eval .empty (.binary (.arith .sub) one least) = .error .overflow := by
  intro least two one
  have hdiv : ¬ (ArithOp.div.divides = true ∧ Int64.minValue = Int64.minValue ∧
      (2 : Int64) = -1) := by decide
  have hsub : ¬ (ArithOp.sub.divides = true ∧ (1 : Int64) = Int64.minValue ∧
      Int64.minValue = -1) := by decide
  have hleast : eval .empty least = .ok (.int Int64.minValue) := rfl
  have htwo : eval .empty two = .ok (.int 2) := rfl
  have hone : eval .empty one = .ok (.int 1) := rfl
  have hhalf := ((eval_arith_int hleast htwo hdiv).2.1 (by decide)).1 (-2 ^ 62) (by decide)
  have hlarge := ((eval_arith_int hone hleast hsub).2.1 (by decide)).1 (1 - -2 ^ 63) (by decide)
  exact ⟨⟨hleast, htwo, hone⟩, hdiv, hsub, hhalf.1 (by decide), hlarge.2 (by decide)⟩

/-- The least integer divided by minus one: the quotient is whole and does not fit, but it is given
as a float, and the remainder is zero, but an overflow. -/
theorem eval_arith_least :
    let least : Expr := .literal (.int Int64.minValue)
    let minusOne : Expr := .literal (.int (-1))
    (ArithOp.div.whole? (-2 ^ 63) (-1) = some (2 ^ 63) ∧ ¬ FitsInt64 (2 ^ 63) ∧
      eval .empty (.binary (.arith .div) least minusOne) =
        .ok (.float (Float.ofInt (-2 ^ 63) / Float.ofInt (-1)))) ∧
    (ArithOp.rem.whole? (-2 ^ 63) (-1) = some 0 ∧ FitsInt64 0 ∧
      eval .empty (.binary (.arith .rem) least minusOne) = .error .overflow) := by
  intro least minusOne
  exact ⟨⟨by decide, by decide, rfl⟩, by decide, by decide, rfl⟩

end Expr

end Stencil
