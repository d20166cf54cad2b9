import Stencil.Proofs.Expr.Integers
import Stencil.Proofs.Expr.Machine

/-!
Ranges.

From `start`, steps of one size toward `stop` stay between the two for as long as the distance
allows, and that is for as many steps as the size goes into the distance (`between_iff`). So the
elements of a range are all integers of sixty-four bits, and a machine that works them out in a
hundred and twenty-eight bits finds their number and each of them there (`Machine.rangeOf_eq`). Main
statement: `callFunction_range`.
-/

namespace Stencil.Expr

/-! ## Steps -/

/-- The direction from one integer to another. -/
def direction (start stop : Int) : Int := if stop < start then -1 else 1

theorem direction_mul (start stop k : Int) :
    direction start stop * k = if stop < start then -k else k := by
  unfold direction
  split <;> simp

/-- The number of steps of this size that stay between two integers, and one for the start. -/
def elementCount (start stop : Int) (size : Nat) : Nat := (stop - start).natAbs / size + 1

/-- Going from `start` toward `stop`, one is between the two up to their distance. -/
theorem between_iff {start stop : Int} {k : Nat} :
    (min start stop ≤ start + direction start stop * k ∧
      start + direction start stop * k ≤ max start stop) ↔ k ≤ (stop - start).natAbs := by
  rw [direction_mul]
  split <;> omega

theorem step_between_iff {start stop : Int} {size : Nat} (hsize : 0 < size) (i : Nat) :
    (min start stop ≤ start + i * (direction start stop * size) ∧
      start + i * (direction start stop * size) ≤ max start stop) ↔
      i < elementCount start stop size := by
  rw [Int.mul_left_comm, ← Int.natCast_mul, between_iff, elementCount, Nat.lt_succ_iff,
    Nat.le_div_iff_mul_le hsize]

/-! ## Elements -/

/-- Integers that all fit are converted one by one. -/
theorem exists_mapM_fit? {f : Nat → Int} {is : List Nat} (h : ∀ i ∈ is, FitsInt64 (f i)) :
    ∃ ns, is.mapM (fun i => fit? (f i)) = some ns ∧ ns.map Int64.toInt = is.map f := by
  induction is with
  | nil => exact ⟨[], rfl, rfl⟩
  | cons i is ih =>
    obtain ⟨hi, his⟩ := List.forall_mem_cons.mp h
    obtain ⟨n, hn, htoInt⟩ := exists_fit? hi
    obtain ⟨ns, hns, hmap⟩ := ih his
    refine ⟨n :: ns, ?_, by rw [List.map_cons, List.map_cons, htoInt, hmap]⟩
    rw [List.mapM_cons, hn, hns]
    rfl

theorem fits_between {start stop : Int64} {n : Int} (hlow : min start.toInt stop.toInt ≤ n)
    (hhigh : n ≤ max start.toInt stop.toInt) : FitsInt64 n := by
  have hstart := fitsInt64_toInt start
  have hstop := fitsInt64_toInt stop
  rw [FitsInt64] at hstart hstop ⊢
  omega

theorem progression_of_ne_zero {start stop step : Int} (hstep : step ≠ 0) :
    Function.progression start stop step =
      if maxRangeLength < elementCount start stop step.natAbs then
        .error (.typeFault .rangeTooLong)
      else
        match (List.range (elementCount start stop step.natAbs)).mapM fun (i : Nat) =>
          fit? (start + i * (direction start stop * step.natAbs)) with
        | some ns => .ok (.list (ns.map .int))
        | none => .error .overflow := by
  have hzero : (step.natAbs == 0) = false := by simpa using hstep
  rw [Function.progression, hzero]
  simp only [← direction_mul]
  rfl

/-- The sign of the step plays no part. -/
theorem progression_natAbs (start stop step : Int) :
    Function.progression start stop step.natAbs = Function.progression start stop step := by
  unfold Function.progression
  rw [Int.natAbs_natCast]

/-- The elements of a range: too many of them, or the integers from `start` on. -/
theorem progression_eq {start stop : Int64} {step : Int} (hstep : step ≠ 0) :
    let count := elementCount start.toInt stop.toInt step.natAbs
    let stride := direction start.toInt stop.toInt * step.natAbs
    (maxRangeLength < count → Function.progression start.toInt stop.toInt step =
      .error (.typeFault .rangeTooLong)) ∧
    (count ≤ maxRangeLength → ∃ ns : List Int64,
      Function.progression start.toInt stop.toInt step = .ok (.list (ns.map .int)) ∧
      ns.map Int64.toInt = (List.range count).map fun (i : Nat) => start.toInt + i * stride) := by
  intro count stride
  have hfits : ∀ i ∈ List.range count, FitsInt64 (start.toInt + i * stride) := by
    intro i hi
    obtain ⟨hlow, hhigh⟩ :=
      (step_between_iff (Int.natAbs_pos.mpr hstep) i).mpr (List.mem_range.mp hi)
    exact fits_between hlow hhigh
  obtain ⟨ns, hns, hmap⟩ := exists_mapM_fit? hfits
  rw [progression_of_ne_zero hstep]
  constructor
  · intro hlong
    rw [if_pos hlong]
  · intro hshort
    exact ⟨ns, by rw [if_neg (Nat.not_lt.mpr hshort), hns], hmap⟩

/-! ## A machine -/

namespace Machine

open Outcome (ofExcept checked)

/-- Between two integers of sixty-four bits, and a little beyond, everything is in range. -/
theorem wide_eq {n : Int} (hlow : -2 ^ 64 ≤ n) (hhigh : n ≤ 2 ^ 64) : wide n = .value n := by
  have hfits : -2 ^ 127 ≤ n ∧ n < 2 ^ 127 := by omega
  rw [wide, fitWide?, if_pos hfits]
  rfl

theorem natAbs_sub_lt (start stop : Int64) : (stop.toInt - start.toInt).natAbs < 2 ^ 64 := by
  have hstart := fitsInt64_toInt start
  have hstop := fitsInt64_toInt stop
  rw [FitsInt64] at hstart hstop
  omega

theorem stepCount_eq {start stop step : Int64} (hstep : 0 < step.toInt) :
    stepCount start stop step =
      .value (elementCount start.toInt stop.toInt step.toInt.natAbs) := by
  have hlt := natAbs_sub_lt start stop
  unfold stepCount elementCount
  rw [wide_eq (by omega) (by omega), Outcome.value_bind, wide_eq (by omega) (by omega),
    Outcome.value_bind]
  generalize (stop.toInt - start.toInt).natAbs = distance at hlt
  have hquotient : (distance : Int).tdiv step.toInt = (distance / step.toInt.natAbs : Nat) := by
    rw [Int.natCast_div, Int.natAbs_of_nonneg (by omega), Int.tdiv_eq_ediv_of_nonneg (by omega)]
  have hle : distance / step.toInt.natAbs ≤ distance := Nat.div_le_self _ _
  rw [divideWide, if_neg (by omega), hquotient]
  generalize distance / step.toInt.natAbs = steps at hle
  rw [wide_eq (by omega) (by omega), Outcome.value_bind, wide_eq (by omega) (by omega)]
  rfl

/-- Neither the product nor the sum leaves the hundred and twenty-eight bits. -/
theorem element_eq {start stop : Int64} {size i : Nat} (hsize : 0 < size)
    (hi : i < elementCount start.toInt stop.toInt size) :
    element start (direction start.toInt stop.toInt * size) i =
      checked .overflow
        (fit? (start.toInt + i * (direction start.toInt stop.toInt * size))) := by
  have hlt := natAbs_sub_lt start stop
  obtain ⟨hlow, hhigh⟩ := (step_between_iff hsize i).mpr hi
  have hfits := fits_between hlow hhigh
  have hstart := fitsInt64_toInt start
  rw [FitsInt64] at hfits hstart
  rw [element, wide_eq (by omega) (by omega), Outcome.value_bind, wide_eq (by omega) (by omega),
    Outcome.value_bind]

theorem elements_eq {start stop : Int64} {size : Nat} (hsize : 0 < size) {is : List Nat}
    (his : ∀ i ∈ is, i < elementCount start.toInt stop.toInt size) :
    let stride := direction start.toInt stop.toInt * size
    elements start stride is =
      checked .overflow (is.mapM fun (i : Nat) => fit? (start.toInt + i * stride)) := by
  intro stride
  induction is with
  | nil => rfl
  | cons i is ih =>
    obtain ⟨hi, his⟩ := List.forall_mem_cons.mp his
    rw [elements, element_eq hsize hi, ih his, List.mapM_cons]
    cases fit? (start.toInt + i * stride) with
    | none => rfl
    | some n =>
      cases is.mapM fun (i : Nat) => fit? (start.toInt + i * stride) with
      | none => rfl
      | some ns => rfl

theorem stride_eq {start stop step : Int64} (hstep : 0 ≤ step.toInt) :
    stride start stop step =
      .value (direction start.toInt stop.toInt * step.toInt.natAbs) := by
  have hfits := fitsInt64_toInt step
  rw [FitsInt64] at hfits
  rw [stride, direction_mul, Int.natAbs_of_nonneg hstep]
  simp only [Int64.lt_iff_toInt_lt]
  split
  · rw [wide_eq (by omega) (by omega)]
  · rfl

theorem progression_eq {start stop step : Int64} (hstep : 0 ≤ step.toInt) :
    progression start stop step =
      ofExcept (Function.progression start.toInt stop.toInt step.toInt) := by
  by_cases hzero : step = 0
  · rw [hzero]
    rfl
  · have hne : step.toInt ≠ 0 := fun h => hzero (Int64.toInt_inj.mp h)
    have hsize : 0 < step.toInt.natAbs := Int.natAbs_pos.mpr hne
    rw [progression, if_neg hzero, stepCount_eq (by omega), Outcome.value_bind,
      progression_of_ne_zero hne]
    simp only [Int.ofNat_lt]
    split
    · rfl
    · rw [stride_eq hstep, Outcome.value_bind, Int.toNat_natCast,
        elements_eq hsize fun i hi => List.mem_range.mp hi]
      split
      · next ns hns =>
        rw [hns]
        rfl
      · next hns =>
        rw [hns]
        rfl

/-! ### Arguments -/

/-- Only the least integer has a magnitude that does not fit. -/
theorem exists_magnitude {n : Int64} (h : n ≠ Int64.minValue) :
    ∃ size : Int64, fit? n.toInt.natAbs = some size ∧ size.toInt = n.toInt.natAbs := by
  have hleast : Int64.minValue.toInt = -2 ^ 63 := by decide
  have hne : n.toInt ≠ -2 ^ 63 := fun hn => h (Int64.toInt_inj.mp (hn.trans hleast.symm))
  have hfits := fitsInt64_toInt n
  refine exists_fit? ?_
  rw [FitsInt64] at hfits ⊢
  omega

theorem progression_magnitude (start stop step : Int64) :
    (do
      let size ← checked .overflow (fit? step.toInt.natAbs)
      progression start stop size) =
      ofExcept (if step == Int64.minValue then .error .overflow
        else Function.progression start.toInt stop.toInt step.toInt) := by
  by_cases hstep : step = Int64.minValue
  · rw [hstep]
    rfl
  · obtain ⟨size, hsize, htoInt⟩ := exists_magnitude hstep
    have hbeq : (step == Int64.minValue) = false := beq_eq_false_iff_ne.mpr hstep
    rw [hsize, hbeq]
    refine (progression_eq (by omega)).trans ?_
    rw [htoInt, progression_natAbs]
    rfl

theorem rangeOf_eq (name : String) (args : List Value) :
    rangeOf name args = ofExcept (Function.rangeOf name args) := by
  match args with
  | [] | [_] => rfl
  | [start, stop] =>
    have hsteps : rangeOf name [start, stop] = (do
        let a ← ofExcept (Function.integerArg name start)
        let b ← ofExcept (Function.integerArg name stop)
        progression a b 1) := rfl
    rw [hsteps, Function.rangeOf]
    cases Function.integerArg name start with
    | error e => rfl
    | ok a =>
      cases Function.integerArg name stop with
      | error e => rfl
      | ok b => exact @progression_eq a b 1 (by decide)
  | [start, stop, step] =>
    have hsteps : rangeOf name [start, stop, step] = (do
        let a ← ofExcept (Function.integerArg name start)
        let b ← ofExcept (Function.integerArg name stop)
        let size ← stepArgument name (some step)
        progression a b size) := rfl
    rw [hsteps, Function.rangeOf, stepArgument]
    cases Function.integerArg name start with
    | error e => rfl
    | ok a =>
      cases Function.integerArg name stop with
      | error e => rfl
      | ok b =>
        cases hstep : Function.integerArg name step with
        | error e => simp [hstep]
        | ok n => simpa [hstep] using progression_magnitude a b n
  | start :: stop :: step :: other :: rest =>
    have hcount : 3 < (start :: stop :: step :: other :: rest).length := by
      simp only [List.length_cons]
      omega
    have hrest : 1 < (step :: other :: rest).length := by
      simp only [List.length_cons]
      omega
    rw [rangeOf, checkCount, if_pos (.inr hcount), Function.rangeOf, if_pos hrest]
    rfl

theorem stepArgument_int {step? : Option Int64} (hleast : step?.getD 1 ≠ Int64.minValue) :
    ∃ size : Int64, stepArgument "range" (step?.map Value.int) = .value size ∧
      size.toInt = (step?.getD 1).toInt.natAbs := by
  cases step? with
  | none => exact ⟨1, rfl, by decide⟩
  | some step =>
    obtain ⟨size, hsize, htoInt⟩ := exists_magnitude hleast
    refine ⟨size, ?_, htoInt⟩
    show checked .overflow (fit? (Option.getD (some step) 1).toInt.natAbs) = .value size
    rw [hsize, Outcome.checked_some]

end Machine

/-! ## Calls -/

theorem rangeOf_int (start stop : Int64) {step? : Option Int64}
    (hleast : step?.getD 1 ≠ Int64.minValue) :
    Function.rangeOf "range" ([.int start, .int stop] ++ (step?.map Value.int).toList) =
      Function.progression start.toInt stop.toInt (step?.getD 1).toInt := by
  cases step? with
  | none => rfl
  | some step =>
    have hstep : (step == Int64.minValue) = false := beq_eq_false_iff_ne.mpr hleast
    simp [Function.rangeOf, Function.integerArg, Value.toInt64?, hstep]

/-- **A range is an exact progression.** For all integers `start` and `stop` and every step but zero
and the least integer, one if it is left out: a machine finds the size of the steps and the number
of elements without a panic, and gives what `range` gives. That is an error if the number is above
a hundred thousand, and otherwise the list of that many integers from `start` on, in steps of this
size toward `stop`. All of these are between `start` and `stop`, and the one after them is not. -/
theorem callFunction_range {start stop : Int64} {step? : Option Int64}
    (hzero : step?.getD 1 ≠ 0) (hleast : step?.getD 1 ≠ Int64.minValue) :
    let a := start.toInt
    let b := stop.toInt
    let size := (step?.getD 1).toInt.natAbs
    let count := (b - a).natAbs / size + 1
    let stride := direction a b * size
    let args := [.int start, .int stop] ++ (step?.map Value.int).toList
    let result := callFunction "range" args
    (∃ step : Int64, step.toInt = size ∧
      Machine.stepArgument "range" (step?.map Value.int) = .value step ∧
      Machine.stepCount start stop step = .value count) ∧
    Machine.callFunction "range" args = .ofExcept result ∧
    (100000 < count → result = .error (.typeFault .rangeTooLong)) ∧
    (count ≤ 100000 → ∃ ns : List Int64, result = .ok (.list (ns.map .int)) ∧
      ns.map Int64.toInt = (List.range count).map fun (i : Nat) => a + i * stride) ∧
    ∀ i : Nat, (min a b ≤ a + i * stride ∧ a + i * stride ≤ max a b) ↔ i < count := by
  intro a b size count stride args result
  have hstep : (step?.getD 1).toInt ≠ 0 := fun h => hzero (Int64.toInt_inj.mp h)
  have hsize : 0 < size := Int.natAbs_pos.mpr hstep
  have hresult : result = Function.progression a b (step?.getD 1).toInt := rangeOf_int _ _ hleast
  obtain ⟨hlong, hshort⟩ := @progression_eq start stop _ hstep
  refine ⟨?counted, Machine.rangeOf_eq _ _, ?tooLong, ?elements, step_between_iff hsize⟩
  case counted =>
    obtain ⟨step, hargument, htoInt⟩ := Machine.stepArgument_int hleast
    refine ⟨step, htoInt, hargument, ?_⟩
    rw [Machine.stepCount_eq (by omega), htoInt]
    rfl
  case tooLong => rwa [hresult]
  case elements => rwa [hresult]

/-- From the least integer to the greatest in the greatest steps, and one by one. -/
theorem callFunction_range_extremes :
    (Int64.maxValue ≠ 0 ∧ Int64.maxValue ≠ Int64.minValue) ∧
    (∃ ns : List Int64,
      callFunction "range" [.int Int64.minValue, .int Int64.maxValue, .int Int64.maxValue] =
        .ok (.list (ns.map .int)) ∧ ns.map Int64.toInt = [-2 ^ 63, -1, 2 ^ 63 - 2]) ∧
    callFunction "range" [.int Int64.minValue, .int Int64.maxValue] =
      .error (.typeFault .rangeTooLong) := by
  have hmax : Int64.maxValue ≠ 0 ∧ Int64.maxValue ≠ Int64.minValue := by decide
  have hsteps :=
    @callFunction_range Int64.minValue Int64.maxValue (some Int64.maxValue) hmax.1 hmax.2
  have hunits :=
    @callFunction_range Int64.minValue Int64.maxValue none (by decide) (by decide)
  obtain ⟨ns, hns, hmap⟩ := hsteps.2.2.2.1 (by decide)
  exact ⟨hmax, ⟨ns, hns, hmap.trans (by decide)⟩, hunits.2.2.1 (by decide)⟩

end Stencil.Expr
