import Stencil.Expr.Function
import Stencil.Proofs.Number.Finite

/-!
Values whose floats are finite.

An operation on values brings in no float that is a NaN or an infinity. Arithmetic checks the floats
that it comes to, except for the quotient of two integers, which is always in range
(`finiteResult_arith`); a text is read as a finite float or as none; and what takes a value out of a
collection, or puts values into one, adds no float. Only `round` multiplies without a check, so
among the functions it alone needs a product that stays in range (`Function.finiteResult_apply`).
-/

namespace Stencil

/-! ## Values -/

namespace Value

/-- The float stands in the value, at any depth. -/
inductive Contains (x : Float) : Value → Prop
  | float : Contains x (.float x)
  | list {items : List Value} {v : Value} (hv : v ∈ items) (h : Contains x v) :
      Contains x (.list items)
  | map {entries : List (String × Value)} {name : String} {v : Value}
      (hv : (name, v) ∈ entries) (h : Contains x v) : Contains x (.map entries)

/-- No float in the value is a NaN or an infinity. -/
def AllFinite (v : Value) : Prop := ∀ x, v.Contains x → Double.isFinite x = true

@[simp] theorem allFinite_null : null.AllFinite := fun _ h => nomatch h

@[simp] theorem allFinite_bool (b : Bool) : (bool b).AllFinite := fun _ h => nomatch h

@[simp] theorem allFinite_int (n : Int64) : (int n).AllFinite := fun _ h => nomatch h

@[simp] theorem allFinite_str (s : String) : (str s).AllFinite := fun _ h => nomatch h

@[simp] theorem allFinite_decimal (d : Decimal) : (decimal d).AllFinite := fun _ h => nomatch h

@[simp] theorem allFinite_float (x : Float) :
    (float x).AllFinite ↔ Double.isFinite x = true := by
  constructor
  · intro h
    exact h x .float
  · rintro h _ ⟨⟩
    exact h

@[simp] theorem allFinite_list (items : List Value) :
    (list items).AllFinite ↔ ∀ v ∈ items, v.AllFinite := by
  constructor
  · intro h v hv x hx
    exact h x (.list hv hx)
  · rintro h x (_ | ⟨hv, hx⟩)
    exact h _ hv x hx

@[simp] theorem allFinite_map (entries : List (String × Value)) :
    (map entries).AllFinite ↔ ∀ e ∈ entries, e.2.AllFinite := by
  constructor
  · rintro h ⟨name, v⟩ hv x hx
    exact h x (.map hv hx)
  · rintro h x (_ | _ | ⟨hv, hx⟩)
    exact h _ hv x hx

theorem AllFinite.get? {v w : Value} {key : String} (h : v.AllFinite) (hw : v.get? key = some w) :
    w.AllFinite := by
  unfold Value.get? at hw
  split at hw
  · exact (allFinite_map _).mp h _ (Entries.mem_of_get? hw)
  · obtain ⟨i, _, hi⟩ := Option.bind_eq_some_iff.mp hw
    exact (allFinite_list _).mp h _ (List.mem_of_getElem? hi)
  · cases hw

/-- Neither the keys nor the elements of a collection bring in another float. -/
theorem AllFinite.entries {v : Value} (h : v.AllFinite) {e : Value × Value}
    (he : e ∈ v.entriesOrNone) : e.1.AllFinite ∧ e.2.AllFinite := by
  unfold entriesOrNone entries? at he
  split at he
  · next items =>
    obtain ⟨⟨w, i⟩, hw, rfl⟩ := List.mem_map.mp he
    exact ⟨allFinite_int _, (allFinite_list _).mp h _ (List.fst_mem_of_mem_zipIdx hw)⟩
  · next entries =>
    obtain ⟨⟨k, w⟩, hw, rfl⟩ := List.mem_map.mp he
    exact ⟨allFinite_str _, (allFinite_map _).mp h _ hw⟩
  · cases he

end Value

namespace Expr

/-! ## Operators -/

attribute [local simp] Number.toValue

/-- If there is a value, its floats are finite. -/
def FiniteResult (r : Except EvalError Value) : Prop := ∀ v, r = .ok v → v.AllFinite

@[simp] theorem finiteResult_error (e : EvalError) : FiniteResult (.error e) := nofun

@[simp] theorem finiteResult_ok (v : Value) : FiniteResult (.ok v) ↔ v.AllFinite := by
  constructor
  · intro h
    exact h v rfl
  · rintro h _ ⟨⟩
    exact h

@[simp] theorem asValue_ok (n : Number) : asValue (.ok n) = .ok n.toValue := rfl

@[simp] theorem asValue_error (e : EvalError) : asValue (.error e) = .error e := rfl

/-- A text spells a finite number or none. -/
theorem toNumber_allFinite {v : Value} {n : Number} (hv : v.AllFinite) (h : toNumber v = .ok n) :
    n.toValue.AllFinite := by
  unfold toNumber at h
  split at h
  · cases h
    exact hv
  · cases h
    exact hv
  · cases h
    exact hv
  · cases h
    simp
  · cases h
    simp
  · split at h
    · cases h
      simp
    · split at h
      · next x hx =>
        cases h
        exact (Value.allFinite_float x).mpr (Option.filter_eq_some_iff.mp hx).2
      · cases h
  · cases h

theorem finiteResult_toNumber {v : Value} (hv : v.AllFinite) :
    FiniteResult (asValue (toNumber v)) := by
  cases h : toNumber v with
  | error e => simp
  | ok n => simpa using toNumber_allFinite hv h

theorem finiteResult_intResult (n : Int) : FiniteResult (asValue (intResult n)) := by
  unfold intResult
  split <;> simp

theorem finiteResult_floatResult (x : Float) : FiniteResult (asValue (floatResult x)) := by
  unfold floatResult
  split
  · next h => simpa using h
  · simp

theorem finiteResult_decimalResult (d? : Option Decimal) :
    FiniteResult (asValue (decimalResult d?)) := by
  cases d? <;> simp [decimalResult]

/-- The quotient of two integers is the one float that is not checked. -/
theorem finiteResult_intArith (op : ArithOp) (x y : Int64) :
    FiniteResult (asValue (intArith op x y)) := by
  have hbound : ∀ n : Int64, n.toInt.natAbs < 2 ^ 128 := fun n =>
    (Decimal.natAbs_toInt_lt n).trans (Nat.pow_lt_pow_right (by decide) (by decide))
  unfold intArith
  dsimp only
  split
  · simp
  · next hzero =>
    split
    · exact finiteResult_intResult _
    · exact finiteResult_intResult _
    · exact finiteResult_intResult _
    · split
      · exact finiteResult_intResult _
      · have hne : y.toInt ≠ 0 := by simpa [ArithOp.divides] using hzero
        have hfinite := Double.isFinite_div_ofInt (Double.isFinite_ofInt (hbound x)) hne (hbound y)
        simpa using hfinite
    · split
      · exact finiteResult_intResult _
      · simp

theorem finiteResult_decimalArith (op : ArithOp) (x y : Decimal) :
    FiniteResult (asValue (decimalArith op x y)) := by
  unfold decimalArith
  split
  · simp
  · exact finiteResult_decimalResult _

theorem finiteResult_floatArith (op : ArithOp) (x y : Float) :
    FiniteResult (asValue (floatArith op x y)) := by
  unfold floatArith
  split
  · simp
  · exact finiteResult_floatResult _

/-- Arithmetic gives a finite number whatever its operands are. -/
theorem finiteResult_arith (op : ArithOp) (a b : Number) :
    FiniteResult (asValue (arith op a b)) := by
  unfold arith
  split
  · exact finiteResult_intArith _ _ _
  · exact finiteResult_decimalArith _ _ _
  · exact finiteResult_decimalArith _ _ _
  · exact finiteResult_decimalArith _ _ _
  · exact finiteResult_floatArith _ _ _

/-- Texts that spell no number are put together instead. -/
theorem finiteResult_add (l r : Value) : FiniteResult (add l r) := by
  unfold add
  split
  · exact finiteResult_arith _ _ _
  · split <;> simp
  · split <;> simp

theorem finiteResult_arithValues (op : ArithOp) (l r : Value) :
    FiniteResult (arithValues op l r) := by
  unfold arithValues
  split
  · simp
  · split
    · simp
    · exact finiteResult_arith _ _ _

theorem finiteResult_applyBinary (op : BinaryOp) (l r : Value) :
    FiniteResult (applyBinary op l r) := by
  cases op with
  | order op =>
    rw [applyBinary, compareValues]
    split <;> simp
  | arith op =>
    cases op with
    | add => exact finiteResult_add l r
    | _ => exact finiteResult_arithValues _ l r
  | _ => simp [applyBinary]

theorem finiteResult_negate {n : Number} (hn : n.toValue.AllFinite) :
    FiniteResult (asValue (negate n)) := by
  cases n with
  | int n => exact finiteResult_intResult _
  | float x => simpa [negate] using Double.isFinite_neg (by simpa using hn)
  | decimal d => simp [negate]

theorem finiteResult_applyUnary (op : UnaryOp) {v : Value} (hv : v.AllFinite) :
    FiniteResult (applyUnary op v) := by
  unfold applyUnary
  split
  · simp
  · exact finiteResult_toNumber hv
  · split
    · simp
    · next n hn => exact finiteResult_negate (toNumber_allFinite hv hn)

theorem indexValue_allFinite {v : Value} (hv : v.AllFinite) (place : Value) :
    (indexValue v place).AllFinite := by
  unfold indexValue
  dsimp only
  split
  · next items =>
    cases h : Option.bind _ _ with
    | none => simp
    | some w =>
      obtain ⟨i, _, hi⟩ := Option.bind_eq_some_iff.mp h
      exact (Value.allFinite_list _).mp hv _ (List.mem_of_getElem? hi)
  · next entries =>
    cases h : Entries.get? entries place.text with
    | none => simp
    | some w => exact (Value.allFinite_map _).mp hv _ (Entries.mem_of_get? h)
  · split <;> simp
  · simp

/-! ## Functions -/

namespace Function

variable {name : String} {args : List Value}

theorem finiteResult_countError (expected : ArgCount) :
    FiniteResult (countError name expected args) := finiteResult_error _

theorem finiteResult_withOne {f : Value → Result} (h : ∀ v ∈ args, FiniteResult (f v)) :
    FiniteResult (withOne name args f) := by
  unfold withOne
  split
  · exact h _ (by simp)
  · exact finiteResult_countError _

theorem finiteResult_withTwo {f : Value → Value → Result}
    (h : ∀ v ∈ args, ∀ w ∈ args, FiniteResult (f v w)) : FiniteResult (withTwo name args f) := by
  unfold withTwo
  split
  · exact h _ (by simp) _ (by simp)
  · exact finiteResult_countError _

theorem finiteResult_withThree {f : Value → Value → Value → Result}
    (h : ∀ u v w, FiniteResult (f u v w)) : FiniteResult (withThree name args f) := by
  unfold withThree
  split
  · exact h _ _ _
  · exact finiteResult_countError _

theorem finiteResult_onText (f : List Char → List Char) : FiniteResult (onText name args f) :=
  finiteResult_withOne fun _ _ => by simp

theorem finiteResult_onNumber {f : Number → Except EvalError Number}
    (hargs : ∀ v ∈ args, v.AllFinite)
    (h : ∀ n, n.toValue.AllFinite → FiniteResult (asValue (f n))) :
    FiniteResult (onNumber name args f) := by
  refine finiteResult_withOne fun v hv => ?_
  split
  · simp
  · next n hn => exact h n (toNumber_allFinite (hargs v hv) hn)

theorem finiteResult_absolute {n : Number} (hn : n.toValue.AllFinite) :
    FiniteResult (asValue (absolute n)) := by
  cases n with
  | int n => exact finiteResult_intResult _
  | float x => simpa [absolute] using Double.isFinite_absolute (by simpa using hn)
  | decimal d => simp [absolute]

theorem floorNumber_allFinite {n : Number} (hn : n.toValue.AllFinite) :
    (floorNumber n).toValue.AllFinite := by
  cases n with
  | int n => exact hn
  | float x => simpa [floorNumber] using Double.isFinite_floor (by simpa using hn)
  | decimal d => simp [floorNumber]

theorem ceilNumber_allFinite {n : Number} (hn : n.toValue.AllFinite) :
    (ceilNumber n).toValue.AllFinite := by
  cases n with
  | int n => exact hn
  | float x => simpa [ceilNumber] using Double.isFinite_ceil (by simpa using hn)
  | decimal d => simp [ceilNumber]

/-- What `round` forms first: its float times the power of ten for the places. -/
inductive Scales : List Value → Float → Prop
  | whole {v : Value} {x : Float} (hv : toNumber v = .ok (.float x)) :
      Scales [v] (x * Float.ofNat (tenTo 0))
  | places {v p : Value} {x : Float} {n : Int64} (hv : toNumber v = .ok (.float x))
      (hp : p.toInt64? = some n) :
      Scales [v, p] (x * Float.ofNat (tenTo (Min.min n.toInt.toNat 15)))

theorem roundNumber_allFinite {places : Nat} (hplaces : places ≤ 15) {n : Number}
    (h : ∀ x, n = .float x → Double.isFinite (x * Float.ofNat (tenTo places)) = true) :
    (roundNumber places n).toValue.AllFinite := by
  cases n with
  | int n => simp [roundNumber]
  | float x =>
    have hpos := tenTo_pos places
    have hle : tenTo places ≤ 10 ^ 15 := Nat.pow_le_pow_right (by decide) hplaces
    have hquotient := Double.isFinite_div_ofInt (b := tenTo places)
      (Double.isFinite_round (h x rfl)) (by omega) (by omega)
    exact (Value.allFinite_float _).mpr hquotient
  | decimal d => simp [roundNumber]

/-- Rounding stays finite as long as the product that it forms does. -/
theorem finiteResult_rounded (h : ∀ y, Scales args y → Double.isFinite y = true) :
    FiniteResult (rounded name args) := by
  unfold rounded
  dsimp only
  split
  · next v =>
    split
    · simp
    · next n hn =>
      rw [finiteResult_ok]
      refine roundNumber_allFinite (by decide) ?_
      rintro x rfl
      exact h _ (.whole hn)
  · next v p =>
    split
    · simp
    · next k hk =>
      split
      · simp
      · next n hn =>
        rw [finiteResult_ok]
        refine roundNumber_allFinite (Nat.min_le_right _ _) ?_
        rintro x rfl
        refine h _ (.places hn ?_)
        unfold integerArg at hk
        split at hk
        · next hp => cases hk; exact hp
        · cases hk
  · exact finiteResult_countError _

theorem finiteResult_substring : FiniteResult (substring name args) := by
  unfold substring
  split
  · split
    · exact finiteResult_countError _
    · split
      · simp
      · dsimp only
        split
        · simp
        · simp
        · split <;> simp
  · exact finiteResult_countError _

theorem joinValues_allFinite (first : Value) (second? : Option Value) :
    (joinValues first second?).AllFinite := by
  unfold joinValues
  split <;> simp

theorem splitText_allFinite (s sep : String) : (splitText s sep).AllFinite := by
  unfold splitText
  split <;> simp

theorem finiteResult_extremeFrom {wanted : Ordering} {best : Value} {vs : List Value}
    (hbest : best.AllFinite) (hvs : ∀ v ∈ vs, v.AllFinite) :
    FiniteResult (extremeFrom name wanted best vs) := by
  induction vs generalizing best with
  | nil => simpa [extremeFrom] using hbest
  | cons v vs ih =>
    obtain ⟨hv, hvs⟩ := List.forall_mem_cons.mp hvs
    rw [extremeFrom]
    split
    · refine ih ?_ hvs
      split
      · exact hv
      · exact hbest
    · simp

/-- A collection stands for its elements, any other value for itself. -/
theorem elements_allFinite {v : Value} (hv : v.AllFinite) :
    ∀ w ∈ (v.entries?.map fun es => es.map (·.2)).getD [v], w.AllFinite := by
  intro w hw
  cases hentries : v.entries? with
  | none =>
    rw [hentries] at hw
    obtain rfl := List.mem_singleton.mp hw
    exact hv
  | some es =>
    rw [hentries] at hw
    obtain ⟨e, he, rfl⟩ := List.mem_map.mp hw
    exact (hv.entries (by rwa [Value.entriesOrNone, hentries])).2

theorem finiteResult_extreme {wanted : Ordering} (hargs : ∀ v ∈ args, v.AllFinite) :
    FiniteResult (extreme name wanted args) := by
  unfold extreme
  dsimp only
  split
  · exact finiteResult_countError _
  · split
    · simp
    · next v vs hitems =>
      have hall : ∀ w ∈ v :: vs, w.AllFinite := by
        rw [← hitems]
        split
        · exact elements_allFinite (hargs _ (by simp))
        · exact hargs
      obtain ⟨hv, hvs⟩ := List.forall_mem_cons.mp hall
      exact finiteResult_extremeFrom hv hvs

theorem picked_allFinite {pick : {α : Type} → List α → Option α}
    (hpick : ∀ {α : Type} {l : List α} {a : α}, pick l = some a → a ∈ l) {v : Value}
    (hv : v.AllFinite) : (picked @pick v).AllFinite := by
  unfold picked
  split
  · split <;> simp
  · split
    · next h => exact (hv.entries (hpick h)).2
    · simp

theorem finiteResult_progression (start stop step : Int) :
    FiniteResult (progression start stop step) := by
  unfold progression
  dsimp only
  split
  · simp
  · split
    · simp
    · split <;> simp

theorem finiteResult_rangeOf : FiniteResult (rangeOf name args) := by
  unfold rangeOf
  split
  · split
    · exact finiteResult_countError _
    · split
      · simp
      · split
        · simp
        · split
          · exact finiteResult_progression _ _ _
          · split
            · simp
            · split
              · simp
              · exact finiteResult_progression _ _ _
  · exact finiteResult_countError _

/-- Functions of finite values have finite values, but for a product that `round` forms. -/
theorem finiteResult_apply {f : Function} (hargs : ∀ v ∈ args, v.AllFinite)
    (hround : f = round → ∀ y, Scales args y → Double.isFinite y = true) :
    FiniteResult (f.apply name args) := by
  cases f with
  | count | empty => exact finiteResult_withOne fun _ _ => by simp
  | isset =>
    simp only [apply]
    split
    · exact finiteResult_countError _
    · simp
  | default =>
    refine finiteResult_withTwo fun v hv fallback hfallback => ?_
    split <;> rw [finiteResult_ok]
    · exact hargs _ hfallback
    · exact hargs _ hfallback
    · exact hargs _ hv
  | upper | lower | capitalize | trim => exact finiteResult_onText _
  | join =>
    simp only [apply]
    split
    · exact (finiteResult_ok _).mpr (joinValues_allFinite _ _)
    · exact (finiteResult_ok _).mpr (joinValues_allFinite _ _)
    · exact finiteResult_countError _
  | split | explode =>
    exact finiteResult_withTwo fun _ _ _ _ => (finiteResult_ok _).mpr (splitText_allFinite _ _)
  | replace | strReplace => exact finiteResult_withThree fun _ _ _ => by simp [replaceText]
  | substr => exact finiteResult_substring
  | abs => exact finiteResult_onNumber hargs fun _ => finiteResult_absolute
  | round => exact finiteResult_rounded (hround rfl)
  | floor =>
    exact finiteResult_onNumber hargs fun n hn => by simpa using floorNumber_allFinite hn
  | ceil =>
    exact finiteResult_onNumber hargs fun n hn => by simpa using ceilNumber_allFinite hn
  | min | max => exact finiteResult_extreme hargs
  | keys =>
    refine finiteResult_withOne fun v hv => ?_
    simpa using fun k w hkw => ((hargs v hv).entries hkw).1
  | values =>
    refine finiteResult_withOne fun v hv => ?_
    simpa using fun w k hkw => ((hargs v hv).entries hkw).2
  | first =>
    refine finiteResult_withOne fun v hv => ?_
    exact (finiteResult_ok _).mpr (picked_allFinite List.mem_of_mem_head? (hargs v hv))
  | last =>
    refine finiteResult_withOne fun v hv => ?_
    exact (finiteResult_ok _).mpr (picked_allFinite List.mem_of_getLast? (hargs v hv))
  | contains | inArray => exact finiteResult_withTwo fun _ _ _ _ => by simp
  | range => exact finiteResult_rangeOf

end Function

end Expr

end Stencil
