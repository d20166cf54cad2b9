import Stencil.Proofs.Expr.Progression

/-!
No expression makes a machine panic.

Each step of the machine gives what the step of the evaluator gives (`Outcome.Agrees`): a number is
read as an integer, a float or a decimal, so the cases for other values are not reached, and the
operators that an arithmetic step is called with are the five of arithmetic; what is added to the
size of a text or a list is below zero, so the sum fits; and the two ends of a part that is cut out
are in order and inside the text. Errors pass from step to step in the same way on both sides, which
gives expressions by induction. Main statement: `tryEvaluate_agrees`.
-/

namespace Stencil.Expr.Machine

open Outcome (ofExcept checked)
open Stencil.Expr.Function (countError integerArg)

/-! ## Outcomes -/

namespace Outcome

variable {α β : Type}

/-- The step gives a value with this property, unless a text or a list is longer than any that a
memory holds. -/
def Yields (o : Outcome α) (P : α → Prop) : Prop :=
  (∃ a, o = .value a ∧ P a) ∨ ∃ size, 2 ^ 63 ≤ size ∧ o = .exhausted size

/-- The machine gives this result, with the same exception. -/
def Agrees (o : Outcome α) (r : Except EvalError α) : Prop :=
  o = ofExcept r ∨ ∃ size, 2 ^ 63 ≤ size ∧ o = .exhausted size

theorem Agrees.of_eq {o : Outcome α} {r : Except EvalError α} (h : o = ofExcept r) : o.Agrees r :=
  .inl h

theorem Agrees.ne_panic {o : Outcome α} {r : Except EvalError α} (h : o.Agrees r) (p : Panic) :
    o ≠ .panic p := by
  rcases h with rfl | ⟨size, _, rfl⟩
  · cases r <;> nofun
  · nofun

theorem Yields.value {a : α} {P : α → Prop} (h : P a) : (Outcome.value a).Yields P :=
  .inl ⟨a, rfl, h⟩

theorem Yields.bind {o : Outcome α} {P : α → Prop} {f : α → Outcome β} {Q : β → Prop}
    (h : o.Yields P) (hf : ∀ a, P a → (f a).Yields Q) : (o >>= f).Yields Q := by
  rcases h with ⟨a, rfl, ha⟩ | ⟨size, hsize, rfl⟩
  · exact hf a ha
  · exact .inr ⟨size, hsize, rfl⟩

theorem Yields.agrees {o : Outcome α} {P : α → Prop} {f : α → Outcome β} {r : Except EvalError β}
    (h : o.Yields P) (hf : ∀ a, P a → (f a).Agrees r) : (o >>= f).Agrees r := by
  rcases h with ⟨a, rfl, ha⟩ | ⟨size, hsize, rfl⟩
  · exact hf a ha
  · exact .inr ⟨size, hsize, rfl⟩

/-- A step after another one: an error of the first has to be the result as a whole. -/
theorem Agrees.bind {o : Outcome α} {r : Except EvalError α} {f : α → Outcome β}
    {t : Except EvalError β} (h : o.Agrees r) (hok : ∀ a, r = .ok a → (f a).Agrees t)
    (herror : ∀ e, r = .error e → t = .error e) : (o >>= f).Agrees t := by
  rcases h with rfl | ⟨size, hsize, rfl⟩
  · cases r with
    | ok a => exact hok a rfl
    | error e => exact .of_eq (by rw [herror e rfl]; rfl)
  · exact .inr ⟨size, hsize, rfl⟩

theorem Agrees.caught {o : Outcome α} {r : Except EvalError α} (h : o.Agrees r) :
    o.caught.Yields (· = r) := by
  rcases h with rfl | ⟨size, hsize, rfl⟩
  · cases r <;> exact .value rfl
  · exact .inr ⟨size, hsize, rfl⟩

end Outcome

open Outcome (Agrees Yields)

/-! ## Arithmetic -/

/-- A number is an integer, a float or a decimal. -/
theorem readNumber_eq (v : Value) : readNumber v = asValue (toNumber v) := by
  cases v with
  | str s =>
    rw [readNumber, toNumber]
    cases readInt64? (trim s.toList) with
    | some n => rfl
    | none => cases FloatText.readFinite? (trim s.toList) <;> rfl
  | _ => rfl

theorem asValue_ok (n : Number) : asValue (.ok n) = .ok n.toValue := rfl

theorem asValue_error (e : EvalError) : asValue (.error e) = .error e := rfl

theorem checked_int (n : Int) :
    checked .overflow ((fit? n).map Value.int) = ofExcept (asValue (intResult n)) := by
  rw [intResult]
  cases fit? n <;> rfl

theorem checked_decimal (d? : Option Decimal) :
    checked .overflow (d?.map Value.decimal) = ofExcept (asValue (decimalResult d?)) := by
  cases d? <;> rfl

theorem finite_float (x : Float) :
    (if Double.isFinite x then Outcome.value (Value.float x) else .error .overflow) =
      ofExcept (asValue (floatResult x)) := by
  rw [floatResult]
  split <;> rfl

theorem divides_iff (op : ArithOp) :
    (BinaryOp.arith op = .arith .div ∨ BinaryOp.arith op = .arith .rem) ↔ op.divides = true := by
  cases op <;> decide

theorem remainder_eq_zero_iff (a b : Int) :
    ((fit? (a.tdiv b)).bind fun _ => fit? (a.tmod b)) = some 0 ↔ remainder? a b = some 0 := by
  have hzero : fit? (a.tmod b) = some 0 ↔ a.tmod b = 0 := by
    constructor
    · exact fun h => (toInt_of_fit? h).symm
    · intro h
      rw [h]
      rfl
  rw [remainder?]
  cases fit? (a.tdiv b) with
  | none => simp
  | some q => simpa using hzero

theorem intArith_eq (op : ArithOp) (x y : Int64) :
    intArith (.arith op) x y = ofExcept (asValue (Expr.intArith op x y)) := by
  by_cases hzero : op.divides = true ∧ y = 0
  · rw [intArith_of_zero hzero]
    obtain ⟨hdivides, rfl⟩ := hzero
    cases op with
    | add | sub | mul => cases hdivides
    | div | rem => rfl
  · have hdivisor : ¬ (op.divides && y.toInt == 0) = true := fun h => hzero (refuses_zero_iff.mp h)
    simp only [Expr.intArith, if_neg hdivisor]
    cases op with
    | add | sub | mul => exact checked_int _
    | div =>
      have hy : y ≠ 0 := fun hy => hzero ⟨rfl, hy⟩
      simp only [intArith, if_neg hy, remainder_eq_zero_iff, ne_eq, beq_iff_eq, ite_not]
      split
      · exact checked_int _
      · rfl
    | rem =>
      have hy : y ≠ 0 := fun hy => hzero ⟨rfl, hy⟩
      simp only [intArith, if_neg hy, remainder?]
      cases fit? (x.toInt.tdiv y.toInt) with
      | none => rfl
      | some q => exact checked_int _

theorem decimalArith_eq (op : ArithOp) (x y : Decimal) :
    decimalArith (.arith op) x y = ofExcept (asValue (Expr.decimalArith op x y)) := by
  simp only [decimalArith, Expr.decimalArith, divides_iff, Bool.and_eq_true]
  split
  · rfl
  · cases op <;> exact checked_decimal _

theorem floatArith_eq (op : ArithOp) (x y : Float) :
    floatArith (.arith op) x y = ofExcept (asValue (Expr.floatArith op x y)) := by
  simp only [floatArith, Expr.floatArith, divides_iff, Bool.and_eq_true]
  split
  · rfl
  · cases op <;> exact finite_float _

theorem arith_eq (op : ArithOp) (a b : Number) :
    arith (.arith op) a.toValue b.toValue = ofExcept (asValue (Expr.arith op a b)) := by
  cases a with
  | int x =>
    cases b with
    | int y => exact intArith_eq op x y
    | float y => exact floatArith_eq op _ y
    | decimal y => exact decimalArith_eq op _ y
  | float x =>
    cases b with
    | int y | float y | decimal y => exact floatArith_eq op x _
  | decimal x =>
    cases b with
    | int y => exact decimalArith_eq op x _
    | float y => exact floatArith_eq op _ y
    | decimal y => exact decimalArith_eq op x y

/-! ## Operators -/

theorem arithValues_eq (op : ArithOp) (l r : Value) :
    (do
      let a ← ofExcept (readNumber l)
      let b ← ofExcept (readNumber r)
      arith (.arith op) a b) = ofExcept (arithValues op l r) := by
  rw [readNumber_eq, readNumber_eq, arithValues]
  cases toNumber l with
  | error e => rfl
  | ok a =>
    cases toNumber r with
    | error e => rfl
    | ok b => exact arith_eq op a b

theorem add_eq (l r : Value) :
    applyBinary (.arith .add) l r = ofExcept (Expr.add l r) := by
  rw [applyBinary, readNumber_eq, readNumber_eq, Expr.add]
  cases toNumber l with
  | error e =>
    cases toNumber r <;>
    · simp only [asValue_ok, asValue_error]
      split <;> rfl
  | ok a =>
    cases toNumber r with
    | error e =>
      simp only [asValue_ok, asValue_error]
      split <;> rfl
    | ok b => exact arith_eq .add a b

/-- The two operators that may leave out their right side are settled before. -/
theorem applyBinary_eq {op : BinaryOp} (hand : op ≠ .and) (hor : op ≠ .or) (l r : Value) :
    applyBinary op l r = ofExcept (Expr.applyBinary op l r) := by
  cases op with
  | and => exact absurd rfl hand
  | or => exact absurd rfl hor
  | concat | equal | notEqual | strictEqual | notStrictEqual | order => rfl
  | arith op =>
    cases op with
    | add => exact add_eq l r
    | sub | mul | div | rem => exact arithValues_eq _ l r

theorem applyUnary_eq (op : UnaryOp) (v : Value) :
    applyUnary op v = ofExcept (Expr.applyUnary op v) := by
  cases op with
  | not => rfl
  | pos => exact congrArg ofExcept (readNumber_eq v)
  | neg =>
    rw [applyUnary, readNumber_eq, Expr.applyUnary]
    cases toNumber v with
    | error e => rfl
    | ok n =>
      cases n with
      | int n => exact checked_int _
      | float x => rfl
      | decimal d => rfl

/-! ## Positions -/

theorem toInt_max (x y : Int64) : (max x y).toInt = max x.toInt y.toInt := by
  show (if x ≤ y then y else x).toInt = _
  rw [apply_ite Int64.toInt]
  simp only [Int64.le_iff_toInt_le]
  omega

theorem toInt_min (x y : Int64) : (min x y).toInt = min x.toInt y.toInt := by
  show (if x ≤ y then x else y).toInt = _
  rw [apply_ite Int64.toInt]
  simp only [Int64.le_iff_toInt_le]
  omega

theorem lt_zero_iff (n : Int64) : n < 0 ↔ n.toInt < 0 := Int64.lt_iff_toInt_lt

theorem zero_le_iff (n : Int64) : 0 ≤ n ↔ 0 ≤ n.toInt := Int64.le_iff_toInt_le

/-- An integer that is not below zero is the position that it stands for. -/
theorem position_eq {n : Int64} (h : 0 ≤ n.toInt) : position n = n.toInt.toNat := by
  have hcond := BitVec.toInt_eq_toNat_cond n.toBitVec
  change n.toInt = _ at hcond
  change n.toBitVec.toNat = _
  split at hcond <;> omega

theorem length_yields (size : Nat) : (length size).Yields fun n => n.toInt = size := by
  rw [length]
  cases hfit : fit? (size : Int) with
  | some n => exact .value (toInt_of_fit? hfit)
  | none =>
    have hlong := fit?_eq_none_iff.mp hfit
    rw [FitsInt64] at hlong
    exact .inr ⟨size, by omega, rfl⟩

/-- Nothing that is below zero makes a size too large, or less than the least integer. -/
theorem add_yields {x y : Int64} (hx : 0 ≤ x.toInt) (hy : y.toInt < 0) :
    (add x y).Yields fun n => n.toInt = x.toInt + y.toInt := by
  have hfits : FitsInt64 (x.toInt + y.toInt) := by
    have hx' := fitsInt64_toInt x
    have hy' := fitsInt64_toInt y
    rw [FitsInt64] at hx' hy' ⊢
    omega
  obtain ⟨n, hn, htoInt⟩ := exists_fit? hfits
  rw [add, hn]
  exact .value htoInt

theorem countedFromEnd_yields (n : Int64) (size : Nat) :
    (countedFromEnd n size).Yields fun i =>
      i.toInt = if n.toInt < 0 then size + n.toInt else n.toInt := by
  unfold countedFromEnd
  simp only [lt_zero_iff]
  split
  · next hn =>
    refine (length_yields size).bind fun total htotal => ?_
    rw [← htotal]
    exact add_yields (by omega) hn
  · exact .value rfl

/-- The position among `size` elements that an index stands for. -/
def placeOf? (index : Value) (size : Nat) : Option Nat :=
  index.toInt64?.bind fun n =>
    let i := if n.toInt < 0 then size + n.toInt else n.toInt
    if 0 ≤ i then some i.toNat else none

theorem indexPosition_yields (index : Value) (size : Nat) :
    (indexPosition index size).Yields (· = placeOf? index size) := by
  unfold indexPosition placeOf?
  cases index.toInt64? with
  | none => exact .value rfl
  | some n =>
    refine (countedFromEnd_yields n size).bind fun i hi => .value ?_
    rw [Option.bind_some, ← hi]
    simp only [zero_le_iff]
    split
    · next hpos => rw [position_eq hpos]
    · rfl

def charOrNull : Option Char → Value
  | some c => .str (String.singleton c)
  | none => .null

theorem indexValue_agrees (object index : Value) :
    (indexValue object index).Agrees (.ok (Expr.indexValue object index)) := by
  cases object with
  | list items =>
    refine (indexPosition_yields index items.length).agrees fun i? hi => .of_eq ?_
    rw [hi]
    rfl
  | str s =>
    refine (indexPosition_yields index s.length).agrees fun i? hi => .of_eq ?_
    rw [hi]
    have hvalue : Expr.indexValue (.str s) index =
        charOrNull ((placeOf? index s.length).bind fun i => s.toList[i]?) := rfl
    rw [hvalue]
    cases (placeOf? index s.length).bind fun i => s.toList[i]? with
    | some c => rfl
    | none => rfl
  | _ => exact .of_eq rfl

/-! ## Parts of a text -/

theorem cutStart_yields {total : Int64} (htotal : 0 ≤ total.toInt) (start : Int64) :
    (cutStart total start).Yields fun first => first.toInt =
      if start.toInt < 0 then max (total.toInt + start.toInt) 0
      else min start.toInt total.toInt := by
  unfold cutStart
  simp only [lt_zero_iff]
  split
  · next hstart =>
    refine (add_yields htotal hstart).bind fun n hn => .value ?_
    rw [toInt_max, hn]
    rfl
  · exact .value (toInt_min _ _)

/-- A sum that goes too far goes past the end as well. -/
theorem min_saturatingAdd {x y total : Int64} (hx : 0 ≤ x.toInt) (hy : 0 ≤ y.toInt) :
    (min (saturatingAdd x y) total).toInt = min (x.toInt + y.toInt) total.toInt := by
  have hmin : Int64.minValue.toInt = -2 ^ 63 := by decide
  have hmax : Int64.maxValue.toInt = 2 ^ 63 - 1 := by decide
  have htotal := fitsInt64_toInt total
  rw [FitsInt64] at htotal
  rw [toInt_min, saturatingAdd, clamp, if_neg (by omega)]
  split
  · omega
  · rw [Int64.toInt_ofInt_of_le (by omega) (by omega)]

theorem cutStop_yields {total first : Int64} (hfirst : 0 ≤ first.toInt)
    (hle : first.toInt ≤ total.toInt) (length? : Option Int64) :
    (cutStop total first length?).Yields fun last => last.toInt =
      match length?.map Int64.toInt with
      | none => total.toInt
      | some n =>
        if n < 0 then max (total.toInt + n) first.toInt
        else min (first.toInt + n) total.toInt := by
  unfold cutStop
  cases length? with
  | none => exact .value rfl
  | some n =>
    simp only [lt_zero_iff, Option.map_some]
    split
    · next hn =>
      refine (add_yields (by omega) hn).bind fun m hm => .value ?_
      rw [toInt_max, hm]
    · exact .value (min_saturatingAdd hfirst (by omega))

/-- The two ends are in order and inside the text. -/
theorem cut_agrees (s : List Char) (start : Int64) (length? : Option Int64) :
    (cut s start length?).Agrees
      (.ok (Function.slice s start.toInt (length?.map Int64.toInt))) := by
  refine (length_yields s.length).agrees fun total htotal => ?_
  refine (cutStart_yields (by omega) start).agrees fun first hfirst => ?_
  have hinside : 0 ≤ first.toInt ∧ first.toInt ≤ total.toInt := by
    rw [hfirst]
    split <;> omega
  obtain ⟨hpos, hle⟩ := hinside
  refine (cutStop_yields hpos hle length?).agrees fun last hlast => .of_eq ?_
  have hordered : first.toInt ≤ last.toInt ∧ last.toInt ≤ total.toInt := by
    rw [hlast]
    split
    · exact ⟨hle, Int.le_refl _⟩
    · split
      · exact ⟨Int.le_max_right _ _, Int.max_le.mpr ⟨by omega, hle⟩⟩
      · exact ⟨Int.le_min.mpr ⟨by omega, hle⟩, Int.min_le_right _ _⟩
  have hends : position first ≤ position last ∧ position last ≤ s.length := by
    rw [position_eq (by omega), position_eq (by omega)]
    omega
  rw [slice, if_pos hends, position_eq (by omega), position_eq (by omega)]
  simp only [Function.slice, ← htotal, ← hfirst, Outcome.ofExcept_ok]
  have hdrop (n : Int) (h : last.toInt = n) :
      Outcome.value ((s.take last.toInt.toNat).drop first.toInt.toNat) =
        .value ((s.take n.toNat).drop first.toInt.toNat) := by rw [h]
  cases length? <;> exact hdrop _ hlast

/-! ## Functions -/

theorem withNumber_eq {f : Value → Outcome Value} {g : Number → Except EvalError Number}
    (h : ∀ n : Number, f n.toValue = ofExcept (asValue (g n))) (name : String)
    (args : List Value) : withNumber name args f = ofExcept (Function.onNumber name args g) := by
  match args with
  | [] | _ :: _ :: _ => rfl
  | [v] =>
    rw [withNumber, readNumber_eq, Function.onNumber, Function.withOne]
    cases toNumber v with
    | error e => rfl
    | ok n => exact h n

theorem absolute_eq (n : Number) :
    absolute n.toValue = ofExcept (asValue (Function.absolute n)) := by
  cases n with
  | int n => exact checked_int _
  | float x => rfl
  | decimal d => rfl

theorem wholeNumber_eq (up : Bool) (n : Number) :
    wholeNumber up n.toValue = ofExcept (asValue (.ok
      (if up then Function.ceilNumber n else Function.floorNumber n))) := by
  cases n <;> cases up <;> rfl

theorem roundNumber_eq (places : Nat) (n : Number) :
    roundNumber places n.toValue = .value (Function.roundNumber places n).toValue := by
  cases n <;> rfl

/-- A number of places is kept between none and fifteen. -/
theorem position_places (n : Int64) :
    position (min (max n 0) 15) = min n.toInt.toNat 15 := by
  have htoInt : (min (max n 0) 15).toInt = min (max n.toInt 0) 15 := by
    rw [toInt_min, toInt_max]
    rfl
  rw [position_eq (by omega), htoInt]
  omega

theorem roundValue_eq (places : Nat) (v : Value) :
    (do
      let n ← ofExcept (readNumber v)
      roundNumber places n) =
      ofExcept (match toNumber v with
        | .error e => .error e
        | .ok n => .ok (Function.roundNumber places n).toValue) := by
  rw [readNumber_eq]
  cases toNumber v with
  | error e => rfl
  | ok n => exact roundNumber_eq places n

theorem rounded_eq (name : String) (args : List Value) :
    rounded name args = ofExcept (Function.rounded name args) := by
  match args with
  | [] => rfl
  | [v] => exact roundValue_eq 0 v
  | [v, p] =>
    have hsteps : rounded name [v, p] = (do
        let places ← placesArgument name (some p)
        let n ← ofExcept (readNumber v)
        roundNumber places n) := rfl
    rw [hsteps, placesArgument, Function.rounded]
    cases integerArg name p with
    | error e => rfl
    | ok k =>
      simp only [Outcome.ofExcept_ok, Outcome.value_bind, Outcome.pure_eq, position_places]
      exact roundValue_eq _ v
  | v :: p :: other :: rest =>
    have hcount : 2 < (v :: p :: other :: rest).length := by
      simp only [List.length_cons]
      omega
    rw [rounded, checkCount, if_pos (.inr hcount)]
    rfl

/-- What `min` and `max` compare. -/
def comparedItems : List Value → List Value
  | [v] => (v.entries?.map fun es => es.map (·.2)).getD [v]
  | args => args

theorem comparedValues_eq (args : List Value) :
    comparedValues args = .value (comparedItems args) := by
  cases args with
  | nil => rfl
  | cons v rest =>
    cases rest with
    | cons w rest =>
      have hlength : (v :: w :: rest).length ≠ 1 := by simp
      rw [comparedValues, if_neg hlength]
      rfl
    | nil =>
      cases v with
      | list items => exact congrArg Outcome.value (Value.map_snd_indexed items).symm
      | map entries =>
        have hmap : comparedItems [.map entries] =
            (entries.map fun entry => (Value.str entry.1, entry.2)).map (·.2) := rfl
        rw [hmap, List.map_map]
        rfl
      | _ => rfl

/-- The first of the values that are compared is the best one to start with. -/
def firstExtreme (name : String) (wanted : Ordering) : List Value → Except EvalError Value
  | [] => .ok .null
  | v :: vs => Function.extremeFrom name wanted v vs

theorem extreme_of_items (name : String) (wanted : Ordering) (args : List Value) :
    Function.extreme name wanted args =
      if args.isEmpty then countError name (.atLeast 1) args
      else firstExtreme name wanted (comparedItems args) := by
  cases args with
  | nil => rfl
  | cons v rest => cases rest <;> rfl

theorem extreme_eq (name : String) (wanted : Ordering) (args : List Value) :
    extreme name wanted args = ofExcept (Function.extreme name wanted args) := by
  rw [extreme_of_items, extreme, comparedValues_eq]
  split
  · rfl
  · rw [Outcome.value_bind]
    cases comparedItems args with
    | nil => rfl
    | cons v vs => rfl

/-- A part of a text from its second and third argument. -/
theorem cutText_agrees (s : Value) (start : Int64) (length? : Option Int64) :
    (do
      let chars ← cut s.text.toList start length?
      pure (Value.str (String.ofList chars))).Agrees
      (.ok (.str (String.ofList
        (Function.slice s.text.toList start.toInt (length?.map Int64.toInt))))) := by
  refine (cut_agrees s.text.toList start length?).bind (fun chars hchars => ?_) nofun
  cases hchars
  exact .of_eq rfl

theorem optionalInteger_of_ne_null {v : Value} (h : v ≠ .null) (name : String) :
    optionalInteger name (some v) = (do
      let n ← ofExcept (integerArg name v)
      pure (some n)) := by
  cases v with
  | null => exact absurd rfl h
  | _ => rfl

theorem cutLength_agrees (name : String) (s : Value) (start : Int64) (length : Value) :
    (do
      let length? ← (do
        let n ← ofExcept (integerArg name length)
        pure (some n))
      let chars ← cut s.text.toList start length?
      pure (Value.str (String.ofList chars))).Agrees
      (match integerArg name length with
        | .error e => .error e
        | .ok n => .ok (.str (String.ofList
            (Function.slice s.text.toList start.toInt (some n.toInt))))) := by
  cases integerArg name length with
  | error e => exact .of_eq rfl
  | ok n => exact cutText_agrees s start (some n)

theorem substring_agrees (name : String) (args : List Value) :
    (substring name args).Agrees (Function.substring name args) := by
  match args with
  | [] | [_] => exact .of_eq rfl
  | [s, start] =>
    have hsteps : substring name [s, start] = (do
        let n ← ofExcept (integerArg name start)
        let chars ← cut s.text.toList n none
        pure (Value.str (String.ofList chars))) := rfl
    rw [hsteps, Function.substring]
    cases integerArg name start with
    | error e => exact .of_eq rfl
    | ok n => exact cutText_agrees s n none
  | [s, start, length] =>
    have hsteps : substring name [s, start, length] = (do
        let n ← ofExcept (integerArg name start)
        let length? ← optionalInteger name (some length)
        let chars ← cut s.text.toList n length?
        pure (Value.str (String.ofList chars))) := rfl
    rw [hsteps, Function.substring]
    cases integerArg name start with
    | error e => exact .of_eq rfl
    | ok n =>
      rw [if_neg (by simp)]
      dsimp only
      split
      · next h => cases h
      · next h =>
        cases h
        exact cutText_agrees s n none
      · next hnull h =>
        cases h
        rw [optionalInteger_of_ne_null fun h => hnull h rfl]
        exact cutLength_agrees name s n length
  | s :: start :: length :: other :: rest =>
    have hcount : 3 < (s :: start :: length :: other :: rest).length := by
      simp only [List.length_cons]
      omega
    have hrest : 1 < (length :: other :: rest).length := by
      simp only [List.length_cons]
      omega
    rw [substring, checkCount, if_pos (.inr hcount), Function.substring, if_pos hrest]
    exact .of_eq rfl

theorem apply_agrees (f : Function) (name : String) (args : List Value) :
    (apply f name args).Agrees (f.apply name args) := by
  cases f with
  | substr => exact substring_agrees name args
  | abs => exact .of_eq (withNumber_eq absolute_eq name args)
  | round => exact .of_eq (rounded_eq name args)
  | floor => exact .of_eq (withNumber_eq (wholeNumber_eq false) name args)
  | ceil => exact .of_eq (withNumber_eq (wholeNumber_eq true) name args)
  | min => exact .of_eq (extreme_eq name .lt args)
  | max => exact .of_eq (extreme_eq name .gt args)
  | range => exact .of_eq (rangeOf_eq name args)
  | _ => exact .of_eq rfl

theorem callFunction_agrees (name : String) (args : List Value) :
    (callFunction name args).Agrees (Expr.callFunction name args) := by
  rw [callFunction, Expr.callFunction]
  cases Function.ofName? name with
  | some f => exact apply_agrees f name args
  | none => exact .of_eq rfl

/-! ## Expressions -/

/-- The result of an operator on the results of its two sides. -/
def binaryResult (op : BinaryOp) (left right : Except EvalError Value) : Except EvalError Value :=
  match left with
  | .error e => .error e
  | .ok l =>
    if op == .and && !l.truthy then .ok (.bool false)
    else if op == .or && l.truthy then .ok (.bool true)
    else
      match right with
      | .error e => .error e
      | .ok r => Expr.applyBinary op l r

theorem eval_binary (c : Context) (op : BinaryOp) (left right : Expr) :
    Expr.eval c (.binary op left right) =
      binaryResult op (Expr.eval c left) (Expr.eval c right) := by
  rw [Expr.eval]
  cases Expr.eval c left with
  | error e => rfl
  | ok l => cases Expr.eval c right <;> rfl

section Binary

variable {left right : Outcome Value} {rl rr : Except EvalError Value}

theorem and_agrees (hl : left.Agrees rl) (hr : right.Agrees rr) :
    (do
      let l ← left
      if l.truthy then do
        let r ← right
        pure (Value.bool r.truthy)
      else pure (Value.bool false)).Agrees (binaryResult .and rl rr) := by
  refine hl.bind (fun l hl => ?_) (fun e he => by rw [he]; rfl)
  rw [hl]
  cases htruthy : l.truthy with
  | false => exact .of_eq (by simp [binaryResult, htruthy])
  | true =>
    refine hr.bind (fun r hr => .of_eq ?_) (fun e he => ?_)
    · simp [binaryResult, hr, htruthy, Expr.applyBinary]
    · simp [binaryResult, he, htruthy]

theorem or_agrees (hl : left.Agrees rl) (hr : right.Agrees rr) :
    (do
      let l ← left
      if l.truthy then pure (Value.bool true)
      else do
        let r ← right
        pure (Value.bool r.truthy)).Agrees (binaryResult .or rl rr) := by
  refine hl.bind (fun l hl => ?_) (fun e he => by rw [he]; rfl)
  rw [hl]
  cases htruthy : l.truthy with
  | true => exact .of_eq (by simp [binaryResult, htruthy])
  | false =>
    refine hr.bind (fun r hr => .of_eq ?_) (fun e he => ?_)
    · simp [binaryResult, hr, htruthy, Expr.applyBinary]
    · simp [binaryResult, he, htruthy]

theorem strict_agrees {op : BinaryOp} (hand : op ≠ .and) (hor : op ≠ .or)
    (hl : left.Agrees rl) (hr : right.Agrees rr) :
    (do
      let l ← left
      let r ← right
      applyBinary op l r).Agrees (binaryResult op rl rr) := by
  have hand' : (op == .and) = false := beq_eq_false_iff_ne.mpr hand
  have hor' : (op == .or) = false := beq_eq_false_iff_ne.mpr hor
  refine hl.bind (fun l hl => ?_) (fun e he => by rw [he]; rfl)
  refine hr.bind (fun r hr => ?_) (fun e he => ?_)
  · simpa [binaryResult, hl, hr, hand', hor'] using .of_eq (applyBinary_eq hand hor l r)
  · simp [binaryResult, hl, he, hand', hor']

end Binary

/-- The result of an argument that may fail, which then counts as null, or that may not. -/
def argumentResult (forgives : Bool) : Except EvalError Value → Except EvalError Value
  | .ok v => .ok v
  | .error e => if forgives then .ok .null else .error e

theorem evalArgs_cons (c : Context) (function : String) (position : Nat) (e : Expr)
    (es : List Expr) :
    Expr.evalArgs c function position (e :: es) =
      match argumentResult (Function.forgives function position) (Expr.eval c e) with
      | .error e => .error e
      | .ok v =>
        match Expr.evalArgs c function (position + 1) es with
        | .error e => .error e
        | .ok vs => .ok (v :: vs) := by
  rw [Expr.evalArgs]
  cases Expr.eval c e <;> rfl

/-- Errors that are forgiven become null, and nothing else does. -/
theorem argumentOf_agrees {o : Outcome Value} {r : Except EvalError Value} (h : o.Agrees r)
    (forgives : Bool) : (argumentOf forgives o).Agrees (argumentResult forgives r) := by
  cases forgives with
  | false =>
    have hresult : argumentResult false r = r := by cases r <;> rfl
    rw [hresult]
    exact h
  | true =>
    refine h.caught.agrees fun r' hr => ?_
    rw [hr]
    cases r <;> exact .of_eq rfl

mutual

/-- The machine follows the evaluator step by step. -/
theorem eval_agrees (c : Context) (e : Expr) : (eval c e).Agrees (Expr.eval c e) := by
  cases e with
  | literal v => exact .of_eq rfl
  | var x => exact .of_eq rfl
  | name x =>
    rw [eval, Expr.eval]
    cases c.get? x <;> exact .of_eq rfl
  | list items =>
    rw [eval, Expr.eval]
    refine (evalItems_agrees c items).bind (fun vs hvs => ?_) (fun e he => by rw [he])
    rw [hvs]
    exact .of_eq rfl
  | member object key =>
    rw [eval, Expr.eval]
    refine (eval_agrees c object).bind (fun v hv => ?_) (fun e he => by rw [he])
    rw [hv]
    exact .of_eq rfl
  | index object place =>
    rw [eval, Expr.eval]
    refine (eval_agrees c object).bind (fun v hv => ?_) (fun e he => by rw [he])
    refine (eval_agrees c place).bind (fun i hi => ?_) (fun e he => by rw [hv, he])
    rw [hv, hi]
    exact indexValue_agrees v i
  | call function args =>
    rw [eval, Expr.eval]
    refine (evalArgs_agrees c function 0 args).bind (fun vs hvs => ?_) (fun e he => by rw [he])
    rw [hvs]
    exact callFunction_agrees function vs
  | unary op operand =>
    rw [eval, Expr.eval]
    refine (eval_agrees c operand).bind (fun v hv => ?_) (fun e he => by rw [he])
    rw [hv]
    exact .of_eq (applyUnary_eq op v)
  | binary op left right =>
    have hl := eval_agrees c left
    have hr := eval_agrees c right
    rw [eval_binary]
    by_cases hand : op = .and
    · rw [hand, eval]
      exact and_agrees hl hr
    · by_cases hor : op = .or
      · rw [hor, eval]
        exact or_agrees hl hr
      · rw [eval]
        case x_1 => exact hand
        case x_2 => exact hor
        exact strict_agrees hand hor hl hr
  | ternary condition yes no =>
    rw [eval, Expr.eval]
    refine (eval_agrees c condition).bind (fun v hv => ?_) (fun e he => by rw [he])
    rw [hv]
    dsimp only
    split
    · exact eval_agrees c yes
    · exact eval_agrees c no
  | orElse condition no =>
    rw [eval, Expr.eval]
    refine (eval_agrees c condition).bind (fun v hv => ?_) (fun e he => by rw [he])
    rw [hv]
    dsimp only
    split
    · exact .of_eq rfl
    · exact eval_agrees c no
  | coalesce left right =>
    rw [eval, Expr.eval]
    refine (eval_agrees c left).caught.agrees fun r hr => ?_
    rw [hr]
    cases Expr.eval c left with
    | error e => exact eval_agrees c right
    | ok v =>
      dsimp only
      split
      · exact eval_agrees c right
      · exact .of_eq rfl

theorem evalItems_agrees (c : Context) (items : List Expr) :
    (evalItems c items).Agrees (Expr.evalItems c items) := by
  cases items with
  | nil => exact .of_eq rfl
  | cons e es =>
    rw [evalItems, Expr.evalItems]
    refine (eval_agrees c e).bind (fun v hv => ?_) (fun e he => by rw [he])
    refine (evalItems_agrees c es).bind (fun vs hvs => ?_) (fun e he => by rw [hv, he])
    rw [hv, hvs]
    exact .of_eq rfl

theorem evalArgs_agrees (c : Context) (function : String) (position : Nat) (args : List Expr) :
    (evalArgs c function position args).Agrees (Expr.evalArgs c function position args) := by
  cases args with
  | nil => exact .of_eq rfl
  | cons e es =>
    rw [evalArgs, evalArgs_cons]
    refine (argumentOf_agrees (eval_agrees c e) _).bind (fun v hv => ?_) (fun e he => by rw [he])
    refine (evalArgs_agrees c function (position + 1) es).bind (fun vs hvs => ?_)
      (fun e he => by rw [hv, he])
    rw [hv, hvs]
    exact .of_eq rfl

end

/-- **No expression makes the machine panic.** Whatever the text and the context are, evaluation
reaches no case that is marked as impossible, no position out of range, no operation that overflows
and no division by zero. It gives the value or the error of the evaluator, unless it comes to the
end of a text or a list of at least `2 ^ 63` elements, more than any memory holds. -/
theorem tryEvaluate_agrees (s : List Char) (c : Context) :
    (∀ p, tryEvaluate s c ≠ .panic p) ∧
    (tryEvaluate s c = .ofExcept (Expr.tryEvaluate s c) ∨
      ∃ size, 2 ^ 63 ≤ size ∧ tryEvaluate s c = .exhausted size) := by
  have hagrees : (tryEvaluate s c).Agrees (Expr.tryEvaluate s c) := by
    rw [tryEvaluate, Expr.tryEvaluate]
    cases parse s with
    | ok e => exact eval_agrees c e
    | error e => exact .of_eq rfl
  exact ⟨hagrees.ne_panic, hagrees⟩

end Stencil.Expr.Machine
