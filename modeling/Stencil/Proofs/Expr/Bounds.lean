import Stencil.Expr.Eval
import Stencil.Proofs.Expr.Completeness
import Stencil.Proofs.Expr.Finite

/-!
Where evaluation leaves the finite numbers.

In a context whose floats are finite there are two ways to an infinity: a literal that is too large
for a float, and a product in `round` that is (`Overflows`). Either matters only where its value
goes into the value of the whole expression. `Passes` says which parts do: the ones that are
evaluated, and not below a binary operator, whose result is a number of its own. If none of them
overflows, all floats of the value are finite (`allFinite_of_tryEvaluate`), by induction on the
expression; where one does, evaluation gives an infinity and no error (`tryEvaluate_infinite`).
-/

namespace Stencil

theorem Context.get?_allFinite {c : Context} (hc : c.toValue.AllFinite) {name : String} {v : Value}
    (h : c.get? name = some v) : v.AllFinite :=
  (Value.allFinite_map _).mp hc _ (Entries.mem_of_get? h)

namespace Expr

open Grammar

/-! ## Parts of an expression -/

/-- The value of an expression can be, or contain, the value of this part of it. A binary operator
passes nothing on: it gives a truth value, a text or a number of its own. -/
inductive Passes (c : Context) : Expr → Expr → Prop
  | item {items : List Expr} {e : Expr} (he : e ∈ items) : Passes c (.list items) e
  | object {object : Expr} {key : String} : Passes c (.member object key) object
  | indexed {object place : Expr} : Passes c (.index object place) object
  | argument {function : String} {args : List Expr} {e : Expr} (he : e ∈ args) :
      Passes c (.call function args) e
  | operand {op : UnaryOp} {operand : Expr} : Passes c (.unary op operand) operand
  | yes {condition yes no : Expr} {v : Value} (hv : eval c condition = .ok v)
      (h : v.truthy = true) : Passes c (.ternary condition yes no) yes
  | no {condition yes no : Expr} {v : Value} (hv : eval c condition = .ok v)
      (h : v.truthy = false) : Passes c (.ternary condition yes no) no
  | condition {condition no : Expr} {v : Value} (hv : eval c condition = .ok v)
      (h : v.truthy = true) : Passes c (.orElse condition no) condition
  | otherwise {condition no : Expr} {v : Value} (hv : eval c condition = .ok v)
      (h : v.truthy = false) : Passes c (.orElse condition no) no
  | left {left right : Expr} {v : Value} (hv : eval c left = .ok v) (h : v.isNull = false) :
      Passes c (.coalesce left right) left
  | right {left right : Expr} (h : ∀ v, eval c left = .ok v → v.isNull = true) :
      Passes c (.coalesce left right) right

/-- The two places where an expression goes beyond the largest float: a literal, and the product
that `round` forms. -/
inductive Overflows (c : Context) : Expr → Prop
  | literal {v : Value} (h : ¬ v.AllFinite) : Overflows c (.literal v)
  | round {function : String} {args : List Expr} {vs : List Value} {y : Float}
      (hf : Function.ofName? function = some .round) (hvs : evalArgs c function 0 args = .ok vs)
      (hy : Function.Scales vs y) (h : Double.isFinite y = false) :
      Overflows c (.call function args)

/-- Nothing that is passed on to the value of the expression overflows. -/
def InBounds (c : Context) (e : Expr) : Prop :=
  ∀ e', Relation.ReflTransGen (Passes c) e e' → ¬ Overflows c e'

theorem InBounds.passes {c : Context} {e e' : Expr} (h : InBounds c e) (he : Passes c e e') :
    InBounds c e' :=
  fun e'' he'' => h e'' (.head he he'')

theorem InBounds.of_passes {c : Context} {e : Expr} (he : ¬ Overflows c e)
    (hparts : ∀ e', Passes c e e' → InBounds c e') : InBounds c e := by
  intro e' he'
  rcases he'.cases_head with rfl | ⟨e'', hpart, he'⟩
  · exact he
  · exact hparts e'' hpart e' he'

/-! ## Evaluation -/

section

variable {c : Context}

mutual

theorem finiteResult_eval (hc : c.toValue.AllFinite) (e : Expr) (he : InBounds c e) :
    FiniteResult (eval c e) := by
  cases e with
  | literal v =>
    rw [eval, finiteResult_ok]
    by_contra hv
    exact he _ .refl (.literal hv)
  | var x =>
    rw [eval, finiteResult_ok]
    cases hx : c.get? x with
    | none => simp
    | some v => exact Context.get?_allFinite hc hx
  | name x =>
    rw [eval]
    split
    · next v hx => exact (finiteResult_ok v).mpr (Context.get?_allFinite hc hx)
    · simp
  | list items =>
    rw [eval]
    split
    · next vs hvs =>
      rw [finiteResult_ok, Value.allFinite_list]
      exact allFinite_evalItems hc items (fun e he' => he.passes (.item he')) hvs
    · simp
  | member object key =>
    have hobject := finiteResult_eval hc object (he.passes .object)
    rw [eval]
    split
    · next v hv =>
      rw [finiteResult_ok]
      cases hw : v.get? key with
      | none => simp
      | some w => exact (hobject v hv).get? hw
    · simp
  | index object place =>
    have hobject := finiteResult_eval hc object (he.passes .indexed)
    rw [eval]
    split
    · simp
    · next v hv =>
      split
      · simp
      · exact (finiteResult_ok _).mpr (indexValue_allFinite (hobject v hv) _)
  | call function args =>
    rw [eval]
    split
    · next vs hvs =>
      have hargs := allFinite_evalArgs hc function 0 args
        (fun e he' => he.passes (.argument he')) hvs
      unfold callFunction
      split
      · next f hf =>
        refine Function.finiteResult_apply hargs ?_
        rintro rfl y hy
        by_contra hfinite
        exact he _ .refl (.round hf hvs hy (Bool.eq_false_of_not_eq_true hfinite))
      · simp
    · simp
  | unary op operand =>
    have hoperand := finiteResult_eval hc operand (he.passes .operand)
    rw [eval]
    split
    · next v hv => exact finiteResult_applyUnary op (hoperand v hv)
    · simp
  | binary op left right =>
    rw [eval]
    split
    · simp
    · split
      · simp
      · split
        · simp
        · split
          · simp
          · exact finiteResult_applyBinary _ _ _
  | ternary condition yes no =>
    rw [eval]
    split
    · simp
    · next v hv =>
      split
      · next h => exact finiteResult_eval hc yes (he.passes (.yes hv h))
      · next h =>
        exact finiteResult_eval hc no (he.passes (.no hv (Bool.eq_false_of_not_eq_true h)))
  | orElse condition no =>
    rw [eval]
    split
    · simp
    · next v hv =>
      split
      · next h =>
        have hcondition := finiteResult_eval hc condition (he.passes (.condition hv h))
        exact (finiteResult_ok v).mpr (hcondition v hv)
      · next h =>
        exact finiteResult_eval hc no (he.passes (.otherwise hv (Bool.eq_false_of_not_eq_true h)))
  | coalesce left right =>
    rw [eval]
    split
    · next v hv =>
      split
      · next h =>
        refine finiteResult_eval hc right (he.passes (.right ?_))
        rintro w hw
        rw [hv] at hw
        cases hw
        exact h
      · next h =>
        have hleft := finiteResult_eval hc left
          (he.passes (.left hv (Bool.eq_false_of_not_eq_true h)))
        exact (finiteResult_ok v).mpr (hleft v hv)
    · next e hv =>
      refine finiteResult_eval hc right (he.passes (.right ?_))
      rintro w hw
      rw [hv] at hw
      cases hw

theorem allFinite_evalItems (hc : c.toValue.AllFinite) (es : List Expr)
    (hes : ∀ e ∈ es, InBounds c e) {vs : List Value} (h : evalItems c es = .ok vs) :
    ∀ v ∈ vs, v.AllFinite := by
  cases es with
  | nil =>
    rw [evalItems] at h
    cases h
    simp
  | cons e es =>
    have hhead := finiteResult_eval hc e (hes e (by simp))
    rw [evalItems] at h
    split at h
    · cases h
    · next v hv =>
      split at h
      · cases h
      · next vs hvs =>
        cases h
        have htail := allFinite_evalItems hc es (fun e he => hes e (by simp [he])) hvs
        exact List.forall_mem_cons.mpr ⟨hhead v hv, htail⟩

theorem allFinite_evalArgs (hc : c.toValue.AllFinite) (function : String) (position : Nat)
    (es : List Expr) (hes : ∀ e ∈ es, InBounds c e) {vs : List Value}
    (h : evalArgs c function position es = .ok vs) : ∀ v ∈ vs, v.AllFinite := by
  cases es with
  | nil =>
    rw [evalArgs] at h
    cases h
    simp
  | cons e es =>
    have hhead := finiteResult_eval hc e (hes e (by simp))
    have hforgiven : FiniteResult (match eval c e with
        | .ok v => Except.ok v
        | .error e => if Function.forgives function position then .ok .null else .error e) := by
      split
      · next v hv => exact (finiteResult_ok v).mpr (hhead v hv)
      · split <;> simp
    rw [evalArgs] at h
    split at h
    · cases h
    · next v hv =>
      split at h
      · cases h
      · next vs hvs =>
        cases h
        have htail := allFinite_evalArgs hc function (position + 1) es
          (fun e he => hes e (by simp [he])) hvs
        exact List.forall_mem_cons.mpr ⟨hforgiven v hv, htail⟩

end

end

/-! ## Rounding a variable -/

theorem primary_round (n : String) (k : Int64) :
    Primary Expression
      [.name "round", .symbol .lParen, .var n, .symbol .comma, .int k, .symbol .rParen]
      (.call "round" [.var n, .literal (.int k)]) := by
  have hname : lowerName "round" = "round" := by decide
  have hcall := Primary.call (n := "round") (by decide)
    (.cons (expression_of_primary (.var n)) (.last (expression_of_primary (.int k))))
  rwa [hname] at hcall

section

variable {c : Context} {n : String} {x : Float} (k : Int64)

theorem evalArgs_round (hx : c.get? n = some (.float x)) :
    evalArgs c "round" 0 [.var n, .literal (.int k)] = .ok [.float x, .int k] := by
  simp [evalArgs, eval, hx]

/-- Rounding a variable goes through the product with the power of ten, and back. -/
theorem eval_round (hx : c.get? n = some (.float x)) :
    eval c (.call "round" [.var n, .literal (.int k)]) =
      .ok (Function.roundNumber (Min.min k.toInt.toNat 15) (.float x)).toValue := by
  rw [eval, evalArgs_round k hx]
  rfl

theorem inBounds_round (hx : c.get? n = some (.float x))
    (h : Double.isFinite (x * Float.ofNat (tenTo (Min.min k.toInt.toNat 15))) = true) :
    InBounds c (.call "round" [.var n, .literal (.int k)]) := by
  refine .of_passes ?_ ?_
  · intro hoverflow
    cases hoverflow with
    | round hf hvs hy hinfinite =>
      rw [evalArgs_round k hx] at hvs
      cases hvs
      cases hy with
      | places hv hp =>
        cases hv
        cases hp
        rw [h] at hinfinite
        cases hinfinite
  · intro e he
    cases he with
    | argument he =>
      simp only [List.mem_cons, List.not_mem_nil, or_false] at he
      rcases he with rfl | rfl
      · exact .of_passes nofun nofun
      · exact .of_passes (by rintro ⟨hk⟩; simp at hk) nofun

end

/-! ## Main theorem -/

/-- **Evaluation produces only finite numbers**, if the context holds no others and nothing that is
passed on to the value goes beyond the largest float in a literal or in `round`. -/
theorem allFinite_of_tryEvaluate {s : List Char} {c : Context} {v : Value}
    (hc : c.toValue.AllFinite) (hs : ∀ e, parse s = .ok e → InBounds c e)
    (h : tryEvaluate s c = .ok v) : v.AllFinite := by
  unfold tryEvaluate at h
  split at h
  · next e he => exact finiteResult_eval hc e (hs e he) v h
  · cases h

/-- The literal is too large for a float, but its branch is not taken. -/
theorem allFinite_of_tryEvaluate_round :
    let s := "round($mass, 2) ?: 1e999".toList
    let c := Context.ofList [("mass", .float 2.675)]
    c.toValue.AllFinite ∧ (∀ e, parse s = .ok e → InBounds c e) ∧
      ∃ v, tryEvaluate s c = .ok v ∧ v.AllFinite := by
  intro s c
  have hc : c.toValue.AllFinite := by
    have hmass : Double.isFinite 2.675 = true := by decide +kernel
    have hentries : c.toValue = .map [("mass", .float 2.675)] := rfl
    rw [hentries, Value.allFinite_map]
    simpa using hmass
  have hmass : c.get? "mass" = some (.float 2.675) := rfl
  have hlex : lex s = .ok [.name "round", .symbol .lParen, .var "mass", .symbol .comma, .int 2,
      .symbol .rParen, .symbol .question, .symbol .colon, .float (FloatText.nearest 1 999)] := rfl
  have hparse : parse s = .ok (.orElse (.call "round" [.var "mass", .literal (.int 2)])
      (.literal (.float (FloatText.nearest 1 999)))) := by
    rw [parse, hlex]
    have hround := coalesced_of_sum (.operand (operand_of_primary (primary_round "mass" 2)))
    exact ofTokens_of_expression (.mk (.short hround (expression_of_primary (.float _))))
  have hround := eval_round 2 hmass
  have htrue : (Function.roundNumber (Min.min (2 : Int64).toInt.toNat 15)
      (.float 2.675)).toValue.truthy = true := by
    decide +kernel
  have hs : ∀ e, parse s = .ok e → InBounds c e := by
    intro e he
    obtain rfl := Except.ok.inj (hparse.symm.trans he)
    refine .of_passes nofun ?_
    intro e he
    cases he with
    | condition => exact inBounds_round 2 hmass (by decide +kernel)
    | otherwise hv hfalse =>
      rw [hround] at hv
      cases hv
      rw [htrue] at hfalse
      cases hfalse
  have hvalue : tryEvaluate s c = .ok (Function.roundNumber (Min.min (2 : Int64).toInt.toNat 15)
      (.float 2.675)).toValue := by
    rw [tryEvaluate, hparse]
    show eval c (.orElse _ _) = _
    rw [eval, hround]
    simp only [htrue, if_true]
  exact ⟨hc, hs, _, hvalue, allFinite_of_tryEvaluate hc hs hvalue⟩

/-- Neither the literal nor the product in `round` is an error when it is too large. -/
theorem tryEvaluate_infinite :
    let c := Context.ofList [("mass", .float (Float.ofBits 0x7FEFFFFFFFFFFFFF))]
    c.toValue.AllFinite ∧
      ∃ x y, tryEvaluate "1e999".toList c = .ok (.float x) ∧ Double.isFinite x = false ∧
        tryEvaluate "round($mass, 15)".toList c = .ok (.float y) ∧ Double.isFinite y = false := by
  intro c
  have hc : c.toValue.AllFinite := by
    have hmass : Double.isFinite (Float.ofBits 0x7FEFFFFFFFFFFFFF) = true := by decide +kernel
    have hentries : c.toValue = .map [("mass", .float (Float.ofBits 0x7FEFFFFFFFFFFFFF))] := rfl
    rw [hentries, Value.allFinite_map]
    simpa using hmass
  have hlex : lex "round($mass, 15)".toList = .ok
      [.name "round", .symbol .lParen, .var "mass", .symbol .comma, .int 15, .symbol .rParen] := rfl
  have hparse : parse "round($mass, 15)".toList =
      .ok (.call "round" [.var "mass", .literal (.int 15)]) := by
    rw [parse, hlex]
    exact ofTokens_of_expression (expression_of_primary (primary_round "mass" 15))
  have hvalue : tryEvaluate "round($mass, 15)".toList c =
      eval c (.call "round" [.var "mass", .literal (.int 15)]) := by
    rw [tryEvaluate, hparse]
  have hround := hvalue.trans (eval_round 15 rfl)
  exact ⟨hc, _, _, rfl, by decide +kernel, hround, by decide +kernel⟩

end Expr

end Stencil
