import Stencil.Proofs.Expr.Safety
import Stencil.Proofs.Value.Kinds

/-!
The least and the greatest of some values.

The values are gone through one by one, and the best one so far changes places only with a value
that stands to it as it should (`Best`). A value without an order beside the best one of those in
front of it is an error, and there is no other (`extremeFrom_eq_error_iff`). Values of one kind have
a transitive order, so the best one so far is always the first of those that no value so far goes
beyond: that is kept by one step (`IsFirstExtreme.concat`), and hence by all of them. Main
statement: `callFunction_min_max`.
-/

namespace Stencil.Expr

open Machine (comparedItems firstExtreme extreme_of_items)
open Stencil.Expr.Function (extremeFrom)

variable {name : String} {wanted : Ordering}

/-! ## Going through the values -/

/-- The best of some values: the first one, until another stands to it as `wanted`. -/
inductive Best (wanted : Ordering) : List Value → Value → Prop
  | first (v : Value) : Best wanted [v] v
  | next {items : List Value} {b v : Value} {o : Ordering} : Best wanted items b →
      v.order? b = some o → Best wanted (items ++ [v]) (if o == wanted then v else b)

theorem Best.mem {items : List Value} {b : Value} (h : Best wanted items b) : b ∈ items := by
  induction h with
  | first v => exact List.mem_singleton_self v
  | next _ _ ih =>
    split
    · exact List.mem_append_right _ (List.mem_singleton_self _)
    · exact List.mem_append_left _ ih

theorem Best.ne_nil {items : List Value} {b : Value} (h : Best wanted items b) : items ≠ [] :=
  List.ne_nil_of_mem h.mem

theorem extremeFrom_append (name : String) (wanted : Ordering) (best : Value)
    (vs ws : List Value) :
    extremeFrom name wanted best (vs ++ ws) =
      (extremeFrom name wanted best vs).bind fun b => extremeFrom name wanted b ws := by
  induction vs generalizing best with
  | nil => rfl
  | cons v vs ih =>
    rw [List.cons_append, extremeFrom, extremeFrom]
    cases v.order? best with
    | none => rfl
    | some o => exact ih _

theorem firstExtreme_concat {items : List Value} (hitems : items ≠ []) (v : Value) :
    firstExtreme name wanted (items ++ [v]) =
      (firstExtreme name wanted items).bind fun b => extremeFrom name wanted b [v] := by
  obtain ⟨u, us, rfl⟩ := List.exists_cons_of_ne_nil hitems
  exact extremeFrom_append name wanted u us [v]

theorem firstExtreme_eq_ok_iff_best {items : List Value} (hitems : items ≠ []) {b : Value} :
    firstExtreme name wanted items = .ok b ↔ Best wanted items b := by
  constructor
  · intro h
    induction items using List.reverseRecOn generalizing b with
    | nil => exact absurd rfl hitems
    | append_singleton items v ih =>
      by_cases hnil : items = []
      · subst hnil
        cases h
        exact .first v
      · rw [firstExtreme_concat hnil] at h
        cases hbest : firstExtreme name wanted items with
        | error e =>
          rw [hbest] at h
          cases h
        | ok u =>
          rw [hbest, Except.bind, extremeFrom] at h
          cases ho : v.order? u with
          | none =>
            rw [ho] at h
            cases h
          | some o =>
            rw [ho] at h
            cases h
            exact .next (ih hnil hbest) ho
  · intro h
    induction h with
    | first v => rfl
    | next hbest ho ih =>
      rw [firstExtreme_concat hbest.ne_nil, ih hbest.ne_nil, Except.bind, extremeFrom, ho]
      rfl

theorem firstExtreme_eq_ok_iff {items : List Value} {v : Value} :
    firstExtreme name wanted items = .ok v ↔ Best wanted items v ∨ items = [] ∧ v = .null := by
  by_cases hitems : items = []
  · subst hitems
    constructor
    · rintro ⟨⟩
      exact .inr ⟨rfl, rfl⟩
    · rintro (hbest | ⟨-, rfl⟩)
      · exact absurd rfl hbest.ne_nil
      · rfl
  · rw [firstExtreme_eq_ok_iff_best hitems]
    exact ⟨.inl, fun h => h.resolve_right fun hnil => hitems hnil.1⟩

/-- The error is that of the first value that has no order beside the best one in front of it. -/
theorem extremeFrom_eq_error_iff {best : Value} {vs : List Value} {e : EvalError} :
    extremeFrom name wanted best vs = .error e ↔
      ∃ before v after b, vs = before ++ v :: after ∧
        extremeFrom name wanted best before = .ok b ∧ v.order? b = none ∧
        e = .typeFault (.incomparableIn name v.typeName b.typeName) := by
  induction vs generalizing best with
  | nil =>
    constructor
    · nofun
    · rintro ⟨before, v, after, b, hvs, _⟩
      cases before <;> cases hvs
  | cons v vs ih =>
    rw [extremeFrom]
    cases ho : v.order? best with
    | none =>
      constructor
      · rintro ⟨⟩
        exact ⟨[], v, vs, best, rfl, rfl, ho, rfl⟩
      · rintro ⟨before, w, after, b, hvs, hbefore, hnone, rfl⟩
        cases before with
        | nil =>
          cases hvs
          cases hbefore
          rfl
        | cons u before =>
          cases hvs
          rw [extremeFrom, ho] at hbefore
          cases hbefore
    | some o =>
      dsimp only
      rw [ih]
      constructor
      · rintro ⟨before, w, after, b, rfl, hbefore, hrest⟩
        refine ⟨v :: before, w, after, b, rfl, ?_, hrest⟩
        rw [extremeFrom, ho]
        exact hbefore
      · rintro ⟨before, w, after, b, hvs, hbefore, hnone, he⟩
        cases before with
        | nil =>
          cases hvs
          cases hbefore
          cases ho.symm.trans hnone
        | cons u before =>
          cases hvs
          rw [extremeFrom, ho] at hbefore
          exact ⟨before, w, after, b, rfl, hbefore, hnone, he⟩

theorem firstExtreme_eq_error_iff {items : List Value} {e : EvalError} :
    firstExtreme name wanted items = .error e ↔
      ∃ before v after b, items = before ++ v :: after ∧ Best wanted before b ∧
        v.order? b = none ∧ e = .typeFault (.incomparableIn name v.typeName b.typeName) := by
  cases items with
  | nil =>
    constructor
    · nofun
    · rintro ⟨before, v, after, b, hitems, _⟩
      cases before <;> cases hitems
  | cons u us =>
    rw [firstExtreme, extremeFrom_eq_error_iff]
    constructor
    · rintro ⟨before, v, after, b, rfl, hbefore, hrest⟩
      have hbest := (firstExtreme_eq_ok_iff_best (List.cons_ne_nil u before)).mp hbefore
      exact ⟨u :: before, v, after, b, rfl, hbest, hrest⟩
    · rintro ⟨before, v, after, b, hitems, hbest, hrest⟩
      obtain ⟨w, before, rfl⟩ := List.exists_cons_of_ne_nil hbest.ne_nil
      cases hitems
      have hbefore : firstExtreme name wanted (u :: before) = .ok b :=
        (firstExtreme_eq_ok_iff_best (List.cons_ne_nil u before)).mpr hbest
      exact ⟨before, v, after, b, rfl, hbefore, hrest⟩

/-! ## The first extreme -/

/-- Of these values none stands to `v` as `wanted`, and `v` stands so to each one in front of it. -/
def IsFirstExtreme (wanted : Ordering) (items : List Value) (v : Value) : Prop :=
  ∃ before after, items = before ++ v :: after ∧
    (∀ w ∈ items, w.order? v ≠ some wanted) ∧ ∀ w ∈ before, v.order? w = some wanted

section

variable {cmp : Value → Value → Ordering} [Std.TransCmp cmp] {u v w : Value}

theorem ne_of_order (hwanted : wanted = .lt ∨ wanted = .gt) (h : cmp v w = wanted) :
    cmp w v ≠ wanted := by
  have hswap : cmp w v = (cmp v w).swap := Std.OrientedCmp.eq_swap
  rw [hswap, h]
  obtain rfl | rfl := hwanted <;> decide

/-- What is before a value is before all that the value is not behind, and so with greater ones. -/
theorem order_of_ne (hwanted : wanted = .lt ∨ wanted = .gt) (h : cmp u v = wanted)
    (hne : cmp w v ≠ wanted) : cmp u w = wanted := by
  have hswap : cmp v w = (cmp w v).swap := Std.OrientedCmp.eq_swap
  obtain rfl | rfl := hwanted
  · refine Std.TransCmp.lt_of_lt_of_isLE h ?_
    rw [hswap, Ordering.isLE_swap]
    exact Ordering.isGE_iff_ne_lt.mpr hne
  · refine Std.TransCmp.gt_of_gt_of_isGE h ?_
    rw [hswap, Ordering.isGE_swap]
    exact Ordering.isLE_iff_ne_gt.mpr hne

/-- One more value: the first extreme of the others, or the new one if it goes beyond that. -/
theorem IsFirstExtreme.concat (hwanted : wanted = .lt ∨ wanted = .gt) {items : List Value}
    (horder : Value.OrderedBy cmp (items ++ [v])) (h : IsFirstExtreme wanted items u) :
    IsFirstExtreme wanted (items ++ [v]) (if cmp v u == wanted then v else u) := by
  obtain ⟨before, after, hitems, hnone, hbefore⟩ := h
  have hu : u ∈ items ++ [v] := by simp [hitems]
  have hv : v ∈ items ++ [v] := List.mem_append_right _ (List.mem_singleton_self v)
  by_cases hwins : cmp v u = wanted
  · have hall : ∀ w ∈ items, cmp v w = wanted := by
      intro w hw
      refine order_of_ne hwanted hwins fun heq => hnone w hw ?_
      rw [horder w (List.mem_append_left _ hw) u hu, heq]
    rw [if_pos (beq_iff_eq.mpr hwins)]
    refine ⟨items, [], rfl, fun w hw => ?_, fun w hw => ?_⟩
    · rw [horder w hw v hv]
      intro heq
      rcases List.mem_append.mp hw with hitem | hlast
      · exact ne_of_order hwanted (hall w hitem) (Option.some.inj heq)
      · rw [List.mem_singleton.mp hlast] at heq
        exact ne_of_order hwanted (Option.some.inj heq) (Option.some.inj heq)
    · rw [horder v hv w (List.mem_append_left _ hw), hall w hw]
  · rw [if_neg fun heq => hwins (beq_iff_eq.mp heq)]
    refine ⟨before, after ++ [v], by rw [hitems]; simp, fun w hw => ?_, hbefore⟩
    rcases List.mem_append.mp hw with hitem | hlast
    · exact hnone w hitem
    · rw [List.mem_singleton.mp hlast, horder v hv u hu]
      exact fun heq => hwins (Option.some.inj heq)

/-- Values that can all be compared have a best one, and it is their first extreme. -/
theorem exists_best_isFirstExtreme (hwanted : wanted = .lt ∨ wanted = .gt) {items : List Value}
    (hitems : items ≠ []) (horder : Value.OrderedBy cmp items) :
    ∃ b, Best wanted items b ∧ IsFirstExtreme wanted items b := by
  induction items using List.reverseRecOn with
  | nil => exact absurd rfl hitems
  | append_singleton items v ih =>
    by_cases hnil : items = []
    · subst hnil
      have hself : v.order? v ≠ some wanted := by
        have hv : v ∈ [] ++ [v] := List.mem_singleton_self v
        rw [horder v hv v hv]
        exact fun heq => ne_of_order hwanted (Option.some.inj heq) (Option.some.inj heq)
      exact ⟨v, .first v, [], [], rfl, List.forall_mem_singleton.mpr hself, nofun⟩
    · have hrest : Value.OrderedBy cmp items := fun u hu w hw =>
        horder u (List.mem_append_left _ hu) w (List.mem_append_left _ hw)
      obtain ⟨b, hbest, hfirst⟩ := ih hnil hrest
      have ho : v.order? b = some (cmp v b) :=
        horder v (List.mem_append_right _ (List.mem_singleton_self v)) b
          (List.mem_append_left _ hbest.mem)
      exact ⟨_, hbest.next ho, hfirst.concat hwanted horder⟩

end

/-! ## Calls -/

/-- The two functions, and how the value that they look for stands to the others. -/
def Seeks (name : String) (wanted : Ordering) : Prop :=
  name = "min" ∧ wanted = .lt ∨ name = "max" ∧ wanted = .gt

theorem callFunction_of_seeks (h : Seeks name wanted) {args : List Value} (hargs : args ≠ []) :
    callFunction name args = firstExtreme name wanted (comparedItems args) := by
  have hempty : ¬ args.isEmpty = true := by simpa using hargs
  obtain ⟨rfl, rfl⟩ | ⟨rfl, rfl⟩ := h
  · exact (extreme_of_items _ _ args).trans (if_neg hempty)
  · exact (extreme_of_items _ _ args).trans (if_neg hempty)

theorem comparedItems_list (items : List Value) : comparedItems [.list items] = items :=
  Value.map_snd_indexed items

theorem comparedItems_map (entries : List (String × Value)) :
    comparedItems [.map entries] = entries.map (·.2) := by
  have hitems : comparedItems [.map entries] =
      (entries.map fun e => (Value.str e.1, e.2)).map (·.2) := rfl
  rw [hitems, List.map_map]
  rfl

/-- **The first extreme.** Of values of one kind, given as a list, as a map or as two or more
arguments, the result is one of which no other is less, or greater, and it is less, or greater, than
each one in front of it. Of any arguments the result is the best of the values, which is one of
them, or null if there are none in a collection; and it is an error if and only if a value has no
order beside the best one of those in front of it, and then it is a fault of types that names the
two. -/
theorem callFunction_min_max (hname : Seeks name wanted) :
    (∀ items args, items ≠ [] → Value.OfOneKind items →
      (args = [.list items] ∨ (∃ entries, entries.map (·.2) = items ∧ args = [.map entries]) ∨
        args = items ∧ 2 ≤ items.length) →
      ∃ before v after, callFunction name args = .ok v ∧ items = before ++ v :: after ∧
        (∀ w ∈ items, w.order? v ≠ some wanted) ∧ ∀ w ∈ before, v.order? w = some wanted) ∧
    ∀ args, args ≠ [] →
      let items := comparedItems args
      (∀ v, callFunction name args = .ok v ↔ Best wanted items v ∨ items = [] ∧ v = .null) ∧
      (∀ v, Best wanted items v → v ∈ items) ∧
      ∀ e, callFunction name args = .error e ↔
        ∃ before w after b, items = before ++ w :: after ∧ Best wanted before b ∧
          w.order? b = none ∧ e = .typeFault (.incomparableIn name w.typeName b.typeName) := by
  refine ⟨fun items args hitems hkind hargs => ?ofOneKind, fun args hargs => ?any⟩
  case ofOneKind =>
    have hcompared : args ≠ [] ∧ comparedItems args = items := by
      obtain rfl | ⟨entries, rfl, rfl⟩ | ⟨rfl, hlength⟩ := hargs
      · exact ⟨nofun, comparedItems_list items⟩
      · exact ⟨nofun, comparedItems_map entries⟩
      · match args, hlength with
        | _ :: _ :: _, _ => exact ⟨nofun, rfl⟩
    obtain ⟨cmp, _, horder⟩ := Value.exists_orderedBy hkind
    obtain ⟨v, hbest, before, after, hfirst⟩ :=
      exists_best_isFirstExtreme (hname.imp And.right And.right) hitems horder
    refine ⟨before, v, after, ?_, hfirst⟩
    rw [callFunction_of_seeks hname hcompared.1, hcompared.2]
    exact firstExtreme_eq_ok_iff.mpr (.inl hbest)
  case any =>
    rw [callFunction_of_seeks hname hargs]
    exact ⟨fun v => firstExtreme_eq_ok_iff, fun v => Best.mem, fun e => firstExtreme_eq_error_iff⟩

/-- Of two equal decimals the first, and a text that has no order beside the less of two
integers. -/
theorem callFunction_min_max_ties :
    let long : Value := .decimal ⟨false, 150, 2, by decide, by decide⟩
    let short : Value := .decimal ⟨false, 15, 1, by decide, by decide⟩
    (Seeks "min" .lt ∧ [long, short] ≠ [] ∧ Value.OfOneKind [long, short] ∧
      2 ≤ [long, short].length ∧ [Value.int 1, .int 2, .str "x"] ≠ []) ∧
    callFunction "min" [long, short] = .ok long ∧
    (∀ w ∈ [long, short], w.order? long ≠ some .lt) ∧
    callFunction "min" [.int 1, .int 2, .str "x"] =
      .error (.typeFault (.incomparableIn "min" "string" "int")) := by
  intro long short
  have hname : Seeks "min" .lt := .inl ⟨rfl, rfl⟩
  have hitems : [long, short] ≠ [] := nofun
  have hkind : Value.OfOneKind [long, short] :=
    .inr (.inl (List.forall_mem_cons.mpr ⟨⟨_, rfl⟩, List.forall_mem_singleton.mpr ⟨_, rfl⟩⟩))
  have hlength : 2 ≤ [long, short].length := Nat.le_refl 2
  have hargs : [Value.int 1, .int 2, .str "x"] ≠ [] := nofun
  obtain ⟨hofOneKind, hany⟩ := callFunction_min_max hname
  obtain ⟨before, v, after, hv, -, hnone, -⟩ :=
    hofOneKind _ _ hitems hkind (.inr (.inr ⟨rfl, hlength⟩))
  have hlong : (.ok v : Except EvalError Value) = .ok long := hv.symm.trans rfl
  cases hlong
  have horder : (Value.int 2).order? (.int 1) = some .gt := rfl
  have hbest : Best .lt [.int 1, .int 2] (.int 1) := (Best.first (.int 1)).next horder
  have htext : (Value.str "x").order? (.int 1) = none := by decide
  obtain ⟨-, -, herror⟩ := hany _ hargs
  exact ⟨⟨hname, hitems, hkind, hlength, hargs⟩, hv, hnone,
    (herror _).mpr ⟨_, .str "x", [], _, rfl, hbest, htext, rfl⟩⟩

end Stencil.Expr
