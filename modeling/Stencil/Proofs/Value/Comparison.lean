import Stencil.Expr.Arith
import Stencil.Proofs.Value.Laws

/-!
Comparing integers and decimals.

Two integers, or two decimals, are ordered by their exact numbers; loose equality, and the order of
an integer and a decimal, go by way of floats. For whole numbers this is rounding, which keeps the
order but may make two numbers one (`signedRank`), and does not do so up to `2 ^ 53`. So what is
exact is said about whole numbers (`comparison_of_exact`); past that bound loose equality is not
equality (`looseEq_not_exact`).
-/

namespace Stencil

namespace Value

/-- The value is an integer or a decimal, and this number. -/
inductive IsExact : Value → ℚ → Prop
  | int (n : Int64) : IsExact (.int n) n.toInt
  | decimal (d : Decimal) : IsExact (.decimal d) d.value

variable {a b : Value} {x y : ℚ} {m n : Int}

/-! ## Whole numbers as floats -/

theorem IsExact.exists_rank? (h : a.IsExact n) :
    ∃ f, a.toFloat? = some f ∧ Double.rank? f = some (signedRank n) := by
  generalize hx : (n : ℚ) = x at h
  cases h with
  | int k =>
    have hk : n = k.toInt := by exact_mod_cast hx
    have hlow := k.le_toInt
    have hhigh := k.toInt_lt
    exact ⟨_, rfl, by rw [hk]; exact rank?_ofInt (by omega)⟩
  | decimal d => exact ⟨_, rfl, Decimal.rank?_toFloat hx.symm⟩

theorem IsExact.looseEq (ha : a.IsExact m) (hb : b.IsExact n) :
    a.looseEq b = (signedRank m == signedRank n) := by
  have hfloats : a.looseEq b = (sameFloat? a b).getD false := by
    generalize (m : ℚ) = x at ha
    generalize (n : ℚ) = y at hb
    cases ha <;> cases hb <;> rfl
  obtain ⟨f, hf, hfr⟩ := ha.exists_rank?
  obtain ⟨g, hg, hgr⟩ := hb.exists_rank?
  rw [hfloats, sameFloat?, hf, hg]
  simp only [Option.getD_some, Double.equal, hfr, hgr]

/-- A map that keeps the order keeps every comparison of two numbers that it keeps apart. -/
theorem compare_map {α β : Type} [LinearOrder α] [LinearOrder β] {f : α → β} (hf : Monotone f)
    {x y : α} (h : f x = f y → x = y) : compare (f x) (f y) = compare x y := by
  rcases lt_trichotomy x y with hlt | rfl | hgt
  · rw [compare_lt_iff_lt.mpr hlt, compare_lt_iff_lt]
    exact lt_of_le_of_ne (hf hlt.le) fun heq => hlt.ne (h heq)
  · rw [compare_eq_iff_eq.mpr rfl, compare_eq_iff_eq.mpr rfl]
  · rw [compare_gt_iff_gt.mpr hgt, compare_gt_iff_gt]
    exact lt_of_le_of_ne (hf hgt.le) fun heq => hgt.ne' (h heq.symm)

theorem compare_intCast (m n : Int) : compare (m : ℚ) (n : ℚ) = compare m n :=
  compare_map (fun _ _ h => by exact_mod_cast h) fun h => by exact_mod_cast h

/-- Two integers, and two decimals, are in the order of their numbers. -/
theorem IsExact.order?_of_sameType (ha : a.IsExact x) (hb : b.IsExact y)
    (htype : a.typeName = b.typeName) : a.order? b = some (compare x y) := by
  cases ha with
  | int j =>
    cases hb with
    | int k =>
      rw [compare_intCast]
      rfl
    | decimal e => exact absurd htype (by simp [typeName])
  | decimal d =>
    cases hb with
    | int k => exact absurd htype (by simp [typeName])
    | decimal e => exact congrArg some (d.order_eq_compare e)

theorem IsExact.order?_of_typeName_ne (ha : a.IsExact m) (hb : b.IsExact n)
    (htype : a.typeName ≠ b.typeName) :
    a.order? b = some (compare (signedRank m) (signedRank n)) := by
  obtain ⟨f, hf, hfr⟩ := ha.exists_rank?
  obtain ⟨g, hg, hgr⟩ := hb.exists_rank?
  have hfloats : a.order? b = Double.order? f g := by
    generalize (m : ℚ) = x at ha
    generalize (n : ℚ) = y at hb
    cases ha <;> cases hb <;> first
      | exact absurd rfl htype
      | simp only [order?, hf, hg]; rfl
  rw [hfloats]
  simp only [Double.order?, hfr, hgr]

theorem signedRank_injOn (hm : -2 ^ 53 ≤ m ∧ m ≤ 2 ^ 53) (hn : -2 ^ 53 ≤ n ∧ n ≤ 2 ^ 53)
    (h : signedRank m = signedRank n) : m = n := by
  rcases lt_trichotomy m n with hlt | rfl | hgt
  · exact absurd h (signedRank_lt hlt hm.1 hn.2).ne
  · rfl
  · exact absurd h (signedRank_lt hgt hn.1 hm.2).ne'

/-! ## The order of numbers -/

theorem IsExact.order?_eq_compare (ha : a.IsExact m) (hb : b.IsExact n)
    (h : signedRank m = signedRank n → m = n) : a.order? b = some (compare m n) := by
  by_cases htype : a.typeName = b.typeName
  · rw [ha.order?_of_sameType hb htype, compare_intCast]
  · rw [ha.order?_of_typeName_ne hb htype, compare_map (fun _ _ => signedRank_mono) h]

/-- **What can be relied on when integers and decimals are compared.** Two of one kind are ordered
by their exact numbers. Whole numbers of any kind are loosely equal when they are equal, and in
their order when they are not loosely equal; and up to `2 ^ 53` they are loosely equal only when
they are equal, and in their order. -/
theorem comparison_of_exact (ha : a.IsExact x) (hb : b.IsExact y) :
    (a.typeName = b.typeName → a.order? b = some (compare x y)) ∧
    ∀ m n : Int, x = m → y = n →
      (m = n → a.looseEq b = true ∧ a.order? b = some .eq) ∧
      (a.looseEq b = false → a.order? b = some (compare m n)) ∧
      (-2 ^ 53 ≤ m ∧ m ≤ 2 ^ 53 → -2 ^ 53 ≤ n ∧ n ≤ 2 ^ 53 →
        a.looseEq b = decide (m = n) ∧ a.order? b = some (compare m n)) := by
  refine ⟨ha.order?_of_sameType hb, ?_⟩
  rintro m n rfl rfl
  have hloose : a.looseEq b = true ↔ signedRank m = signedRank n := by
    rw [ha.looseEq hb, beq_iff_eq]
  refine ⟨?_, ?_, ?_⟩
  · rintro rfl
    refine ⟨hloose.mpr rfl, ?_⟩
    rw [ha.order?_eq_compare hb fun _ => rfl, compare_eq_iff_eq.mpr rfl]
  · intro hfalse
    refine ha.order?_eq_compare hb fun hrank => ?_
    rw [hloose.mpr hrank] at hfalse
    cases hfalse
  · intro hm hn
    refine ⟨?_, ha.order?_eq_compare hb (signedRank_injOn hm hn)⟩
    rw [Bool.eq_iff_iff, decide_eq_true_iff, hloose]
    exact ⟨signedRank_injOn hm hn, fun h => h ▸ rfl⟩

/-- The last integer that no other one is taken for, and a decimal with places. -/
theorem comparison_of_exact_places :
    let a := Value.int 9007199254740992
    let b := Value.decimal ⟨true, 300, 2, by decide, by decide⟩
    a.IsExact (9007199254740992 : Int) ∧ b.IsExact (-3 : Int) ∧
      a.looseEq b = false ∧ a.order? b = some .gt := by
  intro a b
  have ha : a.IsExact (9007199254740992 : Int) := .int _
  have hvalue : Decimal.value ⟨true, 300, 2, by decide, by decide⟩ = (-3 : Int) := by
    norm_num [Decimal.value, Decimal.units]
  have hb : b.IsExact (-3 : Int) := hvalue ▸ .decimal _
  have h := ((comparison_of_exact ha hb).2 _ _ rfl rfl).2.2 (by decide) (by decide)
  exact ⟨ha, hb, h.1, h.2⟩

/-- Past `2 ^ 53` the float of an integer may be that of its neighbour: numbers that are in order are
loosely equal. -/
theorem looseEq_not_exact :
    (int 9007199254740993).order? (int 9007199254740992) = some .gt ∧
    (int 9007199254740993).looseEq (int 9007199254740992) = true := by
  decide +kernel

end Value

end Stencil
