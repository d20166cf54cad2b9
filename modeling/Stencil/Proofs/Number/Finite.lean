import Stencil.Proofs.Number.Rounding

/-!
Which floats are finite.

A float is finite when its exponent bits are not all set (`Double.isFinite_iff`). What an operation
packs is finite when its exponent is in range (`Double.isFinite_ofModel_pack`), and what a finite
float unpacks to is in range, so signs and the operations that only work on the bits keep a float
finite.

A division is the one operation here that rounds. Rounding carries a number over the next power of
two at most (`inRange_roundWithAccuracy`), which leaves a quotient in range that lies a factor of
two below the largest floats. By a whole number other than one every quotient does; by one the
quotient is the dividend itself (`inRange_div_one`).
-/

namespace Stencil

open Float.Model Float.Model.UnpackedFloat

/-- A number that fits a float: its exponent is not beyond the largest one. -/
def InRange : UnpackedFloat → Prop
  | .zero _ => True
  | .finite _ _ e _ => e ≤ 971
  | .infinity _ | .notANumber => False

/-! ## Bits -/

theorem Double.isFinite_iff (x : Float) :
    Double.isFinite x = true ↔ x.toBits.toNat / 2 ^ 52 % 2048 ≠ 2047 := by
  have htwo : twoTo 52 = 2 ^ 52 := rfl
  simp only [Double.isFinite, Double.ofFloat, htwo]
  split
  · next n m e h =>
    simp only [true_iff]
    intro hall
    rw [hall] at h
    simp only [beq_self_eq_true, ↓reduceIte] at h
    split at h <;> cases h
  · next h =>
    simp only [Bool.false_eq_true, false_iff, not_not]
    by_contra hne
    rw [if_neg (by simpa using hne)] at h
    split at h
    · exact h _ _ _ rfl
    · exact h _ _ _ rfl

theorem toNat_unpackExponent (b : BitVec 64) :
    (@unpackExponent .binary64 b).toNat = b.toNat / 2 ^ 52 % 2048 := by
  rw [unpackExponent, BitVec.toNat_cast, BitVec.extractLsb_toNat, Nat.shiftRight_eq_div_pow]
  rfl

theorem Double.isFinite_ofModel_pack {u : UnpackedFloat} (h : InRange u) :
    Double.isFinite (.ofModel (.pack u)) = true := by
  rw [Double.isFinite_iff]
  show (UnpackedFloat.pack .binary64 u).toNat / 2 ^ 52 % 2048 ≠ 2047
  rw [← toNat_unpackExponent]
  cases u with
  | zero s =>
    rw [UnpackedFloat.pack, packedZero, unpackExponent_packComponents]
    decide
  | finite s m e hm =>
    have he : (e : Int) ≤ 971 := h
    have hbias : e + Format.binary64.exponentBias + (52 : Nat) = e + 1075 := by
      show e + (1023 : Nat) + (52 : Nat) = e + 1075
      omega
    simp only [UnpackedFloat.pack, hbias]
    rw [if_neg (by omega)]
    split
    · rw [unpackExponent_packComponents, BitVec.toNat_ofNat]
      omega
    · rw [unpackExponent_packComponents]
      decide
  | infinity s => exact h.elim
  | notANumber => exact h.elim

/-- A finite float taken apart: a zero, a multiple of the least exponent, or a significand of
fifty-three bits. -/
inductive FiniteForm : UnpackedFloat → Prop
  | zero (s : Sign) : FiniteForm (.zero s)
  | subnormal (s : Sign) {m : Nat} (hm : 0 < m) (hlt : m < 2 ^ 52) :
      FiniteForm (.finite s m (-1074) hm)
  | normal (s : Sign) {m : Nat} {e : Int} (hm : 0 < m) (hle : 2 ^ 52 ≤ m) (hlt : m < 2 ^ 53)
      (he : -1074 ≤ e) (he' : e ≤ 971) : FiniteForm (.finite s m e hm)

theorem FiniteForm.inRange {u : UnpackedFloat} (h : FiniteForm u) : InRange u := by
  cases h with
  | zero => trivial
  | subnormal => exact (by decide : (-1074 : Int) ≤ 971)
  | normal s hm hle hlt he he' => exact he'

theorem finiteForm_unpack {b : BitVec 64} (h : b.toNat / 2 ^ 52 % 2048 ≠ 2047) :
    FiniteForm (UnpackedFloat.unpack .binary64 b) := by
  have hmantissa : (@unpackMantissa .binary64 b).toNat < 2 ^ 52 := BitVec.isLt _
  have hexponent : (@unpackExponent .binary64 b).toNat < 2 ^ 11 := BitVec.isLt _
  rw [← toNat_unpackExponent] at h
  have hall : @unpackExponent .binary64 b ≠ -1#_ := by
    intro hall
    rw [hall] at h
    exact h rfl
  have hbias : (Format.binary64.exponentBias : Int) + (52 : Nat) = 1075 := rfl
  have hfull : (1#1 ++ @unpackMantissa .binary64 b).toNat =
      2 ^ 52 + (@unpackMantissa .binary64 b).toNat := by
    rw [BitVec.toNat_append, ← Nat.shiftLeft_add_eq_or_of_lt hmantissa]
    rfl
  rw [UnpackedFloat.unpack]
  simp only [if_neg hall, hbias]
  split
  · next hzero =>
    split
    · exact .zero _
    · rw [hzero]
      exact .subnormal _ _ hmantissa
  · next hzero =>
    have hpos : (@unpackExponent .binary64 b).toNat ≠ 0 :=
      fun h0 => hzero (BitVec.eq_of_toNat_eq h0)
    exact .normal _ _ (by omega) (by omega) (by omega) (by omega)

theorem Double.finiteForm_unpack {x : Float} (h : Double.isFinite x = true) :
    FiniteForm x.toModel.unpack :=
  Stencil.finiteForm_unpack ((Double.isFinite_iff x).mp h)

/-! ## Signs and whole parts -/

theorem InRange.neg {u : UnpackedFloat} (h : InRange u) : InRange u.neg := by
  cases u with
  | zero => trivial
  | finite s m e hm => exact h
  | infinity => exact h
  | notANumber => exact h

theorem Double.isFinite_neg {x : Float} (h : Double.isFinite x = true) :
    Double.isFinite x.neg = true :=
  Double.isFinite_ofModel_pack (Double.finiteForm_unpack h).inRange.neg

theorem Double.isFinite_ofBits {n : Nat} (hn : n < 2 ^ 64) (h : n / 2 ^ 52 % 2048 ≠ 2047) :
    Double.isFinite (Float.ofBits (UInt64.ofNat n)) = true := by
  refine Double.isFinite_ofModel_pack (FiniteForm.inRange (Stencil.finiteForm_unpack ?_))
  have hbits : (UInt64.ofNat n).toBitVec.toNat = n := Nat.mod_eq_of_lt hn
  rwa [hbits]

theorem Double.isFinite_absolute {x : Float} (h : Double.isFinite x = true) :
    Double.isFinite (Double.absolute x) = true := by
  rw [Double.isFinite_iff] at h
  have htwo : twoTo 63 = 2 ^ 63 := rfl
  rw [Double.absolute, htwo]
  apply Double.isFinite_ofBits <;> omega

theorem Double.isFinite_exactly (negative : Bool) {n : Nat} (h : n ≤ 2 ^ 52) :
    Double.isFinite (Double.exactly negative n 0) = true := by
  have htwo : twoTo 63 = 2 ^ 63 := rfl
  have htwo' : twoTo 52 = 2 ^ 52 := rfl
  have hsign : (if negative then 2 ^ 63 else 0) / 2 ^ 63 < 2 ∧
      (if negative then 2 ^ 63 else 0) % 2 ^ 63 = 0 := by
    cases negative <;> decide
  generalize hs : (if negative then 2 ^ 63 else 0) = sign at hsign
  simp only [Double.exactly, htwo, htwo', hs]
  split
  · apply Double.isFinite_ofBits <;> omega
  · next hn =>
    have hpos : n ≠ 0 := by simpa using hn
    have hlog : n.log2 ≤ 52 := Nat.le_of_lt_succ ((Nat.log2_lt hpos).mpr (by omega))
    have hfull : (n * 2 ^ (52 - n.log2)).log2 = 52 := by
      rw [log2_mul_two_pow hpos]
      omega
    obtain ⟨hlow, hhigh⟩ := (Nat.log2_eq_iff (by simpa using hpos)).mp hfull
    rw [if_neg (by omega), if_pos hlog, Nat.shiftLeft_eq]
    apply Double.isFinite_ofBits <;> omega

theorem Double.significand_lt {x : Float} {negative : Bool} {m : Nat} {q : Int}
    (h : Double.ofFloat x = .finite negative m q) : m < 2 ^ 53 := by
  have htwo : twoTo 52 = 2 ^ 52 := rfl
  simp only [Double.ofFloat, htwo] at h
  split at h
  · split at h <;> cases h
  · split at h <;> cases h <;> omega

theorem Double.isFinite_toWhole {choose : Bool → Nat → Bool → Nat}
    (hchoose : ∀ negative n half, choose negative n half ≤ n + 1) {x : Float}
    (h : Double.isFinite x = true) : Double.isFinite (Double.toWhole choose x) = true := by
  rw [Double.toWhole]
  split
  · next negative m q hx =>
    have hm := Double.significand_lt hx
    split
    · exact h
    · next hq =>
      have hunit : 2 ≤ twoTo (-q).toNat := by
        obtain ⟨k, hk⟩ : ∃ k, (-q).toNat = k + 1 := ⟨(-q).toNat - 1, by omega⟩
        rw [hk, twoTo_succ]
        have hpos := twoTo_pos k
        omega
      dsimp only
      split
      · exact h
      · apply Double.isFinite_exactly
        have hhalf : m / twoTo (-q).toNat ≤ m / 2 := Nat.div_le_div_left hunit (by decide)
        have hle := hchoose negative (m / twoTo (-q).toNat)
          (twoTo (-q).toNat ≤ 2 * (m % twoTo (-q).toNat))
        omega
  · exact h

theorem Double.isFinite_floor {x : Float} (h : Double.isFinite x = true) :
    Double.isFinite (Double.floor x) = true :=
  Double.isFinite_toWhole (by intro negative n half; split <;> omega) h

theorem Double.isFinite_ceil {x : Float} (h : Double.isFinite x = true) :
    Double.isFinite (Double.ceil x) = true :=
  Double.isFinite_toWhole (by intro negative n half; split <;> omega) h

theorem Double.isFinite_round {x : Float} (h : Double.isFinite x = true) :
    Double.isFinite (Double.round x) = true :=
  Double.isFinite_toWhole (by intro negative n half; split <;> omega) h

/-! ## Rounding -/

theorem mantissa_shiftRight (em : ExtendedMantissa) (k : Nat) :
    (em >>> k).mantissa = em.mantissa / 2 ^ k := by
  induction k with
  | zero => exact (Nat.div_one _).symm
  | succ k ih =>
    show (em >>> k).mantissa / 2 = em.mantissa / 2 ^ (k + 1)
    rw [ih, Nat.div_div_eq_div_mul, Nat.pow_succ]

theorem roundedMantissa_le (em : ExtendedMantissa) : em.roundedMantissa ≤ em.mantissa + 1 := by
  obtain ⟨m, roundBit, stickyBit⟩ := em
  cases roundBit <;> cases stickyBit <;>
    simp only [ExtendedMantissa.roundedMantissa, ExtendedMantissa.accuracy,
      Accuracy.roundToNearestEven] <;> omega

theorem mantissa_ofMantissaAndAccuracy (n : Nat) (accuracy : Accuracy) :
    (ExtendedMantissa.ofMantissaAndAccuracy n accuracy).mantissa = n := by
  cases accuracy with
  | exact => rfl
  | inexact o => cases o <;> rfl

theorem log2_le_of_lt {n k : Nat} (h : n < 2 ^ (k + 1)) : n.log2 ≤ k := by
  rcases Nat.eq_zero_or_pos n with rfl | hpos
  · exact Nat.zero_le _
  · exact Nat.le_of_lt_succ ((Nat.log2_lt (by omega)).mpr h)

theorem targetExponent_binary64 (n : Nat) (e : Int) :
    Format.binary64.targetExponent (totalExponent n e) = max ((n.log2 : Int) + e - 52) (-1074) := by
  show max ((n.log2 : Int) + 1 + e - (53 : Nat)) (-1074) = _
  omega

/-- Rounding carries a number over the next power of two at most. -/
theorem inRange_roundWithAccuracy {s : Sign} {n : Nat} {e : Int} {accuracy : Accuracy}
    (he : e ≤ 971) (hn : n.log2 + e ≤ 1022) :
    InRange (roundWithAccuracy .binary64 s n e accuracy) := by
  -- The first shift leaves `n / 2 ^ k`, which rounds to `2 ^ (n.log2 + 1 - k)` at most.
  obtain ⟨k, hk⟩ : ∃ k, (max ((n.log2 : Int) + e - 52) (-1074) - e).toNat = k := ⟨_, rfl⟩
  have hround : ∀ em : ExtendedMantissa, em.mantissa = n / 2 ^ k →
      em.roundedMantissa.log2 ≤ n.log2 + 1 - k := by
    intro em hem
    have hlt : n / 2 ^ k < 2 ^ (n.log2 + 1 - k) := by
      apply Nat.div_lt_of_lt_mul
      rw [← Nat.pow_add]
      exact Nat.lt_log2_self.trans_le (Nat.pow_le_pow_right (by decide) (by omega))
    have hle := roundedMantissa_le em
    apply log2_le_of_lt
    rw [Nat.pow_succ]
    have := Nat.two_pow_pos (n.log2 + 1 - k)
    omega
  simp only [roundWithAccuracy, shiftToTargetExponent, shiftToExponent, targetExponent_binary64, hk]
  have hlog := hround _ ((mantissa_shiftRight _ k).trans
    (congrArg (· / 2 ^ k) (mantissa_ofMantissaAndAccuracy n accuracy)))
  split
  · trivial
  · show (_ : Int) ≤ 971
    omega

/-! ## Division -/

theorem targetExponent_div (m n : Nat) (e f : Int) :
    Format.binary64.targetExponent (totalExponent m e - totalExponent n f) =
      max ((m.log2 : Int) + e - (n.log2 + f) - 53) (-1074) := by
  show max ((m.log2 : Int) + 1 + e - (n.log2 + 1 + f) - (53 : Nat)) (-1074) = _
  omega

/-- The quotient of two significands lies in range when the exponents are far enough apart. -/
theorem inRange_div {s s' : Sign} {m n : Nat} {e f : Int} {hm : 0 < m} {hn : 0 < n}
    (hlow : 2 ^ 52 ≤ n) (hhigh : n < 2 ^ 53) (h : m.log2 + e ≤ 1074 + f) :
    InRange (UnpackedFloat.div .binary64 (.finite s m e hm) (.finite s' n f hn)) := by
  have hlog : n.log2 = 52 := log2_eq hlow hhigh
  obtain ⟨t, ht⟩ :
      ∃ t, min (e - f) (max ((m.log2 : Int) + e - ((52 : Nat) + f) - 53) (-1074)) = t := ⟨_, rfl⟩
  simp only [UnpackedFloat.div, divCore, targetExponent_div, hlog, ht, Nat.shiftLeft_eq]
  obtain ⟨k, hk⟩ : ∃ k, (e - f - t).toNat = k := ⟨_, rfl⟩
  rw [hk]
  have hquotient : (m * 2 ^ k / n).log2 ≤ m.log2 + k - 52 := by
    apply log2_le_of_lt
    apply Nat.div_lt_of_lt_mul
    calc m * 2 ^ k < 2 ^ (m.log2 + 1) * 2 ^ k :=
          Nat.mul_lt_mul_of_pos_right Nat.lt_log2_self (Nat.two_pow_pos k)
      _ ≤ 2 ^ 52 * 2 ^ (m.log2 + k - 52 + 1) := by
          rw [← Nat.pow_add, ← Nat.pow_add]
          exact Nat.pow_le_pow_right (by decide) (by omega)
      _ ≤ n * 2 ^ (m.log2 + k - 52 + 1) := Nat.mul_le_mul_right _ hlow
  apply inRange_roundWithAccuracy <;> omega

/-- The quotient by one of a number with the largest exponent is that number. -/
theorem inRange_div_one {s s' : Sign} {m n : Nat} {hm : 0 < m} {hn : 0 < n} (hone : n = 2 ^ 52)
    (hle : 2 ^ 52 ≤ m) (hlt : m < 2 ^ 53) :
    InRange (UnpackedFloat.div .binary64 (.finite s m 971 hm) (.finite s' n (-52) hn)) := by
  have hlog : m.log2 = 52 := log2_eq hle hlt
  have hlog' : n.log2 = 52 := log2_eq (Nat.le_of_eq hone.symm) (by omega)
  have hplaces : (971 - -52 - min (971 - -52)
      (max (((52 : Nat) : Int) + 971 - ((52 : Nat) + -52) - 53) (-1074))).toNat = 53 := rfl
  have hshift : m * 2 ^ 53 = m * 2 ^ 1 * n := by rw [hone, Nat.mul_assoc, ← Nat.pow_add]
  have hcore : divCore .binary64 m 971 n (-52) =
      (m * 2 ^ 1, (971 : Int) - (1 : Nat), Accuracy.exact) := by
    simp only [divCore, targetExponent_div, hlog, hlog', hplaces, Nat.shiftLeft_eq, hshift]
    rw [Nat.mul_div_cancel _ hn, Nat.mul_mod_left]
    rfl
  obtain ⟨_, hround⟩ := roundWithAccuracy_exact (s := s / s') (k := 1) (e := 971) hle hlt
    (by decide)
  simp only [UnpackedFloat.div, hcore, hround]
  exact Int.le_refl 971

theorem isNormal_ofNat_one_le {n : Nat} (hpos : 0 < n) (hn : n < 2 ^ 128) :
    ∃ m e, IsNormal (Float.ofNat n) .positive m e ∧ (-51 ≤ e ∨ m = 2 ^ 52 ∧ e = -52) := by
  obtain ⟨m, e, hfloat, hrank⟩ := isNormal_ofNat hpos hn
  refine ⟨m, e, hfloat, ?_⟩
  obtain ⟨_, hle, hlt, _, _⟩ := hfloat
  obtain ⟨hlow, _⟩ := le_shiftedRound (log2_mul_full hpos) (by omega)
  rcases Nat.eq_or_lt_of_le hpos with rfl | hgt
  · have hone : shiftedRound ((Nat.succ 0).log2 + 1) (Nat.succ 0 * 2 ^ 53) = 2 ^ 52 :=
      shiftedRound_of_lt (by decide) (by decide)
    have hlog : (Nat.succ 0).log2 = 0 := rfl
    rw [hone, hlog] at hrank
    omega
  · have hlog : 1 ≤ n.log2 := (Nat.le_log2 (by omega)).mpr hgt
    omega

theorem isNormal_ofInt_one_le {b : Int} (hb : b ≠ 0) (hb' : b.natAbs < 2 ^ 128) :
    ∃ s m e, IsNormal (Float.ofInt b) s m e ∧ (-51 ≤ e ∨ m = 2 ^ 52 ∧ e = -52) := by
  obtain ⟨m, e, hfloat, he⟩ := isNormal_ofNat_one_le (n := b.natAbs) (by omega) hb'
  cases b with
  | ofNat n => exact ⟨_, m, e, hfloat, he⟩
  | negSucc n => exact ⟨_, m, e, hfloat.neg, he⟩

theorem Double.isFinite_div_ofInt {x : Float} {b : Int} (hx : Double.isFinite x = true)
    (hb : b ≠ 0) (hb' : b.natAbs < 2 ^ 128) : Double.isFinite (x / Float.ofInt b) = true := by
  obtain ⟨s', n, f, hdivisor, hf⟩ := isNormal_ofInt_one_le hb hb'
  obtain ⟨hn, hunpack⟩ := hdivisor.unpack
  obtain ⟨_, hlow, hhigh, _, _⟩ := hdivisor
  apply Double.isFinite_ofModel_pack
  rw [hunpack]
  have hform := Double.finiteForm_unpack hx
  generalize x.toModel.unpack = u at hform ⊢
  cases hform with
  | zero => trivial
  | subnormal s hm hlt =>
    have hlog := log2_le_of_lt hlt
    exact inRange_div hlow hhigh (by omega)
  | @normal s m e hm hle hlt he he' =>
    have hlog := log2_eq hle hlt
    rcases hf with hf | ⟨hone, rfl⟩
    · exact inRange_div hlow hhigh (by omega)
    · rcases Int.lt_or_eq_of_le he' with hlt' | rfl
      · exact inRange_div hlow hhigh (by omega)
      · exact inRange_div_one hone hle hlt

theorem Double.isFinite_ofInt {a : Int} (ha : a.natAbs < 2 ^ 128) :
    Double.isFinite (Float.ofInt a) = true := by
  by_cases h : a = 0
  · subst h
    decide +kernel
  · obtain ⟨s, m, e, ⟨⟨hm, heq⟩, _, _, _, he⟩, _⟩ := isNormal_ofInt_one_le h ha
    rw [heq]
    exact Double.isFinite_ofModel_pack he

end Stencil
