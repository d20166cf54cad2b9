import Mathlib
import Stencil.Number.Double

/-!
Whole numbers as floats.

A conversion shifts the number to fifty-three bits and rounds what is cut off to the nearest, a half
to an even significand (`shiftedRound_nearest`). What comes out is a normal float, whose place in
the order of floats can be read off its significand and exponent (`IsNormal.rank?`); the carry of a
significand that is rounded up to one bit more does not show in that place (`isNormal_round`). So
conversion keeps the order of whole numbers (`signedRank_mono`) and tells all of them apart up to
`2 ^ 53` (`signedRank_lt`). The bound everywhere is `2 ^ 128`, which neither decimals nor integers
reach.
-/

namespace Stencil

open Float.Model Float.Model.UnpackedFloat

/-! ## Cutting bits off -/

/-- The mantissa is the number without its last `k` bits, and the two flags say how what was cut off
compares with half a unit. -/
def CutOff (n k : Nat) (em : ExtendedMantissa) : Prop :=
  ∃ r, n = em.mantissa * 2 ^ k + r ∧
    match em.roundBit, em.stickyBit with
    | false, false => r = 0
    | false, true => 0 < r ∧ 2 * r < 2 ^ k
    | true, false => 2 * r = 2 ^ k
    | true, true => 2 ^ k < 2 * r ∧ r < 2 ^ k

theorem CutOff.shiftRightOne {n k : Nat} {em : ExtendedMantissa} (h : CutOff n k em) :
    CutOff n (k + 1) em.shiftRightOne := by
  obtain ⟨m, roundBit, stickyBit⟩ := em
  obtain ⟨r, hn, hr⟩ := h
  have hhalf : m = m / 2 * 2 + m % 2 := (Nat.div_add_mod' m 2).symm
  have hpow : 2 ^ (k + 1) = 2 * 2 ^ k := Nat.pow_succ'
  refine ⟨m % 2 * 2 ^ k + r, ?_, ?_⟩
  · show n = m / 2 * 2 ^ (k + 1) + (m % 2 * 2 ^ k + r)
    rw [hn, hpow, ← Nat.add_assoc, ← Nat.mul_assoc, ← Nat.add_mul, ← hhalf]
  · have hpos : 0 < 2 ^ k := Nat.two_pow_pos k
    rcases Nat.mod_two_eq_zero_or_one m with hm | hm <;> cases roundBit <;> cases stickyBit <;>
      simp only [ExtendedMantissa.shiftRightOne, hm] at hr ⊢ <;> simp [hpow] <;> omega

/-- The number divided by `2 ^ k` and rounded to the nearest whole number, a half to an even one. -/
def shiftedRound (k n : Nat) : Nat :=
  (ExtendedMantissa.ofMantissaAndAccuracy n .exact >>> k).roundedMantissa

theorem cutOff_shiftRight (n k : Nat) :
    CutOff n k (ExtendedMantissa.ofMantissaAndAccuracy n .exact >>> k) := by
  induction k with
  | zero => exact ⟨0, (Nat.mul_one n).symm, rfl⟩
  | succ k ih => exact ih.shiftRightOne

theorem shiftedRound_nearest (k n : Nat) :
    2 * n ≤ 2 * (shiftedRound k n * 2 ^ k) + 2 ^ k ∧
      2 * (shiftedRound k n * 2 ^ k) ≤ 2 * n + 2 ^ k := by
  rw [shiftedRound]
  obtain ⟨r, hn, hr⟩ := cutOff_shiftRight n k
  generalize ExtendedMantissa.ofMantissaAndAccuracy n .exact >>> k = em at hn hr
  obtain ⟨m, roundBit, stickyBit⟩ := em
  replace hn : n = m * 2 ^ k + r := hn
  have hpos : 0 < 2 ^ k := Nat.two_pow_pos k
  have hup : (m + 1) * 2 ^ k = m * 2 ^ k + 2 ^ k := Nat.succ_mul m (2 ^ k)
  cases roundBit <;> cases stickyBit
  · subst hr
    show 2 * n ≤ 2 * (m * 2 ^ k) + 2 ^ k ∧ 2 * (m * 2 ^ k) ≤ 2 * n + 2 ^ k
    omega
  · obtain ⟨_, hr⟩ := hr
    show 2 * n ≤ 2 * (m * 2 ^ k) + 2 ^ k ∧ 2 * (m * 2 ^ k) ≤ 2 * n + 2 ^ k
    omega
  · show 2 * n ≤ 2 * ((m + m % 2) * 2 ^ k) + 2 ^ k ∧ 2 * ((m + m % 2) * 2 ^ k) ≤ 2 * n + 2 ^ k
    replace hr : 2 * r = 2 ^ k := hr
    rcases Nat.mod_two_eq_zero_or_one m with hm | hm <;> rw [hm]
    · rw [Nat.add_zero]
      omega
    · omega
  · obtain ⟨hr, hlt⟩ := hr
    show 2 * n ≤ 2 * ((m + 1) * 2 ^ k) + 2 ^ k ∧ 2 * ((m + 1) * 2 ^ k) ≤ 2 * n + 2 ^ k
    omega

theorem shiftedRound_mono (k : Nat) {m n : Nat} (h : m ≤ n) :
    shiftedRound k m ≤ shiftedRound k n := by
  rcases Nat.eq_or_lt_of_le h with rfl | hlt
  · exact Nat.le_refl _
  · obtain ⟨_, hm⟩ := shiftedRound_nearest k m
    obtain ⟨hn, _⟩ := shiftedRound_nearest k n
    refine Nat.le_of_lt_succ (Nat.lt_of_mul_lt_mul_right (a := 2 ^ k) ?_)
    rw [Nat.succ_mul]
    omega

theorem shiftedRound_mul (k m : Nat) : shiftedRound k (m * 2 ^ k) = m := by
  obtain ⟨hlow, hhigh⟩ := shiftedRound_nearest k (m * 2 ^ k)
  have hpos : 0 < 2 ^ k := Nat.two_pow_pos k
  apply Nat.le_antisymm
  · refine Nat.le_of_lt_succ (Nat.lt_of_mul_lt_mul_right (a := 2 ^ k) ?_)
    rw [Nat.succ_mul]
    omega
  · refine Nat.le_of_lt_succ (Nat.lt_of_mul_lt_mul_right (a := 2 ^ k) ?_)
    rw [Nat.succ_mul]
    omega

/-! ## Normal floats -/

/-- The float is `± m · 2 ^ e`, with a significand of fifty-three bits. -/
structure IsNormal (x : Float) (s : Sign) (m : Nat) (e : Int) : Prop where
  eq : ∃ h, x = .ofModel (.pack (.finite s m e h))
  le : 2 ^ 52 ≤ m
  lt : m < 2 ^ 53
  le_exponent : -1074 ≤ e
  exponent_le : e ≤ 971

theorem log2_eq {n k : Nat} (hlow : 2 ^ k ≤ n) (hhigh : n < 2 ^ (k + 1)) : n.log2 = k := by
  have hpos := Nat.two_pow_pos k
  exact (Nat.log2_eq_iff (by omega)).mpr ⟨hlow, hhigh⟩

theorem log2_mul_two_pow {n : Nat} (hn : n ≠ 0) (k : Nat) : (n * 2 ^ k).log2 = n.log2 + k := by
  obtain ⟨hlow, hhigh⟩ := (Nat.log2_eq_iff hn).mp rfl
  apply log2_eq
  · rw [Nat.pow_add]
    exact Nat.mul_le_mul_right _ hlow
  · rw [Nat.add_right_comm, Nat.pow_add]
    exact Nat.mul_lt_mul_of_pos_right hhigh (Nat.two_pow_pos k)

section

variable {x : Float} {s : Sign} {m : Nat} {e : Int}

theorem pack_finite {h : 0 < m} (hle : 2 ^ 52 ≤ m) (hlt : m < 2 ^ 53) (he : e ≤ 971) :
    UnpackedFloat.pack .binary64 (.finite s m e h) =
      packComponents .binary64 s (BitVec.ofNat 11 (e + 1075).toNat) (BitVec.ofNat 52 m) := by
  have hlog : m.log2 + 1 = Format.binary64.mantissaBits := by rw [log2_eq hle hlt]; rfl
  have hbias : e + Format.binary64.exponentBias + (52 : Nat) = e + 1075 := by
    show e + (1023 : Nat) + (52 : Nat) = e + 1075
    omega
  simp only [UnpackedFloat.pack, hbias]
  rw [if_neg (by omega), if_pos hlog]

theorem IsNormal.toBits (h : IsNormal x s m e) :
    x.toBits.toNat = s.toBitVec.toNat * 2 ^ 63 + ((e + 1074).toNat * 2 ^ 52 + m) := by
  obtain ⟨⟨hpos, rfl⟩, hle, hlt, he, he'⟩ := h
  have hexponent : (e + 1075).toNat % 2 ^ 11 = (e + 1074).toNat + 1 := by omega
  have hsignificand : m % 2 ^ 52 = m - 2 ^ 52 := by omega
  show (UnpackedFloat.pack Format.binary64 (.finite s m e hpos)).toNat = _
  rw [pack_finite hle hlt he', packComponents, BitVec.toNat_append, BitVec.toNat_append,
    BitVec.toNat_ofNat, BitVec.toNat_ofNat, hexponent, hsignificand,
    ← Nat.shiftLeft_add_eq_or_of_lt (by omega), ← Nat.shiftLeft_add_eq_or_of_lt (by omega),
    Nat.shiftLeft_eq, Nat.shiftLeft_eq]
  omega

theorem IsNormal.rank? (h : IsNormal x s m e) :
    Double.rank? x = some (s.apply ((e + 1074) * 2 ^ 52 + m)) := by
  have hbits := h.toBits
  obtain ⟨_, hle, hlt, he, he'⟩ := h
  have hmagnitude : x.toBits.toNat % 2 ^ 63 = (e + 1074).toNat * 2 ^ 52 + m := by
    rw [hbits]
    omega
  show (if x.toBits.toNat % 2 ^ 63 > 2047 * 2 ^ 52 then none
    else if x.toBits.toNat < 2 ^ 63 then some ((x.toBits.toNat % 2 ^ 63 : Nat) : Int)
    else some (-((x.toBits.toNat % 2 ^ 63 : Nat) : Int))) = _
  rw [hmagnitude, if_neg (by omega)]
  cases s with
  | positive =>
    replace hbits : x.toBits.toNat = 0 * 2 ^ 63 + ((e + 1074).toNat * 2 ^ 52 + m) := hbits
    rw [if_pos (by omega)]
    show some _ = some ((e + 1074) * 2 ^ 52 + (m : Int))
    congr 1
    omega
  | negative =>
    replace hbits : x.toBits.toNat = 1 * 2 ^ 63 + ((e + 1074).toNat * 2 ^ 52 + m) := hbits
    rw [if_neg (by omega)]
    show some _ = some (-((e + 1074) * 2 ^ 52 + (m : Int)))
    congr 1
    omega

theorem IsNormal.unpack (h : IsNormal x s m e) : ∃ h, x.toModel.unpack = .finite s m e h := by
  obtain ⟨⟨hpos, rfl⟩, hle, hlt, he, he'⟩ := h
  refine ⟨hpos, ?_⟩
  have hexponent : (BitVec.ofNat 11 (e + 1075).toNat).toNat = (e + 1075).toNat := by
    rw [BitVec.toNat_ofNat]
    omega
  have hother : ∀ b : BitVec 11, b.toNat = 0 ∨ b.toNat = 2047 →
      BitVec.ofNat 11 (e + 1075).toNat ≠ b := by
    rintro b hb rfl
    rw [hexponent] at hb
    omega
  have hsignificand : (1#1 ++ BitVec.ofNat 52 m).toNat = m := by
    rw [BitVec.toNat_append, BitVec.toNat_ofNat, BitVec.toNat_ofNat,
      ← Nat.shiftLeft_add_eq_or_of_lt (by omega), Nat.shiftLeft_eq]
    omega
  show UnpackedFloat.unpack Format.binary64 (UnpackedFloat.pack .binary64 (.finite s m e hpos)) = _
  rw [pack_finite hle hlt he']
  simp only [UnpackedFloat.unpack, unpackMantissa_packComponents, unpackExponent_packComponents,
    unpackSign_packComponents, Sign.ofBitVec_toBitVec, hexponent]
  rw [if_neg (hother _ (Or.inr rfl)), if_neg (hother _ (Or.inl rfl))]
  simp only [hsignificand]
  congr 1
  show ((e + 1075).toNat : Int) - ((1023 : Nat) + (52 : Nat)) = e
  omega

theorem IsNormal.neg (h : IsNormal x s m e) : IsNormal x.neg (-s) m e := by
  obtain ⟨hpos, hunpack⟩ := h.unpack
  refine ⟨⟨hpos, ?_⟩, h.le, h.lt, h.le_exponent, h.exponent_le⟩
  show Float.ofModel (.pack x.toModel.unpack.neg) = _
  rw [hunpack]
  rfl

end

/-! ## Rounding -/

theorem shiftToExponent_eq {n : Nat} {e t : Int} {k : Nat} (h : t = e + k) :
    shiftToExponent n e .exact t = (ExtendedMantissa.ofMantissaAndAccuracy n .exact >>> k, t) := by
  have hk : (t - e).toNat = k := by omega
  rw [shiftToExponent, hk, h]

theorem targetExponent_eq {n k : Nat} {e : Int} (hn : n.log2 = 52 + k) (he : -1074 ≤ e + k) :
    Format.binary64.targetExponent (totalExponent n e) = e + k := by
  show max ((n.log2 : Int) + 1 + e - (53 : Nat)) (-1074) = e + k
  rw [hn]
  omega

theorem shiftToTargetExponent_eq {n k : Nat} {e : Int} (hn : n.log2 = 52 + k)
    (he : -1074 ≤ e + k) : shiftToTargetExponent .binary64 n e .exact =
      (ExtendedMantissa.ofMantissaAndAccuracy n .exact >>> k, e + k) := by
  rw [shiftToTargetExponent, targetExponent_eq hn he, shiftToExponent_eq rfl]

theorem le_shiftedRound {n k : Nat} (hn : n.log2 = 52 + k) (hpos : n ≠ 0) :
    2 ^ 52 ≤ shiftedRound k n ∧ shiftedRound k n ≤ 2 ^ 53 := by
  obtain ⟨hlow, hhigh⟩ := (Nat.log2_eq_iff hpos).mp hn
  constructor
  · rw [← shiftedRound_mul k (2 ^ 52), ← Nat.pow_add]
    exact shiftedRound_mono k hlow
  · rw [← shiftedRound_mul k (2 ^ 53), ← Nat.pow_add]
    have hpow : 53 + k = 52 + k + 1 := by omega
    rw [hpow]
    exact shiftedRound_mono k (Nat.le_of_lt hhigh)

/-- What is rounded to fifty-three bits is normal. When the significand comes to need one bit more,
it moves into the exponent, and the place in the order is the same. -/
theorem isNormal_round {s : Sign} {n k : Nat} {e : Int} (hpos : n ≠ 0) (hn : n.log2 = 52 + k)
    (he : -1074 ≤ e + k) (he' : e + k ≤ 970) :
    ∃ m e', IsNormal (.ofModel (.pack (roundWithAccuracy .binary64 s n e .exact))) s m e' ∧
      (e' + 1074) * 2 ^ 52 + m = (e + k + 1074) * 2 ^ 52 + shiftedRound k n := by
  obtain ⟨hle, hle'⟩ := le_shiftedRound hn hpos
  have hround : ∀ {m : Nat} {e' : Int} (hm : 0 < m),
      shiftToTargetExponent .binary64 (shiftedRound k n) (e + k) .exact = (⟨m, false, false⟩, e') →
      roundWithAccuracy .binary64 s n e .exact = .finite s m e' hm := by
    intro m e' hm hsecond
    rw [shiftedRound] at hsecond
    simp only [roundWithAccuracy, shiftToTargetExponent_eq hn he, hsecond]
    rw [dif_neg (by omega)]
  rcases Nat.lt_or_eq_of_le hle' with hlt | heq
  · have hlog : (shiftedRound k n).log2 = 52 + 0 := log2_eq hle hlt
    have hsecond := shiftToTargetExponent_eq hlog (e := e + k) (by omega)
    rw [Int.natCast_zero, Int.add_zero] at hsecond
    have hm : 0 < shiftedRound k n := by omega
    exact ⟨shiftedRound k n, e + k, ⟨⟨hm, by rw [hround hm hsecond]⟩, hle, hlt, he, by omega⟩, rfl⟩
  · have hlog : (2 ^ 53).log2 = 52 + 1 := Nat.log2_two_pow
    have hsecond := shiftToTargetExponent_eq hlog (e := e + k) (by omega)
    rw [← heq] at hsecond
    have hm : 0 < 2 ^ 52 := by decide
    have hhalf : ExtendedMantissa.ofMantissaAndAccuracy (shiftedRound k n) .exact >>> 1 =
        ⟨2 ^ 52, false, false⟩ := by rw [heq]; rfl
    rw [hhalf] at hsecond
    refine ⟨2 ^ 52, e + k + 1, ⟨⟨hm, by rw [hround hm hsecond]; rfl⟩, ?_, ?_, ?_, ?_⟩, ?_⟩ <;> omega

/-- Fifty-three bits with zeros behind them are not changed. -/
theorem roundWithAccuracy_exact {s : Sign} {m k : Nat} {e : Int} (hle : 2 ^ 52 ≤ m)
    (hlt : m < 2 ^ 53) (he : -1074 ≤ e) :
    ∃ hm, roundWithAccuracy .binary64 s (m * 2 ^ k) (e - k) .exact = .finite s m e hm := by
  have hlog : m.log2 = 52 := log2_eq hle hlt
  have hfull : (m * 2 ^ k).log2 = 52 + k := by rw [log2_mul_two_pow (by omega), hlog]
  have hfirst := shiftToTargetExponent_eq (e := e - k) hfull (by omega)
  have hsecond := shiftToTargetExponent_eq (k := 0) (e := e) hlog (by omega)
  rw [Int.sub_add_cancel] at hfirst
  rw [Int.natCast_zero, Int.add_zero] at hsecond
  have hround := shiftedRound_mul k m
  rw [shiftedRound] at hround
  have hm : 0 < m := by omega
  refine ⟨hm, ?_⟩
  simp only [roundWithAccuracy, hfirst, hround, hsecond]
  exact dif_neg (Nat.ne_of_gt hm)

/-! ## Whole numbers -/

theorem log2_mul_full {n : Nat} (hpos : 0 < n) : (n * 2 ^ 53).log2 = 52 + (n.log2 + 1) := by
  rw [log2_mul_two_pow (by omega)]
  omega

theorem ofNat_eq_mul_one {n : Nat} (h : n < 2 ^ 53) :
    Float.ofNat n = n.toUInt64.toFloat.mul (.ofBits 0x3FF0000000000000) := by
  show Float.ofScientific n false 0 = _
  rw [Float.ofScientific, dif_pos ⟨h, by decide⟩]
  rfl

theorem unpack_one : (Float.ofBits 0x3FF0000000000000).toModel.unpack =
    .finite .positive (2 ^ 52) (-52) (by decide) := by
  rfl

theorem isNormal_mul_one {x : Float} {m : Nat} {e : Int} (h : IsNormal x .positive m e) :
    IsNormal (x.mul (.ofBits 0x3FF0000000000000)) .positive m e := by
  obtain ⟨hpos, hunpack⟩ := h.unpack
  obtain ⟨_, hle, hlt, hlow, hhigh⟩ := h
  obtain ⟨hm, hround⟩ := roundWithAccuracy_exact (s := .positive) (k := 52) hle hlt hlow
  refine ⟨⟨hm, ?_⟩, hle, hlt, hlow, hhigh⟩
  show Float.ofModel (.pack (UnpackedFloat.mul .binary64 x.toModel.unpack _)) = _
  rw [hunpack, unpack_one]
  exact congrArg (fun u => Float.ofModel (.pack u)) hround

theorem ofNat_eq_round {n : Nat} (hpos : 0 < n) :
    UnpackedFloat.ofNat .binary64 n = UnpackedFloat.round .binary64 .positive n 0 := by
  have hcompare : compare (n : Int) 0 = .gt := Int.compare_eq_gt.mpr (by omega)
  simp only [UnpackedFloat.ofNat, UnpackedFloat.ofInt, UnpackedFloat.normalize, hcompare,
    Int.toNat_natCast]

/-- A number of at most fifty-three bits is filled up with zeros. -/
theorem isNormal_toFloat {n : Nat} (hpos : 0 < n) (h : n < 2 ^ 53) :
    IsNormal n.toUInt64.toFloat .positive (n * 2 ^ (52 - n.log2)) (n.log2 - 52) := by
  have hlog : n.log2 ≤ 52 := Nat.le_of_lt_succ ((Nat.log2_lt (by omega)).mpr h)
  have hfull : (n * 2 ^ (52 - n.log2)).log2 = 52 := by
    rw [log2_mul_two_pow (by omega)]
    omega
  have hne : n * 2 ^ (52 - n.log2) ≠ 0 :=
    Nat.mul_ne_zero (by omega) (Nat.ne_of_gt (Nat.two_pow_pos _))
  obtain ⟨hle, hlt⟩ := (Nat.log2_eq_iff hne).mp hfull
  obtain ⟨hm, hround⟩ := roundWithAccuracy_exact (s := .positive) (k := 0) (e := n.log2 - 52)
    hle hlt (by omega)
  rw [Nat.pow_zero, Nat.mul_one, Int.natCast_zero, Int.sub_zero] at hround
  have hnat : n.toUInt64.toNat = n := Nat.mod_eq_of_lt (by omega)
  have htarget : Format.binary64.targetExponent (totalExponent n 0) = n.log2 - 52 := by
    show max ((n.log2 : Int) + 1 + 0 - (53 : Nat)) (-1074) = n.log2 - 52
    omega
  have hplaces : (0 - ((n.log2 : Int) - 52)).toNat = 52 - n.log2 := by omega
  have hexponent : (0 : Int) - (52 - n.log2 : Nat) = n.log2 - 52 := by omega
  refine ⟨⟨hm, ?_⟩, hle, hlt, by omega, by omega⟩
  show Float.ofModel (.pack (UnpackedFloat.ofNat .binary64 n.toUInt64.toNat)) = _
  rw [hnat, ofNat_eq_round hpos, ← hround]
  simp only [UnpackedFloat.round, htarget, decreaseExponent, hplaces, hexponent, Nat.shiftLeft_eq]

theorem ofScientific_eq_round {n : Nat} (hpos : 0 < n) : UnpackedFloat.ofScientific .binary64 n 0 =
    roundWithAccuracy .binary64 .positive (n * 2 ^ 53) (-53) .exact := by
  have hsmall : ¬ (0 : Int) < -((2 ^ 11 : Int) + n.log2) := by omega
  have hbits : Format.binary64.mantissaBits = 53 := rfl
  rw [UnpackedFloat.ofScientific, dif_neg (by omega), if_neg (by decide), if_neg hsmall,
    if_pos (by decide)]
  simp only [UnpackedFloat.mul, hbits, Nat.shiftLeft_eq, Int.toNat_zero, Nat.pow_zero, Nat.mul_one]
  rfl

/-- Numbers of at most fifty-three bits need no rounding. -/
theorem shiftedRound_of_lt {n : Nat} (hpos : 0 < n) (h : n < 2 ^ 53) :
    shiftedRound (n.log2 + 1) (n * 2 ^ 53) = n * 2 ^ (52 - n.log2) := by
  have hlog : n.log2 ≤ 52 := Nat.le_of_lt_succ ((Nat.log2_lt (by omega)).mpr h)
  have hexact : n * 2 ^ 53 = n * 2 ^ (52 - n.log2) * 2 ^ (n.log2 + 1) := by
    have hplaces : 53 = 52 - n.log2 + (n.log2 + 1) := by omega
    rw [Nat.mul_assoc, ← Nat.pow_add, ← hplaces]
  rw [hexact, shiftedRound_mul]

theorem isNormal_ofNat {n : Nat} (hpos : 0 < n) (hn : n < 2 ^ 128) :
    ∃ m e, IsNormal (Float.ofNat n) .positive m e ∧
      (e + 1074) * 2 ^ 52 + m =
        ((n.log2 : Int) + 1022) * 2 ^ 52 + shiftedRound (n.log2 + 1) (n * 2 ^ 53) := by
  by_cases h : n < 2 ^ 53
  · have hlog : n.log2 ≤ 52 := Nat.le_of_lt_succ ((Nat.log2_lt (by omega)).mpr h)
    have hfloat := isNormal_mul_one (isNormal_toFloat hpos h)
    rw [← ofNat_eq_mul_one h] at hfloat
    refine ⟨_, _, hfloat, ?_⟩
    rw [shiftedRound_of_lt hpos h]
    omega
  · have hlog : n.log2 < 128 := (Nat.log2_lt (by omega)).mpr hn
    obtain ⟨m, e, hround, hrank⟩ := isNormal_round (s := .positive) (e := -53)
      (Nat.mul_ne_zero (by omega) (by decide)) (log2_mul_full hpos) (by omega) (by omega)
    have hfloat : Float.ofNat n =
        .ofModel (.pack (roundWithAccuracy .binary64 .positive (n * 2 ^ 53) (-53) .exact)) := by
      show Float.ofScientific n false 0 = _
      rw [Float.ofScientific, dif_neg (fun hsmall => h hsmall.1)]
      rw [← ofScientific_eq_round hpos]
      rfl
    exact ⟨m, e, by rwa [hfloat], by omega⟩

/-- The place in the order of floats of what a number is rounded to. -/
def roundedRank (n : Nat) : Nat :=
  if n = 0 then 0 else (n.log2 + 1022) * 2 ^ 52 + shiftedRound (n.log2 + 1) (n * 2 ^ 53)

theorem rank?_ofNat {n : Nat} (hn : n < 2 ^ 128) :
    Double.rank? (Float.ofNat n) = some (roundedRank n : Int) := by
  rcases Nat.eq_zero_or_pos n with rfl | hpos
  · decide +kernel
  · obtain ⟨m, e, hfloat, hrank⟩ := isNormal_ofNat hpos hn
    rw [hfloat.rank?, roundedRank, if_neg (by omega)]
    show some ((e + 1074) * 2 ^ 52 + (m : Int)) = _
    rw [hrank]
    rfl

theorem log2_mono {m n : Nat} (h : m ≤ n) : m.log2 ≤ n.log2 := by
  rw [Nat.log2_eq_log_two, Nat.log2_eq_log_two]
  exact Nat.log_mono_right h

theorem roundedRank_mono {m n : Nat} (h : m ≤ n) : roundedRank m ≤ roundedRank n := by
  rcases Nat.eq_zero_or_pos m with rfl | hm
  · exact Nat.zero_le _
  · have hn : 0 < n := by omega
    have hlog := log2_mono h
    obtain ⟨_, hhigh⟩ := le_shiftedRound (log2_mul_full hm) (by omega)
    obtain ⟨hlow, _⟩ := le_shiftedRound (log2_mul_full hn) (by omega)
    rw [roundedRank, roundedRank, if_neg (by omega), if_neg (by omega)]
    rcases Nat.lt_or_eq_of_le hlog with hlt | heq
    · omega
    · have hround := shiftedRound_mono (m.log2 + 1) (Nat.mul_le_mul_right (2 ^ 53) h)
      rw [← heq]
      omega

/-- Numbers of at most fifty-three bits, and the next one, have places of their own. -/
theorem roundedRank_lt {m n : Nat} (h : m < n) (hn : n ≤ 2 ^ 53) :
    roundedRank m < roundedRank n := by
  obtain ⟨hlow, _⟩ := le_shiftedRound (n := n * 2 ^ 53) (log2_mul_full (by omega)) (by omega)
  rw [roundedRank, roundedRank, if_neg (show n ≠ 0 by omega)]
  split
  · omega
  · next hm =>
    have hlog := log2_mono (Nat.le_of_lt h)
    rw [shiftedRound_of_lt (n := m) (by omega) (by omega)]
    rcases Nat.lt_or_eq_of_le hlog with hlt | heq
    · have hmul : m * 2 ^ (52 - m.log2) < 2 ^ (m.log2 + 1) * 2 ^ (52 - m.log2) :=
        Nat.mul_lt_mul_of_pos_right Nat.lt_log2_self (Nat.two_pow_pos _)
      have hplaces : m.log2 + 1 + (52 - m.log2) = 53 := by
        have := (Nat.log2_lt hm).mpr (show m < 2 ^ 53 by omega)
        omega
      rw [← Nat.pow_add, hplaces] at hmul
      omega
    · have hn' : n < 2 ^ 53 := by
        rw [← Nat.log2_lt (by omega), ← heq]
        exact (Nat.log2_lt hm).mpr (by omega)
      have hmul : m * 2 ^ (52 - m.log2) < n * 2 ^ (52 - m.log2) :=
        Nat.mul_lt_mul_of_pos_right h (Nat.two_pow_pos _)
      rw [shiftedRound_of_lt (n := n) (by omega) hn', ← heq]
      omega

/-- The place in the order of floats of what an integer is rounded to. -/
def signedRank (z : Int) : Int :=
  if z < 0 then -(roundedRank z.natAbs : Int) else roundedRank z.natAbs

theorem signedRank_of_nonpos {z : Int} (h : z ≤ 0) :
    signedRank z = -(roundedRank z.natAbs : Int) := by
  rw [signedRank]
  split
  · rfl
  · obtain rfl : z = 0 := by omega
    rfl

theorem rank?_neg_ofNat {n : Nat} (hn : n < 2 ^ 128) :
    Double.rank? (Float.ofNat n).neg = some (-(roundedRank n : Int)) := by
  rcases Nat.eq_zero_or_pos n with rfl | hpos
  · decide +kernel
  · obtain ⟨m, e, hfloat, _⟩ := isNormal_ofNat hpos hn
    have hrank := rank?_ofNat hn
    rw [hfloat.rank?] at hrank
    rw [hfloat.neg.rank?, ← Option.some.inj hrank]
    rfl

theorem rank?_ofInt {z : Int} (hz : z.natAbs < 2 ^ 128) :
    Double.rank? (Float.ofInt z) = some (signedRank z) := by
  cases z with
  | ofNat n => exact rank?_ofNat hz
  | negSucc n =>
    rw [signedRank_of_nonpos (Int.le_of_lt (Int.negSucc_lt_zero n))]
    exact rank?_neg_ofNat hz

theorem signedRank_mono {y z : Int} (h : y ≤ z) : signedRank y ≤ signedRank z := by
  unfold signedRank
  split
  · split
    · have hle := roundedRank_mono (m := z.natAbs) (n := y.natAbs) (by omega)
      omega
    · omega
  · have hle := roundedRank_mono (m := y.natAbs) (n := z.natAbs) (by omega)
    rw [if_neg (by omega)]
    omega

theorem signedRank_lt {y z : Int} (h : y < z) (hy : -2 ^ 53 ≤ y) (hz : z ≤ 2 ^ 53) :
    signedRank y < signedRank z := by
  unfold signedRank
  split
  · have hneg := roundedRank_lt (m := 0) (n := y.natAbs) (by omega) (by omega)
    split
    · have hlt := roundedRank_lt (m := z.natAbs) (n := y.natAbs) (by omega) (by omega)
      omega
    · omega
  · have hlt := roundedRank_lt (m := y.natAbs) (n := z.natAbs) (by omega) (by omega)
    rw [if_neg (by omega)]
    omega

end Stencil
