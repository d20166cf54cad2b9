import Stencil.Number.Power

/-!
Decimal digits.

`digits n` writes a natural number without leading zeros (zero is `0`), `valueOf` reads a text of
digits back. `padded` adds leading zeros up to a width. Main statements: `valueOf_digits`, digits
read back as the number they were written for, and `isDigit_of_mem_digits`, all of them are digits.
-/

namespace Stencil

def digitChar (d : Nat) : Char := Char.ofNat (48 + d)

def digitValue (c : Char) : Nat := c.toNat - 48

/-- The digits of `n` in front of `done`, for `fuel` above the number of digits. -/
def digitsFrom : Nat → Nat → List Char → List Char
  | 0, _, done => done
  | fuel + 1, n, done =>
    if n < 10 then digitChar n :: done
    else digitsFrom fuel (n / 10) (digitChar (n % 10) :: done)

def digits (n : Nat) : List Char := digitsFrom (n.log2 + 1) n []

/-- The number that a text of digits stands for. -/
def valueOf (s : List Char) : Nat := s.foldl (fun n c => 10 * n + digitValue c) 0

def padded (width : Nat) (s : List Char) : List Char := List.replicate (width - s.length) '0' ++ s

/-- The digits of an integer after a minus sign, if it is negative. -/
def signedDigits (n : Int) : List Char :=
  if n < 0 then '-' :: digits n.natAbs else digits n.natAbs

theorem digitValue_digitChar : ∀ d, d < 10 → digitValue (digitChar d) = d := by decide

theorem isDigit_digitChar : ∀ d, d < 10 → (digitChar d).isDigit = true := by decide

theorem valueOf_append_singleton (s : List Char) (c : Char) :
    valueOf (s ++ [c]) = 10 * valueOf s + digitValue c := by
  simp [valueOf]

theorem valueOf_append (s t : List Char) :
    valueOf (s ++ t) = valueOf s * tenTo t.length + valueOf t := by
  induction t generalizing s with
  | nil => simp [valueOf]
  | cons c t ih =>
    have h : s ++ c :: t = (s ++ [c]) ++ t := by simp
    have hc : valueOf (c :: t) = valueOf [c] * tenTo t.length + valueOf t := ih [c]
    have h1 : valueOf [c] = digitValue c := by simp [valueOf]
    rw [h, ih, valueOf_append_singleton, hc, h1, List.length_cons, tenTo_succ, Nat.add_mul,
      Nat.mul_comm 10, Nat.mul_assoc, Nat.add_assoc]

theorem digitsFrom_eq_append (fuel n : Nat) (done : List Char) :
    digitsFrom fuel n done = digitsFrom fuel n [] ++ done := by
  induction fuel generalizing n done with
  | zero => rfl
  | succ fuel ih =>
    simp only [digitsFrom]
    split
    · rfl
    · rw [ih _ (digitChar (n % 10) :: done), ih _ [digitChar (n % 10)]]
      simp

theorem valueOf_digitsFrom {fuel n : Nat} (h : n < tenTo fuel) :
    valueOf (digitsFrom fuel n []) = n := by
  induction fuel generalizing n with
  | zero =>
    have hn : n = 0 := Nat.lt_one_iff.1 h
    rw [hn]
    rfl
  | succ fuel ih =>
    simp only [digitsFrom]
    split
    · next hn => simp [valueOf, digitValue_digitChar n hn]
    · have hq : n / 10 < tenTo fuel := by
        rw [tenTo_succ] at h
        omega
      rw [digitsFrom_eq_append, valueOf_append_singleton, ih hq,
        digitValue_digitChar _ (Nat.mod_lt n (by decide))]
      omega

theorem lt_tenTo_log2 (n : Nat) : n < tenTo (n.log2 + 1) := by
  have h : n < twoTo (n.log2 + 1) := Nat.lt_log2_self
  exact Nat.lt_of_lt_of_le h (twoTo_le_tenTo _)

/-- Digits read back. -/
theorem valueOf_digits (n : Nat) : valueOf (digits n) = n := valueOf_digitsFrom (lt_tenTo_log2 n)

theorem isDigit_of_mem_digitsFrom {fuel n : Nat} {c : Char} (h : c ∈ digitsFrom fuel n []) :
    c.isDigit = true := by
  induction fuel generalizing n with
  | zero => cases h
  | succ fuel ih =>
    simp only [digitsFrom] at h
    split at h
    · next hn =>
      rw [List.mem_singleton] at h
      subst h
      exact isDigit_digitChar n hn
    · rw [digitsFrom_eq_append, List.mem_append, List.mem_singleton] at h
      rcases h with h | rfl
      · exact ih h
      · exact isDigit_digitChar _ (Nat.mod_lt n (by decide))

theorem isDigit_of_mem_digits {n : Nat} {c : Char} (h : c ∈ digits n) : c.isDigit = true :=
  isDigit_of_mem_digitsFrom h

theorem digits_ne_nil (n : Nat) : digits n ≠ [] := by
  intro h
  unfold digits at h
  simp only [digitsFrom] at h
  split at h
  · cases h
  · rw [digitsFrom_eq_append] at h
    simp at h

example : digits 0 = ['0'] ∧ digits 907 = ['9', '0', '7'] := by decide
example : valueOf (digits 1234567890) = 1234567890 := by decide

end Stencil
