/-!
Powers of two and of ten.

`twoTo k` and `tenTo k` count what `k` bits and `k` decimal places can tell apart. Both start at one
and are multiplied by their base at each step.
-/

namespace Stencil

def twoTo (k : Nat) : Nat := Nat.pow 2 k

def tenTo (k : Nat) : Nat := Nat.pow 10 k

@[simp] theorem twoTo_zero : twoTo 0 = 1 := rfl

theorem twoTo_succ (k : Nat) : twoTo (k + 1) = 2 * twoTo k := Nat.mul_comm ..

@[simp] theorem tenTo_zero : tenTo 0 = 1 := rfl

theorem tenTo_succ (k : Nat) : tenTo (k + 1) = 10 * tenTo k := Nat.mul_comm ..

theorem twoTo_pos (k : Nat) : 0 < twoTo k := Nat.pow_pos (by decide)

theorem tenTo_pos (k : Nat) : 0 < tenTo k := Nat.pow_pos (by decide)

theorem twoTo_le_tenTo (k : Nat) : twoTo k ≤ tenTo k := by
  induction k with
  | zero => exact Nat.le_refl 1
  | succ k ih =>
    rw [twoTo_succ, tenTo_succ]
    omega

theorem tenTo_add (j k : Nat) : tenTo (j + k) = tenTo j * tenTo k := by
  induction k with
  | zero => simp
  | succ k ih => rw [← Nat.add_assoc, tenTo_succ, tenTo_succ, ih, Nat.mul_left_comm]

example : twoTo 10 = 1024 ∧ tenTo 3 = 1000 := by decide

end Stencil
