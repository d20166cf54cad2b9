import Stencil.Number.Digits

/-!
Integers of sixty-four bits.

`fit?` keeps an integer that sixty-four bits can hold, `clamp` takes the nearest one that they can.
Reading accepts a sign and ASCII digits, and nothing around them; so `readInt64?_signedDigits` the
text of every integer reads back.
-/

namespace Stencil

def fit? (n : Int) : Option Int64 :=
  if Int64.minValue.toInt ≤ n ∧ n ≤ Int64.maxValue.toInt then some (Int64.ofInt n) else none

def clamp (n : Int) : Int64 :=
  if n < Int64.minValue.toInt then Int64.minValue
  else if Int64.maxValue.toInt < n then Int64.maxValue
  else Int64.ofInt n

/-- The number that a text of one or more ASCII digits stands for. -/
def readNat? (s : List Char) : Option Nat :=
  if s.isEmpty || !s.all Char.isDigit then none else some (valueOf s)

def readInt? : List Char → Option Int
  | '-' :: s => (readNat? s).map fun (n : Nat) => -(n : Int)
  | '+' :: s => (readNat? s).map Int.ofNat
  | s => (readNat? s).map Int.ofNat

def readInt64? (s : List Char) : Option Int64 := (readInt? s).bind fit?

/-- An index into a list: digits after an optional plus sign, below `2 ^ 64`. -/
def readIndex? (s : List Char) : Option Nat :=
  let n? := match s with
    | '+' :: s => readNat? s
    | s => readNat? s
  n?.filter (· < twoTo 64)

theorem toInt_of_fit? {n : Int} {k : Int64} (h : fit? n = some k) : k.toInt = n := by
  unfold fit? at h
  split at h
  · next hn =>
    have hmax : Int64.maxValue.toInt = 2 ^ 63 - 1 := by decide
    cases h
    exact Int64.toInt_ofInt_of_le hn.1 (by omega)
  · cases h

theorem fit?_toInt (k : Int64) : fit? k.toInt = some k := by
  have h : Int64.minValue.toInt ≤ k.toInt ∧ k.toInt ≤ Int64.maxValue.toInt :=
    ⟨k.minValue_le_toInt, k.toInt_le⟩
  rw [fit?, if_pos h, Int64.ofInt_toInt]

theorem readNat?_digits (n : Nat) : readNat? (digits n) = some n := by
  have hall : (digits n).all Char.isDigit = true := by
    rw [List.all_eq_true]
    intro c hc
    exact isDigit_of_mem_digits hc
  simp [readNat?, hall, digits_ne_nil, valueOf_digits]

theorem readInt?_of_isDigit {c : Char} {s : List Char} (h : c.isDigit = true) :
    readInt? (c :: s) = (readNat? (c :: s)).map Int.ofNat := by
  unfold readInt?
  split
  · next h' => cases h'; cases h
  · next h' => cases h'; cases h
  · rfl

/-- The text of an integer reads back. -/
theorem readInt?_signedDigits (n : Int) : readInt? (signedDigits n) = some n := by
  unfold signedDigits
  split
  · next hn =>
    have hn' : -((n.natAbs : Nat) : Int) = n := by omega
    show (readNat? (digits n.natAbs)).map (fun (m : Nat) => -(m : Int)) = some n
    rw [readNat?_digits, Option.map_some, hn']
  · next hn =>
    have hn' : Int.ofNat n.natAbs = n := Int.natAbs_of_nonneg (by omega)
    cases hd : digits n.natAbs with
    | nil => exact absurd hd (digits_ne_nil _)
    | cons c s =>
      have hc : c.isDigit = true := isDigit_of_mem_digits (n := n.natAbs) (by simp [hd])
      rw [readInt?_of_isDigit hc, ← hd, readNat?_digits, Option.map_some, hn']

theorem readInt64?_signedDigits (k : Int64) : readInt64? (signedDigits k.toInt) = some k := by
  rw [readInt64?, readInt?_signedDigits, Option.bind_some, fit?_toInt]

end Stencil
