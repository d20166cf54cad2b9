import Stencil.Proofs.Expr.Safety

/-!
Parts of a text.

A part starts and stops at places between the characters of a text. A start below zero and a length
below zero both count from the end, and neither place leaves the text (`partStart`, `partStop`). So
the part from the beginning with some length stops where the part from that place on starts
(`partStop_zero`), whatever the sign, and the two are the text again.

A machine works the places out in sixty-four bits. It adds to the size of the text only what is
below zero, and a length it adds to the start as far as that goes, so nothing is lost; only a text
of `2 ^ 63` characters is too long for it (`Machine.cut_eq`). Main statement: `callFunction_substr`.
-/

namespace Stencil.Expr

/-! ## Places -/

/-- The place where a part starts, from 0 to `total`: as near as that allows to `start`, which is
counted from the end below zero. -/
def partStart (total start : Int) : Int :=
  max 0 (min (if start < 0 then total + start else start) total)

/-- The place where a part that starts at `first` stops: at the end, after `length` characters if
there are as many, or as many in front of the end if `first` is not behind that. -/
def partStop (total first : Int) : Option Int → Int
  | none => total
  | some length => if 0 ≤ length then min (first + length) total else max (total + length) first

theorem partStart_mem {total : Int} (h : 0 ≤ total) (start : Int) :
    0 ≤ partStart total start ∧ partStart total start ≤ total := by
  unfold partStart
  omega

theorem partStop_mem {total first : Int} (h : first ≤ total) (length? : Option Int) :
    first ≤ partStop total first length? ∧ partStop total first length? ≤ total := by
  cases length? with
  | none => exact ⟨h, Int.le_refl _⟩
  | some length =>
    simp only [partStop]
    split <;> omega

/-- What a length takes from the beginning is what a start of the same number leaves out. -/
theorem partStop_zero {total : Int} (h : 0 ≤ total) (k : Int) :
    partStop total (partStart total 0) (some k) = partStart total k := by
  simp only [partStop, partStart]
  split <;> omega

/-! ## Parts -/

theorem slice_eq (s : List Char) (start : Int) (length? : Option Int) :
    let first := partStart s.length start
    Function.slice s start length? =
      (s.take (partStop s.length first length?).toNat).drop first.toNat := by
  intro first
  have hfirst : first = if start < 0 then max (s.length + start) 0 else min start s.length := by
    simp only [first, partStart]
    split <;> omega
  unfold Function.slice
  simp only [← hfirst]
  cases length? with
  | none => rfl
  | some length =>
    have hswap : partStop s.length first (some length) =
        if length < 0 then max (s.length + length) first else min (first + length) s.length := by
      simp only [partStop]
      split <;> split <;> omega
    rw [hswap]

theorem length_slice (s : List Char) (start : Int) (length? : Option Int) :
    let first := partStart s.length start
    ((Function.slice s start length?).length : Int) =
      partStop s.length first length? - first := by
  intro first
  obtain ⟨hzero, hfirst⟩ := partStart_mem (Int.natCast_nonneg s.length) start
  obtain ⟨hordered, hstop⟩ := partStop_mem hfirst length?
  rw [slice_eq, List.length_drop, List.length_take]
  simp only [first]
  omega

theorem getElem?_slice {s : List Char} {start : Int} {length? : Option Int} {i : Nat}
    (h : i < (Function.slice s start length?).length) :
    (Function.slice s start length?)[i]? = s[(partStart s.length start).toNat + i]? := by
  have hlength := length_slice s start length?
  obtain ⟨hzero, hfirst⟩ := partStart_mem (Int.natCast_nonneg s.length) start
  rw [slice_eq, List.getElem?_drop, List.getElem?_take, if_pos (by omega)]

/-- A beginning and the rest. -/
theorem slice_append_slice (s : List Char) (k : Int) :
    Function.slice s 0 (some k) ++ Function.slice s k none = s := by
  have htotal := Int.natCast_nonneg s.length
  have hzero : partStart s.length 0 = 0 := by
    unfold partStart
    omega
  have hbeginning : Function.slice s 0 (some k) = s.take (partStart s.length k).toNat := by
    rw [slice_eq, partStop_zero htotal, hzero]
    rfl
  have hrest : Function.slice s k none = s.drop (partStart s.length k).toNat := by
    rw [slice_eq, partStop, Int.toNat_natCast, List.take_length]
  rw [hbeginning, hrest, List.take_append_drop]

/-! ## A machine -/

namespace Machine

variable {α β : Type} {size : Nat}

theorem Outcome.bind_ne_exhausted {o : Outcome α} {f : α → Outcome β} (ho : o ≠ .exhausted size)
    (hf : ∀ a, f a ≠ .exhausted size) : (o >>= f) ≠ .exhausted size := by
  cases o with
  | value a => exact hf a
  | error e => nofun
  | panic p => nofun
  | exhausted n => exact fun h => ho (by cases h; rfl)

theorem add_ne_exhausted (x y : Int64) : add x y ≠ .exhausted size := by
  unfold add
  cases fit? (x.toInt + y.toInt) <;> nofun

theorem cutStart_ne_exhausted (total start : Int64) : cutStart total start ≠ .exhausted size := by
  unfold cutStart
  split
  · exact Outcome.bind_ne_exhausted (add_ne_exhausted _ _) nofun
  · nofun

theorem cutStop_ne_exhausted (total first : Int64) (length? : Option Int64) :
    cutStop total first length? ≠ .exhausted size := by
  unfold cutStop
  split
  · nofun
  · split
    · exact Outcome.bind_ne_exhausted (add_ne_exhausted _ _) nofun
    · nofun

theorem slice_ne_exhausted (items : List α) (start stop : Nat) :
    slice items start stop ≠ .exhausted size := by
  unfold slice
  split <;> nofun

/-- A part of a text that a memory holds. -/
theorem cut_eq {s : List Char} (h : s.length < 2 ^ 63) (start : Int64) (length? : Option Int64) :
    cut s start length? = .value (Function.slice s start.toInt (length?.map Int64.toInt)) := by
  rcases cut_agrees s start length? with heq | ⟨size, _, hexhausted⟩
  · exact heq
  · obtain ⟨total, htotal, _⟩ := exists_fit? (n := s.length) ⟨by omega, by omega⟩
    have hlength : length s.length = .value total := by rw [length, htotal]
    refine absurd hexhausted ?_
    rw [cut, hlength, Outcome.value_bind]
    refine Outcome.bind_ne_exhausted (cutStart_ne_exhausted _ _) fun first => ?_
    exact Outcome.bind_ne_exhausted (cutStop_ne_exhausted _ _ _) fun last =>
      slice_ne_exhausted _ _ _

end Machine

/-! ## Calls -/

section

variable (s : String) (start : Int64) (length? : Option Int64)

theorem callFunction_substr_eq :
    callFunction "substr" ([.str s, .int start] ++ (length?.map Value.int).toList) =
      .ok (.str (String.ofList
        (Function.slice s.toList start.toInt (length?.map Int64.toInt)))) := by
  cases length? <;> rfl

theorem Machine.callFunction_substr_eq (h : s.length < 2 ^ 63) :
    Machine.callFunction "substr" ([.str s, .int start] ++ (length?.map Value.int).toList) =
      .value (.str (String.ofList
        (Function.slice s.toList start.toInt (length?.map Int64.toInt)))) := by
  have hsteps :
      Machine.callFunction "substr" ([.str s, .int start] ++ (length?.map Value.int).toList) =
        (do
          let chars ← cut s.toList start length?
          pure (Value.str (String.ofList chars))) := by
    cases length? <;> rfl
  rw [hsteps, cut_eq (String.length_toList ▸ h)]
  rfl

end

/-- **A part of a text is cut out by places.** For every text, start and length, which may be left
out or null, the part has the characters from the place where it starts to the one where it stops,
both of them worked out in whole numbers. In sixty-four bits a machine cuts the same part out, of a
text that is not longer than any memory holds. And for every integer, the part from the beginning
with this length and the part from this place on are together the text. -/
theorem callFunction_substr (s : String) :
    (∀ (start : Int64) (length? : Option Int64),
      let total : Int := s.length
      let first := partStart total start.toInt
      let stop := partStop total first (length?.map Int64.toInt)
      let args := [.str s, .int start] ++ (length?.map Value.int).toList
      (0 ≤ first ∧ first ≤ stop ∧ stop ≤ total) ∧
      ∃ t : String, callFunction "substr" args = .ok (.str t) ∧
        (s.length < 2 ^ 63 → Machine.callFunction "substr" args = .value (.str t)) ∧
        (t.length : Int) = stop - first ∧
        ∀ i : Nat, i < t.length → t.toList[i]? = s.toList[first.toNat + i]?) ∧
    (∀ start : Int64, callFunction "substr" [.str s, .int start, .null] =
      callFunction "substr" [.str s, .int start]) ∧
    ∀ k : Int64, ∃ a b : String,
      callFunction "substr" [.str s, .int 0, .int k] = .ok (.str a) ∧
      callFunction "substr" [.str s, .int k] = .ok (.str b) ∧ a ++ b = s := by
  refine ⟨?part, fun start => rfl, ?beginning⟩
  case part =>
    intro start length? total first stop args
    obtain ⟨hzero, hfirst⟩ := partStart_mem (Int.natCast_nonneg s.length) start.toInt
    obtain ⟨hordered, hstop⟩ := partStop_mem hfirst (length?.map Int64.toInt)
    refine ⟨⟨hzero, hordered, hstop⟩, _, callFunction_substr_eq s start length?,
      Machine.callFunction_substr_eq s start length?, ?_, fun i hi => ?_⟩
    · rw [String.length_ofList, length_slice, String.length_toList]
    · rw [String.length_ofList] at hi
      rw [String.toList_ofList, getElem?_slice hi, String.length_toList]
  case beginning =>
    intro k
    refine ⟨_, _, callFunction_substr_eq s 0 (some k), callFunction_substr_eq s k none, ?_⟩
    rw [← String.ofList_append]
    have hzero : (0 : Int64).toInt = 0 := by decide
    have hparts := slice_append_slice s.toList k.toInt
    simp only [hzero, Option.map_some, Option.map_none, hparts, String.ofList_toList]

/-- The least and the greatest integer, as a start and as a length. -/
theorem callFunction_substr_extremes :
    "añb".length < 2 ^ 63 ∧
    Machine.callFunction "substr" [.str "añb", .int Int64.minValue, .int Int64.maxValue] =
      .value (.str "añb") ∧
    Machine.callFunction "substr" [.str "añb", .int Int64.maxValue, .int Int64.minValue] =
      .value (.str "") := by
  have hlength : "añb".length < 2 ^ 63 := by decide
  obtain ⟨hpart, _⟩ := callFunction_substr "añb"
  obtain ⟨_, t, hcall, hmachine, _⟩ := hpart Int64.minValue (some Int64.maxValue)
  obtain ⟨_, u, hcall', hmachine', _⟩ := hpart Int64.maxValue (some Int64.minValue)
  have ht : (.ok (.str t) : Except EvalError Value) = .ok (.str "añb") := hcall.symm.trans rfl
  have hu : (.ok (.str u) : Except EvalError Value) = .ok (.str "") := hcall'.symm.trans rfl
  cases ht
  cases hu
  exact ⟨hlength, hmachine hlength, hmachine' hlength⟩

end Stencil.Expr
