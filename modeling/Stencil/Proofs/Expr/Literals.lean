import Mathlib.Algebra.Ring.Nat
import Stencil.Proofs.Expr.Completeness
import Stencil.Proofs.Expr.Integers
import Stencil.Proofs.Expr.Path
import Stencil.Value.Text

/-!
Integers as literals.

The text of an integer is digits, perhaps with underscores behind the first one, and a minus sign in
front of them if it is negative (`IntegerText`). The sign is an operator, and the digits are read as
if it were not there (`unsigned`): digits that sixty-four bits hold are an integer, which is then
negated, and all others are a float. So a text is read as the integer that it stands for as long as
this fits (`IntegerText.tryEvaluate_of_lt`), but for the least one, whose digits fit with their sign
only (`tryEvaluate_least`). Main statement: `tryEvaluate_integer`.
-/

namespace Stencil.Expr

/-- What digits are read as. -/
def unsigned (m : Nat) : Number :=
  match fit? m with
  | some n => .int n
  | none => .float (FloatText.nearest m 0)

/-! ## Tokens -/

section

variable {s : List Char} (hs : ∀ c ∈ s, isNumberChar c = true)
  (hstart : s.head?.any Char.isDigit = true)
include hs hstart

/-- Digits are one token, and the token is an expression. -/
theorem exists_unsigned_token : ∃ t, Lexes s [t] ∧ Grammar.Primary Grammar.Expression [t]
    (.literal (unsigned (valueOf (s.filter Char.isDigit))).toValue) := by
  have hsplit := splitDigits_of_forall hs
  have hlexes : ∀ t, lexNumber s = (t, []) → Lexes s [t] := by
    intro t ht
    have h : Lexes (s ++ []) [t] := lexes_number hstart (by rw [List.append_nil, ht]) (.nil rfl)
    rwa [List.append_nil] at h
  unfold unsigned
  split
  · next n hfit =>
    have hnumber : lexNumber s = (.int n, []) := by
      simp only [lexNumber, hsplit, splitFraction, splitExponent, hfit]
    exact ⟨.int n, hlexes _ hnumber, .int n⟩
  · next hfit =>
    have hnumber : lexNumber s =
        (.float (FloatText.nearest (valueOf (s.filter Char.isDigit)) 0), []) := by
      simp [lexNumber, hsplit, splitFraction, splitExponent, hfit]
    exact ⟨_, hlexes _ hnumber, .float _⟩

omit hs in
theorem lexes_minus {ts : List Token} (h : Lexes s ts) : Lexes ('-' :: s) (.symbol .minus :: ts) := by
  cases s with
  | nil => cases hstart
  | cons d s =>
    have harrow : ('>' == d) = false := by
      rw [beq_eq_false_iff_ne]
      rintro rfl
      cases hstart
    have hsymbol : lexSymbol ('-' :: d :: s) = some (.minus, d :: s) := by
      simp [lexSymbol, Symbol.spellings, List.find?, List.isPrefixOf, harrow]
    have htoken : lexToken 0 '-' (d :: s) = .ok (.symbol .minus, d :: s) := by
      simp [lexToken, splitName, isNameStart, hsymbol]
    exact .token (by decide) htoken h

/-! ## Values -/

omit hs hstart in
theorem toNumber_toValue (n : Number) : toNumber n.toValue = .ok n := by cases n <;> rfl

theorem tryEvaluate_unsigned (c : Context) :
    tryEvaluate s c = .ok (unsigned (valueOf (s.filter Char.isDigit))).toValue := by
  obtain ⟨t, ht, hprimary⟩ := exists_unsigned_token hs hstart
  have hparse := parse_eq_ok_iff.mpr
    ⟨[t], ht, ofTokens_of_expression (Grammar.expression_of_primary hprimary)⟩
  rw [tryEvaluate, hparse]
  rfl

theorem tryEvaluate_minus (c : Context) :
    tryEvaluate ('-' :: s) c = asValue (negate (unsigned (valueOf (s.filter Char.isDigit)))) := by
  obtain ⟨t, ht, hprimary⟩ := exists_unsigned_token hs hstart
  have hsum := Grammar.expression_of_sum
    (.operand (.operand (.sign .neg (.operand (.primary hprimary)))))
  have hparse := parse_eq_ok_iff.mpr
    ⟨_, lexes_minus hstart ht, ofTokens_of_expression hsum⟩
  rw [tryEvaluate, hparse]
  simp only [eval, applyUnary, toNumber_toValue]

end

theorem unsigned_of_lt {m : Nat} (h : m < 2 ^ 63) :
    ∃ k : Int64, k.toInt = m ∧ unsigned m = .int k := by
  obtain ⟨k, hk, hm⟩ := exists_fit? (n := m) ⟨by omega, by omega⟩
  exact ⟨k, hm, by rw [unsigned, hk]⟩

theorem unsigned_of_le {m : Nat} (h : 2 ^ 63 ≤ m) :
    unsigned m = .float (FloatText.nearest m 0) := by
  have hnone : fit? (m : Int) = none := fit?_eq_none_iff.mpr fun hfits => by
    have := hfits.2
    omega
  rw [unsigned, hnone]

theorem lookUp?_of_not_isNameStart {d : Char} (hdollar : d ≠ '$') (hd : isNameStart d = false)
    (ds : List Char) (c : Context) : lookUp? (d :: ds) c = none := by
  unfold lookUp?
  split
  · next heq =>
    cases heq
    exact absurd rfl hdollar
  · rw [isName, hd]
    rfl

/-! ## Texts of integers -/

/-- A text that an integer can be written as. -/
structure IntegerText where
  negative : Bool
  numeral : List Char
  starts : numeral.head?.any Char.isDigit = true
  forall_isNumberChar : ∀ c ∈ numeral, isNumberChar c = true

namespace IntegerText

variable (t : IntegerText)

def text : List Char := if t.negative then '-' :: t.numeral else t.numeral

def magnitude : Nat := valueOf (t.numeral.filter Char.isDigit)

def value : Int := if t.negative then -t.magnitude else t.magnitude

/-- The nearest float. -/
def nearest : Float :=
  if t.negative then (FloatText.nearest t.magnitude 0).neg else FloatText.nearest t.magnitude 0

/-- The text starts as no name does. -/
theorem exists_first : ∃ d ds, t.text = d :: ds ∧ d ≠ '$' ∧ isNameStart d = false := by
  rw [text]
  split
  · exact ⟨'-', t.numeral, rfl, by decide, by decide⟩
  · have hstart := t.starts
    cases hnumeral : t.numeral with
    | nil =>
      rw [hnumeral] at hstart
      cases hstart
    | cons d ds =>
      rw [hnumeral] at hstart
      have hd : d.isDigit = true := hstart
      refine ⟨d, ds, rfl, ?_, Bool.eq_false_iff.mpr fun hname => ?_⟩
      · rintro rfl
        cases hd
      · rw [isDigit_of_isNameStart hname] at hd
        cases hd

theorem magnitude_lt_iff :
    t.magnitude < 2 ^ 63 ↔ FitsInt64 t.value ∧ t.value ≠ Int64.minValue.toInt := by
  have hmin : Int64.minValue.toInt = -2 ^ 63 := by decide
  rw [FitsInt64, value, hmin]
  split <;> omega

variable {t}

theorem tryEvaluate_of_lt (h : t.magnitude < 2 ^ 63) (c : Context) :
    ∃ k : Int64, k.toInt = t.value ∧ tryEvaluate t.text c = .ok (.int k) := by
  obtain ⟨k, hk, hunsigned⟩ := unsigned_of_lt h
  rw [text, value]
  split
  · obtain ⟨k', hk', hneg⟩ := intResult_of_fits (n := -k.toInt) (by rw [hk, FitsInt64]; omega)
    refine ⟨k', by rw [hk', hk], ?_⟩
    rw [tryEvaluate_minus t.forall_isNumberChar t.starts, ← magnitude, hunsigned, negate, hneg]
    rfl
  · refine ⟨k, hk, ?_⟩
    rw [tryEvaluate_unsigned t.forall_isNumberChar t.starts, ← magnitude, hunsigned]
    rfl

theorem tryEvaluate_of_le (h : 2 ^ 63 ≤ t.magnitude) (c : Context) :
    tryEvaluate t.text c = .ok (.float t.nearest) := by
  rw [text, nearest]
  split
  · rw [tryEvaluate_minus t.forall_isNumberChar t.starts, ← magnitude, unsigned_of_le h]
    rfl
  · rw [tryEvaluate_unsigned t.forall_isNumberChar t.starts, ← magnitude, unsigned_of_le h]
    rfl

theorem tryEvaluate_eq_int_iff {c : Context} {k : Int64} :
    tryEvaluate t.text c = .ok (.int k) ↔ k.toInt = t.value ∧ k ≠ Int64.minValue := by
  by_cases h : t.magnitude < 2 ^ 63
  · obtain ⟨n, hn, hvalue⟩ := tryEvaluate_of_lt h c
    have hne : n ≠ Int64.minValue := fun hmin =>
      (t.magnitude_lt_iff.mp h).2 (by rw [← hn, hmin])
    rw [hvalue, Except.ok.injEq, Value.int.injEq, ← hn, Int64.toInt_inj]
    constructor
    · rintro rfl
      exact ⟨rfl, hne⟩
    · exact fun hk => hk.1.symm
  · rw [tryEvaluate_of_le (Nat.le_of_not_lt h)]
    constructor
    · nofun
    · rintro ⟨hk, hne⟩
      refine absurd (t.magnitude_lt_iff.mpr ⟨hk ▸ fitsInt64_toInt k, fun hmin => ?_⟩) h
      exact hne (Int64.toInt_inj.mp (hk.trans hmin))

theorem tryEvaluate_eq_float_iff {c : Context} : (∃ x, tryEvaluate t.text c = .ok (.float x)) ↔
    ¬ FitsInt64 t.value ∨ t.value = Int64.minValue.toInt := by
  have hlarge : ¬ t.magnitude < 2 ^ 63 ↔ ¬ FitsInt64 t.value ∨ t.value = Int64.minValue.toInt := by
    rw [magnitude_lt_iff, not_and_or, not_not]
  rw [← hlarge]
  constructor
  · rintro ⟨x, hx⟩ hlt
    obtain ⟨k, _, hk⟩ := tryEvaluate_of_lt hlt c
    cases hk.symm.trans hx
  · exact fun hle => ⟨_, tryEvaluate_of_le (Nat.le_of_not_lt hle) c⟩

/-- Nothing is looked up at once, and there is no white space to cut off. -/
theorem evaluate_text (c : Context) :
    evaluate t.text c = (tryEvaluate t.text c).toOption.getD .null := by
  have hnumeral : ∀ d ∈ t.numeral, isBlank d = false := by
    intro d hd
    have hname := isNameChar_of_isNumberChar (t.forall_isNumberChar d hd)
    exact Bool.eq_false_iff.mpr (not_isBlank_of_isNameChar hname)
  have htrim : trim t.text = t.text := by
    refine trim_of_forall fun d hd => ?_
    rw [text] at hd
    split at hd
    · exact (List.mem_cons.mp hd).elim (by rintro rfl; rfl) (hnumeral d)
    · exact hnumeral d hd
  have hlook : lookUp? t.text c = none := by
    obtain ⟨d, ds, htext, hdollar, hstart⟩ := t.exists_first
    rw [htext, lookUp?_of_not_isNameStart hdollar hstart]
  rw [evaluate, htrim, hlook]
  cases tryEvaluate t.text c <;> rfl

/-- The text that an integer is printed as. -/
def ofInt (n : Int) : IntegerText where
  negative := n < 0
  numeral := digits n.natAbs
  starts := by
    obtain ⟨d, ds, hd⟩ := List.exists_cons_of_ne_nil (digits_ne_nil n.natAbs)
    rw [hd]
    exact isDigit_of_mem_digits (n := n.natAbs) (by rw [hd]; exact List.mem_cons_self)
  forall_isNumberChar c hc := Bool.or_eq_true_iff.mpr (.inl (isDigit_of_mem_digits hc))

theorem text_ofInt (n : Int) : (ofInt n).text = signedDigits n := by
  simp [text, ofInt, signedDigits]

theorem value_ofInt (n : Int) : (ofInt n).value = n := by
  have hfilter : (digits n.natAbs).filter Char.isDigit = digits n.natAbs :=
    List.filter_eq_self.mpr fun c hc => isDigit_of_mem_digits hc
  simp only [value, magnitude, ofInt, hfilter, valueOf_digits, decide_eq_true_eq]
  split <;> omega

end IntegerText

/-- **Integers as literals.** An integer that is printed is read back as that integer, and templates
read it so too, unless it is the least one. In general the text of an integer, with or without
underscores, is read as the integer that it stands for, or as a float; and a float it is only if
sixty-four bits do not hold the integer, or if this is the least one. -/
theorem tryEvaluate_integer (c : Context) :
    (∀ n : Int64,
      (tryEvaluate (Value.int n).text.toList c = .ok (.int n) ↔ n ≠ Int64.minValue) ∧
      (evaluate (Value.int n).text.toList c = .int n ↔ n ≠ Int64.minValue)) ∧
    ∀ t : IntegerText,
      (∀ k, tryEvaluate t.text c = .ok (.int k) ↔ k.toInt = t.value ∧ k ≠ Int64.minValue) ∧
      ((∃ x, tryEvaluate t.text c = .ok (.float x)) ↔
        ¬ FitsInt64 t.value ∨ t.value = Int64.minValue.toInt) := by
  refine ⟨fun n => ?_, fun t =>
    ⟨fun _ => IntegerText.tryEvaluate_eq_int_iff, IntegerText.tryEvaluate_eq_float_iff⟩⟩
  have htext : (Value.int n).text.toList = (IntegerText.ofInt n.toInt).text := by
    rw [IntegerText.text_ofInt, Value.text, String.toList_ofList]
  have hread : tryEvaluate (Value.int n).text.toList c = .ok (.int n) ↔ n ≠ Int64.minValue := by
    rw [htext, IntegerText.tryEvaluate_eq_int_iff, IntegerText.value_ofInt]
    exact and_iff_right rfl
  refine ⟨hread, ?_⟩
  rw [← hread, htext, IntegerText.evaluate_text]
  cases tryEvaluate (IntegerText.ofInt n.toInt).text c <;> simp [Except.toOption]

/-- The least integer is read as the same number, but as a float. -/
theorem tryEvaluate_least :
    (Value.int Int64.minValue).text = "-9223372036854775808" ∧
    (∃ x, tryEvaluate "-9223372036854775808".toList .empty = .ok (.float x) ∧
      Double.ofFloat x = .finite true (2 ^ 52) 11) ∧
    tryEvaluate "-9223372036854775808".toList .empty ≠ .ok (.int Int64.minValue) := by
  have hdigits : signedDigits Int64.minValue.toInt = "-9223372036854775808".toList := by decide
  have htext := (IntegerText.text_ofInt Int64.minValue.toInt).trans hdigits
  have hvalue := IntegerText.tryEvaluate_of_le (t := .ofInt Int64.minValue.toInt) (by decide) .empty
  have hnearest : Double.ofFloat (IntegerText.ofInt Int64.minValue.toInt).nearest =
      .finite true (2 ^ 52) 11 := by
    decide +kernel
  rw [htext] at hvalue
  refine ⟨by rw [Value.text, hdigits, String.ofList_toList], ⟨_, hvalue, hnearest⟩, ?_⟩
  rw [hvalue]
  nofun

end Stencil.Expr
