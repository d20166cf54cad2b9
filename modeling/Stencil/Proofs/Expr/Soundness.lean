import Stencil.Proofs.Expr.Syntax

/-!
The parser reads nothing but the grammar.

A parser is sound for a phrase when what it takes off the front of a token list spells what it
gives. This passes from the parsers that a level is made of to the level, by induction on the fuel
where there is a loop: what was read so far is a phrase of the level, and every round makes a longer
one out of it. For the parser of whole expressions there is only the depth left to be gone through.
-/

namespace Stencil.Expr.Grammar

/-! ## Words and operators -/

private theorem isKeyword_iff {word name : String}
    (hw : lowerAscii word.toList = word.toList) :
    isKeyword word name = true ↔ lowerName name = word := by
  rw [isKeyword, sameWord, beq_iff_eq, hw, lowerName]
  constructor
  · intro h
    rw [h, String.ofList_toList]
  · intro h
    rw [← h, String.toList_ofList]

/-- The operator that a token stands for on a level. -/
def Level.operator? : Level → Token → Option BinaryOp
  | .disjunction => orOp?
  | .conjunction => andOp?
  | .equality => equalityOp?
  | .order => orderOp?
  | .sum => sumOp?
  | .product => productOp?

theorem Sign.operator? {level : Level} {t : Token} {op : BinaryOp} (h : Sign level t op) :
    level.operator? t = some op := by
  cases h with
  | orWord hn => simp only [Level.operator?, orOp?, (isKeyword_iff (by decide)).mpr hn, if_true]
  | andWord hn => simp only [Level.operator?, andOp?, (isKeyword_iff (by decide)).mpr hn, if_true]
  | _ => rfl

theorem sign_of_operator? {level : Level} {t : Token} {op : BinaryOp}
    (h : level.operator? t = some op) : Sign level t op := by
  cases level with
  | disjunction =>
    change orOp? t = some op at h
    unfold orOp? at h
    split at h
    · cases h
      exact .or
    · split at h
      · next hn =>
        cases h
        exact .orWord ((isKeyword_iff (by decide)).mp hn)
      · cases h
    · cases h
  | conjunction =>
    change andOp? t = some op at h
    unfold andOp? at h
    split at h
    · cases h
      exact .and
    · split at h
      · next hn =>
        cases h
        exact .andWord ((isKeyword_iff (by decide)).mp hn)
      · cases h
    · cases h
  | equality =>
    change equalityOp? t = some op at h
    unfold equalityOp? at h
    split at h <;> cases h <;> constructor
  | order =>
    change orderOp? t = some op at h
    unfold orderOp? at h
    split at h <;> cases h <;> constructor
  | sum =>
    change sumOp? t = some op at h
    unfold sumOp? at h
    split at h <;> cases h <;> constructor
  | product =>
    change productOp? t = some op at h
    unfold productOp? at h
    split at h <;> cases h <;> constructor

theorem unaryOp?_eq_some_iff {t : Token} {op : UnaryOp} :
    unaryOp? t = some op ↔ UnarySign t op := by
  constructor
  · intro h
    unfold unaryOp? at h
    split at h
    · cases h; exact .not
    · cases h; exact .neg
    · cases h; exact .pos
    · split at h
      · next hn =>
        cases h
        exact .notWord ((isKeyword_iff (by decide)).mp hn)
      · cases h
    · cases h
  · intro h
    cases h with
    | notWord hn => simp only [unaryOp?, (isKeyword_iff (by decide)).mpr hn, if_true]
    | _ => rfl

/-- No sign is in front. -/
def Unsigned (ts : List Token) : Prop := ∀ t ∈ ts.head?, ∀ op, ¬ UnarySign t op

private theorem unsigned_nil : Unsigned [] := by
  intro t ht
  cases ht

private theorem unsigned_cons {t : Token} {ts : List Token} (h : unaryOp? t = none) :
    Unsigned (t :: ts) := by
  intro t' ht op hop
  cases ht
  rw [unaryOp?_eq_some_iff.mpr hop] at h
  cases h

theorem LiteralWord.ofName_eq {n : String} {v : Value} (h : LiteralWord (lowerName n) v) :
    ofName n = .literal v := by
  generalize hn : lowerName n = w at h
  cases h with
  | true => rw [ofName, if_pos ((isKeyword_iff (by decide)).mpr hn)]
  | false =>
    have ht : ¬ isKeyword "true" n := fun h =>
      absurd (hn.symm.trans ((isKeyword_iff (by decide)).mp h)) (by decide)
    rw [ofName, if_neg ht, if_pos ((isKeyword_iff (by decide)).mpr hn)]
  | null =>
    have ht : ¬ isKeyword "true" n := fun h =>
      absurd (hn.symm.trans ((isKeyword_iff (by decide)).mp h)) (by decide)
    have hf : ¬ isKeyword "false" n := fun h =>
      absurd (hn.symm.trans ((isKeyword_iff (by decide)).mp h)) (by decide)
    rw [ofName, if_neg ht, if_neg hf, if_pos ((isKeyword_iff (by decide)).mpr hn)]

theorem ofName_eq_name {n : String} (h : ∀ v, ¬ LiteralWord (lowerName n) v) :
    ofName n = .name n := by
  unfold ofName
  split
  · next hn =>
    have hv : LiteralWord (lowerName n) (.bool true) := by
      rw [(isKeyword_iff (by decide)).mp hn]
      exact .true
    exact absurd hv (h _)
  · split
    · next hn =>
      have hv : LiteralWord (lowerName n) (.bool false) := by
        rw [(isKeyword_iff (by decide)).mp hn]
        exact .false
      exact absurd hv (h _)
    · split
      · next hn =>
        have hv : LiteralWord (lowerName n) .null := by
          rw [(isKeyword_iff (by decide)).mp hn]
          exact .null
        exact absurd hv (h _)
      · rfl

theorem primary_ofName {Nested : Phrase Expr} {n : String} (hn : lowerName n ≠ "not") :
    Primary Nested [.name n] (ofName n) := by
  by_cases h : ∃ v, LiteralWord (lowerName n) v
  · obtain ⟨v, hv⟩ := h
    rw [hv.ofName_eq]
    exact .word hv
  · have hv : ∀ v, ¬ LiteralWord (lowerName n) v := fun v hv => h ⟨v, hv⟩
    rw [ofName_eq_name hv]
    exact .name hn hv

/-! ## Soundness -/

/-- What the parser takes off the front of a token list spells what it gives. -/
def Parser.Sound {α : Type} (p : Parser α) (P : Phrase α) : Prop :=
  ∀ ⦃ts : List Token⦄ ⦃a : α⦄ ⦃rest : List Token⦄, p ts = .ok (a, rest) →
    ∃ used, ts = used ++ rest ∧ P used a

theorem eq_cons_of_expect {s : Symbol} {ts rest : List Token} {u : Unit}
    (h : expect s ts = .ok (u, rest)) : ts = .symbol s :: rest := by
  unfold expect at h
  split at h
  · split at h
    · next hs =>
      cases h
      rw [hs]
    · cases h
  · cases h
  · cases h

section

variable {operand nested : Parser Expr} {Operand Nested : Phrase Expr}

private theorem sound_chainFrom {level : Level} (ho : operand.Sound Operand) {fuel : Nat}
    {left e : Expr} {us ts rest : List Token} (hl : Chain Operand level us left)
    (h : chainFrom level.operator? operand fuel left ts = .ok (e, rest)) :
    ∃ used, ts = used ++ rest ∧ Chain Operand level (us ++ used) e := by
  fun_induction chainFrom level.operator? operand fuel left ts generalizing us with
  | case1 left ts =>
    cases h
    exact ⟨[], rfl, by rwa [List.append_nil]⟩
  | case2 fuel left =>
    cases h
    exact ⟨[], rfl, by rwa [List.append_nil]⟩
  | case3 fuel left t ts hop =>
    cases h
    exact ⟨[], rfl, by rwa [List.append_nil]⟩
  | case4 => cases h
  | case5 fuel left t ts op hop right mid hright ih =>
    obtain ⟨vs, rfl, hv⟩ := ho hright
    obtain ⟨used, rfl, hused⟩ := ih (hl.join (sign_of_operator? hop) hv) h
    refine ⟨t :: (vs ++ used), by rw [List.cons_append, List.append_assoc], ?_⟩
    rwa [List.append_assoc, List.cons_append] at hused

theorem sound_chain (level : Level) (ho : operand.Sound Operand) :
    (chain level.operator? operand).Sound (Chain Operand level) := by
  intro ts e rest h
  unfold chain at h
  split at h
  · cases h
  · next left mid hleft =>
    obtain ⟨us, rfl, hu⟩ := ho hleft
    obtain ⟨used, rfl, hused⟩ := sound_chainFrom ho (.operand hu) h
    exact ⟨us ++ used, by rw [List.append_assoc], hused⟩

/-- The operand is only read where no sign stands in front of it. -/
theorem sound_unary
    (ho : ∀ {ts e rest}, Unsigned ts → operand ts = .ok (e, rest) →
      ∃ used, ts = used ++ rest ∧ Operand used e) :
    (unary operand).Sound (Unary Operand) := by
  intro ts e rest h
  fun_induction unary operand ts generalizing e with
  | case1 =>
    obtain ⟨used, hts, hused⟩ := ho unsigned_nil h
    exact ⟨used, hts, .operand hused⟩
  | case2 t ts hop =>
    obtain ⟨used, hts, hused⟩ := ho (unsigned_cons hop) h
    exact ⟨used, hts, .operand hused⟩
  | case3 => cases h
  | case4 t ts op hop e mid he ih =>
    cases h
    obtain ⟨used, rfl, hused⟩ := ih he
    exact ⟨t :: used, rfl, .sign (unaryOp?_eq_some_iff.mp hop) hused⟩

private theorem sound_coalesceFrom (ho : operand.Sound Operand) (fuel : Nat) :
    (coalesceFrom operand fuel).Sound (Coalesced Operand) := by
  intro ts e rest h
  fun_induction coalesceFrom operand fuel ts generalizing e with
  | case1 =>
    obtain ⟨used, hts, hused⟩ := ho h
    exact ⟨used, hts, .operand hused⟩
  | case2 => cases h
  | case3 => cases h
  | case4 fuel ts left mid hleft right mid' hright ih =>
    cases h
    obtain ⟨us, rfl, hu⟩ := ho hleft
    obtain ⟨vs, rfl, hv⟩ := ih hright
    refine ⟨us ++ .symbol .coalesce :: vs, ?_, .join hu hv⟩
    rw [List.append_assoc, List.cons_append]
  | case5 fuel ts left mid _ hleft =>
    cases h
    obtain ⟨used, hts, hused⟩ := ho hleft
    exact ⟨used, hts, .operand hused⟩

theorem sound_coalesced (ho : operand.Sound Operand) :
    (coalesced operand).Sound (Coalesced Operand) :=
  fun ts _ _ h => sound_coalesceFrom ho ts.length h

private theorem sound_itemsFrom {close : Symbol} (hn : nested.Sound Nested) {fuel : Nat}
    {ts rest : List Token} {es : List Expr}
    (h : itemsFrom nested close fuel ts = .ok (es, rest)) :
    ∃ used, ts = used ++ .symbol close :: rest ∧ Items Nested used es := by
  induction fuel generalizing ts es with
  | zero =>
    rw [itemsFrom] at h
    cases h
  | succ fuel ih =>
    have hitem : ∀ {ts es}, itemsFrom.item nested close fuel ts = .ok (es, rest) →
        ∃ used, ts = used ++ .symbol close :: rest ∧ Items Nested used es := by
      intro ts es h
      unfold itemsFrom.item at h
      split at h
      · cases h
      · next e mid he =>
        obtain ⟨us, rfl, hu⟩ := hn he
        split at h
        · cases h
        · next hmore =>
          cases h
          obtain ⟨vs, rfl, hv⟩ := ih hmore
          refine ⟨us ++ .symbol .comma :: vs, ?_, .cons hu hv⟩
          rw [List.append_assoc, List.cons_append]
      · next e mid _ he =>
        obtain ⟨us, rfl, hu⟩ := hn he
        split at h
        · cases h
        · next hclose =>
          cases h
          rw [eq_cons_of_expect hclose]
          exact ⟨us, rfl, .last hu⟩
    unfold itemsFrom at h
    split at h
    · split at h
      · next hs =>
        cases h
        rw [hs]
        exact ⟨[], rfl, .nil⟩
      · exact hitem h
    · exact hitem h

theorem sound_primary (hn : nested.Sound Nested) {ts rest : List Token} {e : Expr}
    (hts : Unsigned ts) (h : primary nested ts = .ok (e, rest)) :
    ∃ used, ts = used ++ rest ∧ Primary Nested used e := by
  have hname : ∀ {n us}, ts = .name n :: us → lowerName n ≠ "not" := by
    intro n us heq hn
    rw [heq] at hts
    exact hts _ rfl _ (.notWord hn)
  unfold primary at h
  split at h
  · next n ts =>
    cases h
    exact ⟨[.int n], rfl, .int n⟩
  · next x ts =>
    cases h
    exact ⟨[.float x], rfl, .float x⟩
  · next s ts =>
    cases h
    exact ⟨[.str s], rfl, .str s⟩
  · next n ts =>
    cases h
    exact ⟨[.var n], rfl, .var n⟩
  · next n ts =>
    split at h
    · cases h
    · next args mid hargs =>
      cases h
      obtain ⟨us, rfl, hu⟩ := sound_itemsFrom hn hargs
      refine ⟨.name n :: .symbol .lParen :: us ++ [.symbol .rParen], ?_, .call (hname rfl) hu⟩
      simp only [List.cons_append, List.append_assoc, List.nil_append]
  · next n ts _ =>
    cases h
    exact ⟨[.name n], rfl, primary_ofName (hname rfl)⟩
  · next ts =>
    split at h
    · cases h
    · next e mid he =>
      obtain ⟨us, rfl, hu⟩ := hn he
      split at h
      · cases h
      · next hclose =>
        cases h
        rw [eq_cons_of_expect hclose]
        refine ⟨.symbol .lParen :: us ++ [.symbol .rParen], ?_, .parens hu⟩
        simp only [List.cons_append, List.append_assoc, List.nil_append]
  · next ts =>
    split at h
    · cases h
    · next es mid hes =>
      cases h
      obtain ⟨us, rfl, hu⟩ := sound_itemsFrom hn hes
      refine ⟨.symbol .lBracket :: us ++ [.symbol .rBracket], ?_, .list hu⟩
      simp only [List.cons_append, List.append_assoc, List.nil_append]
  · cases h

private theorem sound_member (hn : nested.Sound Nested) {us ts rest : List Token} {object e : Expr}
    {t : Token} (ho : Suffixed Nested us object) (ht : Access t)
    (h : member nested object ts = .ok (e, rest)) :
    ∃ used, ts = used ++ rest ∧ Suffixed Nested (us ++ t :: used) e := by
  unfold member at h
  split at h
  · next n ts =>
    split at h
    · cases h
    · next args mid hargs =>
      cases h
      obtain ⟨vs, rfl, hv⟩ := sound_itemsFrom hn hargs
      refine ⟨.name n :: .symbol .lParen :: vs ++ [.symbol .rParen], ?_, ?_⟩
      · simp only [List.cons_append, List.append_assoc, List.nil_append]
      · have hm := Suffixed.method n ho ht hv
        rwa [List.append_assoc] at hm
  · next n ts _ =>
    cases h
    exact ⟨[.name n], rfl, .member n ho ht⟩
  · next n ts =>
    cases h
    exact ⟨[.int n], rfl, .position n ho ht⟩
  · cases h

private theorem sound_suffixesFrom (hn : nested.Sound Nested) {fuel : Nat} {object e : Expr}
    {us ts rest : List Token} (ho : Suffixed Nested us object)
    (h : suffixesFrom nested fuel object ts = .ok (e, rest)) :
    ∃ used, ts = used ++ rest ∧ Suffixed Nested (us ++ used) e := by
  have hend : ∀ {us e}, Suffixed Nested us e →
      ∃ used, rest = used ++ rest ∧ Suffixed Nested (us ++ used) e := by
    intro us e he
    exact ⟨[], rfl, by rwa [List.append_nil]⟩
  fun_induction suffixesFrom nested fuel object ts generalizing us with
  | case1 =>
    cases h
    exact hend ho
  | case2 => cases h
  | case3 fuel object ts e' mid hm ih =>
    obtain ⟨vs, rfl, hv⟩ := sound_member hn ho .dot hm
    obtain ⟨used, rfl, hused⟩ := ih hv h
    refine ⟨.symbol .dot :: (vs ++ used), by rw [List.cons_append, List.append_assoc], ?_⟩
    rwa [List.append_assoc, List.cons_append] at hused
  | case4 => cases h
  | case5 fuel object ts e' mid hm ih =>
    obtain ⟨vs, rfl, hv⟩ := sound_member hn ho .arrow hm
    obtain ⟨used, rfl, hused⟩ := ih hv h
    refine ⟨.symbol .arrow :: (vs ++ used), by rw [List.cons_append, List.append_assoc], ?_⟩
    rwa [List.append_assoc, List.cons_append] at hused
  | case6 => cases h
  | case7 => cases h
  | case8 fuel object ts i mid hi _ mid' hclose ih =>
    obtain ⟨vs, rfl, hv⟩ := hn hi
    rw [eq_cons_of_expect hclose]
    obtain ⟨used, rfl, hused⟩ := ih (.index ho hv) h
    refine ⟨.symbol .lBracket :: (vs ++ .symbol .rBracket :: used), ?_, ?_⟩
    · simp only [List.cons_append, List.append_assoc]
    · simpa only [List.append_assoc, List.cons_append, List.nil_append] using hused
  | case9 =>
    cases h
    exact hend ho

theorem sound_suffixed (hn : nested.Sound Nested) {ts rest : List Token} {e : Expr}
    (hts : Unsigned ts) (h : suffixed nested ts = .ok (e, rest)) :
    ∃ used, ts = used ++ rest ∧ Suffixed Nested used e := by
  unfold suffixed at h
  split at h
  · cases h
  · next object mid hobject =>
    obtain ⟨us, rfl, hu⟩ := sound_primary hn hts hobject
    obtain ⟨used, rfl, hused⟩ := sound_suffixesFrom hn (.primary hu) h
    exact ⟨us ++ used, by rw [List.append_assoc], hused⟩

theorem sound_disjunction (hn : nested.Sound Nested) :
    (disjunction nested).Sound (Disjunction Nested) :=
  sound_chain .disjunction <| sound_chain .conjunction <|
    sound_chain .equality <| sound_chain .order <|
    sound_chain .sum <| sound_chain .product <|
    sound_unary (sound_suffixed hn)

theorem sound_conditional (hn : nested.Sound Nested)
    (ho : (coalesced (disjunction nested)).Sound Operand) :
    (conditional nested).Sound (Conditional Operand Nested) := by
  intro ts e rest h
  unfold conditional at h
  split at h
  · cases h
  · next c ts' hc =>
    obtain ⟨us, rfl, hu⟩ := ho hc
    split at h
    · cases h
    · next no mid hno =>
      cases h
      obtain ⟨vs, rfl, hv⟩ := hn hno
      refine ⟨us ++ .symbol .question :: .symbol .colon :: vs, ?_, .short hu hv⟩
      simp only [List.append_assoc, List.cons_append]
  · next c ts' _ hc =>
    obtain ⟨us, rfl, hu⟩ := ho hc
    split at h
    · cases h
    · next yes mid hyes =>
      obtain ⟨vs, rfl, hv⟩ := hn hyes
      split at h
      · cases h
      · next hcolon =>
        rw [eq_cons_of_expect hcolon]
        split at h
        · cases h
        · next no mid' hno =>
          cases h
          obtain ⟨ws, rfl, hw⟩ := hn hno
          refine ⟨us ++ .symbol .question :: vs ++ .symbol .colon :: ws, ?_, .full hu hv hw⟩
          simp only [List.append_assoc, List.cons_append]
  · next c ts' _ _ hc =>
    cases h
    obtain ⟨us, hts, hu⟩ := ho hc
    exact ⟨us, hts, .operand hu⟩

theorem sound_expression (depth : Nat) : (expression depth).Sound Expression := by
  induction depth with
  | zero =>
    intro ts e rest h
    cases h
  | succ depth ih =>
    intro ts e rest h
    obtain ⟨used, hts, hused⟩ :=
      sound_conditional ih (sound_coalesced (sound_disjunction ih)) h
    exact ⟨used, hts, .mk hused⟩

end

/-- What the parser of whole expressions is sound for holds of every token list that is read. -/
theorem of_ofTokens {P : Phrase Expr} (hP : ∀ depth, (expression depth).Sound P)
    {ts : List Token} {e : Expr} (h : ofTokens ts = .ok e) : P ts e := by
  unfold ofTokens at h
  split at h
  · cases h
  · split at h
    · cases h
    · next hread =>
      cases h
      obtain ⟨used, hts, hused⟩ := hP _ hread
      rwa [hts, List.append_nil]
    · cases h

end Stencil.Expr.Grammar
