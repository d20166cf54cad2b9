import Stencil.Proofs.Expr.Soundness

/-!
The parser reads all of the grammar.

A parser is complete for a phrase when it takes every spelling off the front of a token list in
which no token follows that could go on with it. At an operator that groups to the left this is not
enough for an induction, since there the parser goes on; instead, after any part of a chain the
parser is where it would be had it just read an operand (`chain_append`), and likewise for suffixes.

Sizes are bounded all along. What nests inside brackets or in a conditional is shorter than the
whole, so that the depth that the parser starts with is enough.
-/

namespace Stencil.Expr

namespace Grammar

/-- The parser takes every spelling of at most this size off the front of a token list, where the
next token, if there is one, is of this kind. -/
def Parser.Complete {α : Type} (p : Parser α) (P : Phrase α) (size : Nat)
    (next : Token → Prop) : Prop :=
  ∀ ⦃used : List Token⦄ ⦃a : α⦄ ⦃rest : List Token⦄, P used a → used.length ≤ size →
    (∀ t ∈ rest.head?, next t) → p (used ++ rest) = .ok (a, rest)

private theorem forall_head_cons {next : Token → Prop} {t : Token} {ts : List Token}
    (h : next t) : ∀ t' ∈ (t :: ts).head?, next t' := by
  intro t' ht'
  cases ht'
  exact h

section

variable {operand nested : Parser Expr} {Operand Nested : Phrase Expr} {size : Nat}
  {levels : List Level}

theorem expect_cons (s : Symbol) (ts : List Token) : expect s (.symbol s :: ts) = .ok ((), ts) :=
  if_pos rfl

private theorem chainFrom_of_none {operator? : Token → Option BinaryOp} (fuel : Nat) (e : Expr)
    {rest : List Token} (h : ∀ t ∈ rest.head?, operator? t = none) :
    chainFrom operator? operand fuel e rest = .ok (e, rest) := by
  cases fuel with
  | zero => rfl
  | succ fuel =>
    cases rest with
    | nil => rfl
    | cons t ts => rw [chainFrom, h t rfl]

/-- After a chain was read, the parser is where it would be had it read an operand. -/
private theorem chain_append {level : Level} (hl : level ∉ levels)
    (ho : operand.Complete Operand size fun t => ¬ Continues levels t) {us rest : List Token}
    {e : Expr} (h : Chain Operand level us e) (hsize : us.length ≤ size)
    (hrest : ∀ t ∈ rest.head?, ¬ Continues levels t) :
    ∃ fuel, rest.length ≤ fuel ∧ chain level.operator? operand (us ++ rest) =
      chainFrom level.operator? operand fuel e rest := by
  induction h generalizing rest with
  | operand h =>
    refine ⟨rest.length, Nat.le_refl _, ?_⟩
    rw [chain, ho h hsize hrest]
  | @join ts us t op l r _ hs hr ih =>
    rw [List.length_append, List.length_cons] at hsize
    have hnext : ∀ t' ∈ (t :: us ++ rest).head?, ¬ Continues levels t' :=
      forall_head_cons (hs.not_continues hl)
    obtain ⟨fuel, hfuel, heq⟩ := ih (by omega) hnext
    cases fuel with
    | zero => cases hfuel
    | succ fuel =>
      rw [List.length_append, List.length_cons] at hfuel
      refine ⟨fuel, by omega, ?_⟩
      rw [List.append_assoc, heq, List.cons_append, chainFrom, hs.operator?]
      simp only [ho hr (by omega) hrest]

theorem complete_chain (level : Level) (hl : level ∉ levels)
    (ho : operand.Complete Operand size fun t => ¬ Continues levels t) :
    (chain level.operator? operand).Complete (Chain Operand level) size
      fun t => ¬ Continues (level :: levels) t := by
  intro used e rest h hsize hrest
  have hother : ∀ t ∈ rest.head?, ¬ Continues levels t := by
    intro t ht hc
    refine hrest t ht ?_
    cases hc with
    | lParen => exact .lParen
    | lBracket => exact .lBracket
    | access ha => exact .access ha
    | sign hmem hs => exact .sign (List.mem_cons_of_mem _ hmem) hs
  have hnone : ∀ t ∈ rest.head?, level.operator? t = none := by
    intro t ht
    rw [Option.eq_none_iff_forall_ne_some]
    intro op hop
    exact hrest t ht (.sign List.mem_cons_self (sign_of_operator? hop))
  obtain ⟨fuel, _, heq⟩ := chain_append hl ho h hsize hother
  rw [heq, chainFrom_of_none fuel e hnone]

theorem complete_unary {next : Token → Prop}
    (hstart : Operand.Starts Opens)
    (ho : operand.Complete Operand size next) :
    (unary operand).Complete (Unary Operand) size next := by
  intro used e rest h hsize hrest
  induction h with
  | operand h =>
    rw [← ho h hsize hrest]
    obtain ⟨t, us, rfl, _, ht⟩ := hstart h
    have hnone : unaryOp? t = none := by
      rw [Option.eq_none_iff_forall_ne_some]
      intro op hop
      exact ht op (unaryOp?_eq_some_iff.mp hop)
    rw [List.cons_append, unary, hnone]
  | sign hs _ ih =>
    rw [List.length_cons] at hsize
    rw [List.cons_append, unary, unaryOp?_eq_some_iff.mpr hs]
    simp only [ih (by omega)]

private theorem complete_coalesceFrom (fuel : Nat)
    (ho : operand.Complete Operand size fun t => ¬ Continues levels t) {used rest : List Token}
    {e : Expr} (h : Coalesced Operand used e) (hfuel : used.length ≤ fuel)
    (hsize : used.length ≤ size)
    (hrest : ∀ t ∈ rest.head?, ¬ Continues levels t ∧ t ≠ .symbol .coalesce) :
    coalesceFrom operand fuel (used ++ rest) = .ok (e, rest) := by
  have hother : ∀ t ∈ rest.head?, ¬ Continues levels t := fun t ht => (hrest t ht).1
  induction h generalizing fuel with
  | operand h =>
    cases fuel with
    | zero => exact ho h hsize hother
    | succ fuel =>
      rw [coalesceFrom, ho h hsize hother]
      split
      · next heq => cases heq
      · next heq =>
        cases heq
        exact absurd rfl (hrest _ rfl).2
      · next heq =>
        cases heq
        rfl
  | @join ts us l r hl _ ih =>
    rw [List.length_append, List.length_cons] at hfuel hsize
    have hnext : ¬ Continues levels (.symbol .coalesce) := by
      intro hc
      cases hc with
      | access ha => cases ha
      | sign _ hs => cases hs
    cases fuel with
    | zero => omega
    | succ fuel =>
      rw [List.append_assoc, List.cons_append, coalesceFrom,
        ho hl (by omega) (forall_head_cons hnext)]
      simp only [ih fuel (by omega) (by omega)]

theorem complete_coalesced (ho : operand.Complete Operand size fun t => ¬ Continues levels t) :
    (coalesced operand).Complete (Coalesced Operand) size
      fun t => ¬ Continues levels t ∧ t ≠ .symbol .coalesce := by
  intro used e rest h hsize hrest
  exact complete_coalesceFrom _ ho h (by rw [List.length_append]; omega) hsize hrest

/-- An item does not start with the closing bracket, so it is read as an item. -/
private theorem itemsFrom_eq_item {close : Symbol} (hclose : Closes (.symbol close))
    (hstart : Nested.Starts fun t => ¬ Closes t) {us : List Token} {e : Expr} (he : Nested us e)
    (fuel : Nat) (mid : List Token) :
    itemsFrom nested close (fuel + 1) (us ++ mid) =
      itemsFrom.item nested close fuel (us ++ mid) := by
  obtain ⟨t, vs, rfl, ht⟩ := hstart he
  unfold itemsFrom
  split
  · next heq =>
    cases heq
    rw [if_neg]
    intro hs
    rw [hs] at ht
    exact ht hclose
  · rfl

private theorem complete_itemsFrom {close : Symbol} (hclose : Closes (.symbol close))
    (hcomma : close ≠ .comma) (hstart : Nested.Starts fun t => ¬ Closes t)
    (hn : nested.Complete Nested size Closes) {used : List Token} {es : List Expr}
    (h : Items Nested used es) (hsize : used.length ≤ size) {fuel : Nat}
    (hfuel : used.length < fuel) (rest : List Token) :
    itemsFrom nested close fuel (used ++ .symbol close :: rest) = .ok (es, rest) := by
  induction h generalizing fuel with
  | nil =>
    cases fuel with
    | zero => omega
    | succ fuel =>
      unfold itemsFrom
      exact if_pos rfl
  | @last ts e he =>
    cases fuel with
    | zero => omega
    | succ fuel =>
      have hone : nested (ts ++ .symbol close :: rest) = .ok (e, .symbol close :: rest) :=
        hn he hsize (forall_head_cons hclose)
      rw [itemsFrom_eq_item hclose hstart he, itemsFrom.item, hone]
      split
      · next heq => cases heq
      · next heq =>
        cases heq
        exact absurd rfl hcomma
      · next heq =>
        cases heq
        rw [expect_cons]
  | @cons ts us e es he _ ih =>
    rw [List.length_append, List.length_cons] at hsize hfuel
    cases fuel with
    | zero => omega
    | succ fuel =>
      have hmore : itemsFrom nested close fuel (us ++ .symbol close :: rest) = .ok (es, rest) :=
        ih (by omega) (by omega)
      have hone : nested (ts ++ .symbol .comma :: (us ++ .symbol close :: rest)) =
          .ok (e, .symbol .comma :: (us ++ .symbol close :: rest)) :=
        hn he (by omega) (forall_head_cons .comma)
      rw [List.append_assoc, List.cons_append, itemsFrom_eq_item hclose hstart he,
        itemsFrom.item, hone]
      simp only [hmore]

private theorem complete_items {close : Symbol} (hclose : Closes (.symbol close))
    (hcomma : close ≠ .comma) (hstart : Nested.Starts fun t => ¬ Closes t)
    (hn : nested.Complete Nested size Closes) {used : List Token} {es : List Expr}
    (h : Items Nested used es) (hsize : used.length ≤ size) (rest : List Token) :
    items nested close (used ++ .symbol close :: rest) = .ok (es, rest) := by
  refine complete_itemsFrom hclose hcomma hstart hn h hsize ?_ rest
  rw [List.length_append]
  omega

private theorem ne_cons_lParen {rest : List Token} (h : ∀ t ∈ rest.head?, t ≠ .symbol .lParen)
    (ts : List Token) : rest = .symbol .lParen :: ts → False := by
  intro heq
  rw [heq] at h
  exact h _ rfl rfl

private theorem primary_name {n : String} {rest : List Token}
    (hrest : ∀ t ∈ rest.head?, t ≠ .symbol .lParen) :
    primary nested (.name n :: rest) = .ok (ofName n, rest) := by
  rw [primary]
  exact ne_cons_lParen hrest

theorem complete_primary (hstart : Nested.Starts fun t => ¬ Closes t)
    (hn : nested.Complete Nested size Closes) :
    (primary nested).Complete (Primary Nested) (size + 1) fun t => t ≠ .symbol .lParen := by
  intro used e rest h hsize hrest
  cases h with
  | int n => rfl
  | float x => rfl
  | str s => rfl
  | var n => rfl
  | word hw => rw [← hw.ofName_eq]; exact primary_name hrest
  | name _ hv => rw [← ofName_eq_name hv]; exact primary_name hrest
  | @call n ts es _ hes =>
    simp only [List.length_append, List.length_cons, List.length_nil] at hsize
    have hitems := complete_items .rParen (by decide) hstart hn hes (by omega) rest
    simp only [List.cons_append, List.append_assoc, List.nil_append, primary, hitems]
  | @parens ts e he =>
    simp only [List.length_append, List.length_cons, List.length_nil] at hsize
    have hexpr : nested (ts ++ .symbol .rParen :: rest) = .ok (e, .symbol .rParen :: rest) :=
      hn he (by omega) (forall_head_cons .rParen)
    simp only [List.cons_append, List.append_assoc, List.nil_append, primary, hexpr, expect_cons]
  | @list ts es hes =>
    simp only [List.length_append, List.length_cons, List.length_nil] at hsize
    have hitems := complete_items .rBracket (by decide) hstart hn hes (by omega) rest
    simp only [List.cons_append, List.append_assoc, List.nil_append, primary, hitems]

private theorem member_name {object : Expr} {n : String} {rest : List Token}
    (hrest : ∀ t ∈ rest.head?, t ≠ .symbol .lParen) :
    member nested object (.name n :: rest) = .ok (.member object n, rest) := by
  rw [member]
  exact ne_cons_lParen hrest

private theorem suffixesFrom_access {object e : Expr} {t : Token} {ts mid : List Token}
    (ht : Access t) (h : member nested object ts = .ok (e, mid)) (fuel : Nat) :
    suffixesFrom nested (fuel + 1) object (t :: ts) = suffixesFrom nested fuel e mid := by
  cases ht with
  | dot => simp only [suffixesFrom, h]
  | arrow => simp only [suffixesFrom, h]

/-- A suffix is read with one unit of fuel, and takes a token at least. -/
private theorem suffixed_append_cons {t : Token} {ts vs rest : List Token} {e e' : Expr}
    (h : ∃ fuel, (t :: (vs ++ rest)).length ≤ fuel ∧
      suffixed nested (ts ++ t :: (vs ++ rest)) = suffixesFrom nested fuel e (t :: (vs ++ rest)))
    (hstep : ∀ fuel,
      suffixesFrom nested (fuel + 1) e (t :: (vs ++ rest)) = suffixesFrom nested fuel e' rest) :
    ∃ fuel, rest.length ≤ fuel ∧
      suffixed nested (ts ++ t :: vs ++ rest) = suffixesFrom nested fuel e' rest := by
  obtain ⟨fuel, hfuel, heq⟩ := h
  rw [List.length_cons, List.length_append] at hfuel
  cases fuel with
  | zero => omega
  | succ fuel =>
    refine ⟨fuel, by omega, ?_⟩
    rw [List.append_assoc, List.cons_append, heq, hstep]

private theorem suffixed_append (hstart : Nested.Starts fun t => ¬ Closes t)
    (hn : nested.Complete Nested size Closes) {us rest : List Token} {e : Expr}
    (h : Suffixed Nested us e) (hsize : us.length ≤ size + 1)
    (hrest : ∀ t ∈ rest.head?, t ≠ .symbol .lParen) :
    ∃ fuel, rest.length ≤ fuel ∧
      suffixed nested (us ++ rest) = suffixesFrom nested fuel e rest := by
  have haccess : ∀ {t}, Access t → t ≠ .symbol .lParen := by
    rintro t ha rfl
    cases ha
  induction h generalizing rest with
  | primary h =>
    refine ⟨rest.length, Nat.le_refl _, ?_⟩
    rw [suffixed, complete_primary hstart hn h hsize hrest]
  | @member ts e t n _ ha ih =>
    rw [List.length_append] at hsize
    refine suffixed_append_cons (ih (by omega) (forall_head_cons (haccess ha))) ?_
    exact suffixesFrom_access ha (member_name hrest)
  | @method ts us e es t n _ ha hes ih =>
    simp only [List.length_append, List.length_cons, List.length_nil] at hsize
    rw [List.append_assoc ts, List.cons_append]
    refine suffixed_append_cons (ih (by omega) (forall_head_cons (haccess ha))) ?_
    refine suffixesFrom_access ha ?_
    have hitems := complete_items .rParen (by decide) hstart hn hes (by omega) rest
    simp only [List.cons_append, List.append_assoc, List.nil_append, member, hitems]
  | @position ts e t n _ ha ih =>
    rw [List.length_append] at hsize
    refine suffixed_append_cons (ih (by omega) (forall_head_cons (haccess ha))) ?_
    exact suffixesFrom_access ha rfl
  | @index ts us e i _ hi ih =>
    simp only [List.length_append, List.length_cons, List.length_nil] at hsize
    have hindex : nested (us ++ .symbol .rBracket :: rest) = .ok (i, .symbol .rBracket :: rest) :=
      hn hi (by omega) (forall_head_cons .rBracket)
    rw [List.append_assoc ts, List.cons_append]
    refine suffixed_append_cons (ih (by omega) (forall_head_cons nofun)) fun fuel => ?_
    simp only [List.cons_append, List.append_assoc, List.nil_append, suffixesFrom, hindex,
      expect_cons]

private theorem suffixesFrom_of_stop (fuel : Nat) (e : Expr) {rest : List Token}
    (h : ∀ t ∈ rest.head?, ¬ Continues [] t) :
    suffixesFrom nested fuel e rest = .ok (e, rest) := by
  unfold suffixesFrom
  split
  · rfl
  · exact absurd (.access .dot) (h _ rfl)
  · exact absurd (.access .arrow) (h _ rfl)
  · exact absurd .lBracket (h _ rfl)
  · rfl

theorem complete_suffixed (hstart : Nested.Starts fun t => ¬ Closes t)
    (hn : nested.Complete Nested size Closes) :
    (suffixed nested).Complete (Suffixed Nested) (size + 1) fun t => ¬ Continues [] t := by
  intro used e rest h hsize hrest
  have hparen : ∀ t ∈ rest.head?, t ≠ .symbol .lParen := by
    rintro t ht rfl
    exact hrest _ ht .lParen
  obtain ⟨fuel, _, heq⟩ := suffixed_append hstart hn h hsize hparen
  rw [heq, suffixesFrom_of_stop fuel e hrest]

theorem complete_disjunction (hstart : Nested.Starts fun t => ¬ Closes t)
    (hn : nested.Complete Nested size Closes) :
    (disjunction nested).Complete (Disjunction Nested) (size + 1) fun t =>
      ¬ Continues [.disjunction, .conjunction, .equality, .order, .sum, .product] t :=
  complete_chain .disjunction (by decide) <|
    complete_chain .conjunction (by decide) <|
    complete_chain .equality (by decide) <|
    complete_chain .order (by decide) <|
    complete_chain .sum (by decide) <|
    complete_chain .product (by decide) <|
    complete_unary starts_suffixed (complete_suffixed hstart hn)

theorem complete_conditional (hstart : Nested.Starts fun t => ¬ Closes t)
    (hn : nested.Complete Nested size Closes)
    (ho : (coalesced (disjunction nested)).Complete Operand (size + 1)
      fun t => ¬ Continues levels t ∧ t ≠ .symbol .coalesce) :
    (conditional nested).Complete (Conditional Operand Nested) (size + 1) Closes := by
  have hquestion : ¬ Continues levels (.symbol .question) ∧
      Token.symbol .question ≠ .symbol .coalesce := by
    refine ⟨fun hc => ?_, nofun⟩
    cases hc with
    | access ha => cases ha
    | sign _ hs => cases hs
  intro used e rest h hsize hrest
  cases h with
  | operand h =>
    have hnext : ∀ t ∈ rest.head?, ¬ Continues levels t ∧ t ≠ .symbol .coalesce := by
      intro t ht
      have hc := hrest t ht
      refine ⟨hc.not_continues, ?_⟩
      rintro rfl
      cases hc
    rw [conditional, ho h hsize hnext]
    split
    · next heq => cases heq
    · next heq =>
      cases heq
      cases hrest _ rfl
    · next heq =>
      cases heq
      cases hrest _ rfl
    · next heq =>
      cases heq
      rfl
  | @short ts us c no hc hno =>
    simp only [List.length_append, List.length_cons] at hsize
    rw [List.append_assoc, List.cons_append, List.cons_append, conditional,
      ho hc (by omega) (forall_head_cons hquestion)]
    simp only [hn hno (by omega) hrest]
  | @full ts us vs c yes no hc hyes hno =>
    simp only [List.length_append, List.length_cons] at hsize
    have hfirst : nested (us ++ .symbol .colon :: (vs ++ rest)) =
        .ok (yes, .symbol .colon :: (vs ++ rest)) :=
      hn hyes (by omega) (forall_head_cons .colon)
    simp only [List.append_assoc, List.cons_append]
    rw [conditional, ho hc (by omega) (forall_head_cons hquestion)]
    -- The middle does not start with a colon, so this is not the short form.
    obtain ⟨t, us, rfl, ht⟩ := hstart hyes
    split
    · next heq => cases heq
    · next heq =>
      cases heq
      exact absurd .colon ht
    · next heq =>
      cases heq
      simp only [hfirst, expect_cons, hn hno (by omega) hrest]
    · next hfull heq =>
      cases heq
      exact absurd rfl (hfull _)

/-- What nests in an expression is shorter than the expression, so that a depth of its length is
enough. -/
theorem complete_expression (depth : Nat) :
    (expression depth).Complete Expression depth Closes := by
  induction depth with
  | zero =>
    intro used e rest h hsize _
    obtain ⟨t, us, rfl, _⟩ := starts_expression h
    rw [List.length_cons] at hsize
    omega
  | succ depth ih =>
    intro used e rest h
    obtain ⟨h⟩ := h
    exact complete_conditional starts_expression ih
      (complete_coalesced (complete_disjunction starts_expression ih)) h

end

end Grammar

open Grammar

theorem ofTokens_of_expression {ts : List Token} {e : Expr} (h : Expression ts e) :
    ofTokens ts = .ok e := by
  obtain ⟨t, us, hts, _⟩ := starts_expression h
  have hread : expression ts.length (ts ++ []) = .ok (e, []) :=
    complete_expression ts.length h (Nat.le_refl _) nofun
  rw [List.append_nil] at hread
  rw [ofTokens, hread, hts]
  rfl

/-- No token list spells two expressions. -/
theorem Grammar.Expression.unique {ts : List Token} {e e' : Expr} (h : Expression ts e)
    (h' : Expression ts e') : e = e' :=
  Except.ok.inj ((ofTokens_of_expression h).symm.trans (ofTokens_of_expression h'))

/-- **The parser accepts the grammar and nothing else.** A token list is read as an expression
exactly if it spells that expression. -/
theorem ofTokens_eq_ok_iff (ts : List Token) (e : Expr) :
    ofTokens ts = .ok e ↔ Expression ts e := by
  constructor
  · intro h
    unfold ofTokens at h
    split at h
    · cases h
    · split at h
      · cases h
      · next hread =>
        cases h
        obtain ⟨used, hts, hused⟩ := sound_expression _ hread
        rwa [hts, List.append_nil]
      · cases h
  · exact ofTokens_of_expression

/-- Between two operands the word is the operator, elsewhere it is a name. -/
example : ofTokens [.name "or", .name "OR", .name "or"] =
    .ok (.binary .or (.name "or") (.name "or")) := by
  rfl

end Stencil.Expr
