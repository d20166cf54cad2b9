import Stencil.Expr.Grammar

/-!
The grammar of expressions.

A `Phrase` says which token lists spell what. Each level is a phrase over the phrase of the next
tighter level, and where there are brackets also over the phrase of what stands inside them;
`Expression` is the phrase that is its own inside. Nothing here mentions a parser: which operator
binds tighter shows in which phrase stands inside which, and how operators group shows in which of
the two sides may have the operator again.

An operator may be a word, in any case. The words `or` and `and` are names as well, the word `not`
is none, except after a point or an arrow. What makes the grammar readable from left to right is
said at the end: no operator belongs to two levels, and the tokens that end an expression neither
start one nor go on with one.
-/

namespace Stencil.Expr.Grammar

/-- Which token lists spell what. -/
abbrev Phrase (α : Type) := List Token → α → Prop

/-! ## Operators -/

/-- The levels whose operators group to the left, the loosest first. -/
inductive Level where
  | disjunction | conjunction | equality | order | sum | product
  deriving DecidableEq

/-- The tokens for the operators of each level. -/
inductive Sign : Level → Token → BinaryOp → Prop
  | or : Sign .disjunction (.symbol .orOr) .or
  | orWord {n : String} : lowerName n = "or" → Sign .disjunction (.name n) .or
  | and : Sign .conjunction (.symbol .andAnd) .and
  | andWord {n : String} : lowerName n = "and" → Sign .conjunction (.name n) .and
  | equal : Sign .equality (.symbol .eqEq) .equal
  | notEqual : Sign .equality (.symbol .notEq) .notEqual
  | strictEqual : Sign .equality (.symbol .strictEq) .strictEqual
  | notStrictEqual : Sign .equality (.symbol .strictNotEq) .notStrictEqual
  | lt : Sign .order (.symbol .lt) (.order .lt)
  | le : Sign .order (.symbol .le) (.order .le)
  | gt : Sign .order (.symbol .gt) (.order .gt)
  | ge : Sign .order (.symbol .ge) (.order .ge)
  | add : Sign .sum (.symbol .plus) (.arith .add)
  | sub : Sign .sum (.symbol .minus) (.arith .sub)
  | concat : Sign .sum (.symbol .tilde) .concat
  | mul : Sign .product (.symbol .star) (.arith .mul)
  | div : Sign .product (.symbol .slash) (.arith .div)
  | rem : Sign .product (.symbol .percent) (.arith .rem)

/-- The tokens for the operators in front of an operand. -/
inductive UnarySign : Token → UnaryOp → Prop
  | not : UnarySign (.symbol .not) .not
  | notWord {n : String} : lowerName n = "not" → UnarySign (.name n) .not
  | neg : UnarySign (.symbol .minus) .neg
  | pos : UnarySign (.symbol .plus) .pos

/-- The words for values. -/
inductive LiteralWord : String → Value → Prop
  | true : LiteralWord "true" (.bool true)
  | false : LiteralWord "false" (.bool false)
  | null : LiteralWord "null" .null

/-- A point and an arrow mean the same. -/
inductive Access : Token → Prop
  | dot : Access (.symbol .dot)
  | arrow : Access (.symbol .arrow)

/-! ## Levels -/

section

variable (Operand Nested : Phrase Expr)

/-- Items with commas between them, and perhaps one after the last. -/
inductive Items : Phrase (List Expr)
  | nil : Items [] []
  | last {ts : List Token} {e : Expr} : Nested ts e → Items ts [e]
  | cons {ts us : List Token} {e : Expr} {es : List Expr} : Nested ts e → Items us es →
      Items (ts ++ .symbol .comma :: us) (e :: es)

inductive Primary : Phrase Expr
  | int (n : Int64) : Primary [.int n] (.literal (.int n))
  | float (x : Float) : Primary [.float x] (.literal (.float x))
  | str (s : String) : Primary [.str s] (.literal (.str s))
  | var (n : String) : Primary [.var n] (.var n)
  | word {n : String} {v : Value} : LiteralWord (lowerName n) v → Primary [.name n] (.literal v)
  | name {n : String} : lowerName n ≠ "not" → (∀ v, ¬ LiteralWord (lowerName n) v) →
      Primary [.name n] (.name n)
  | call {n : String} {ts : List Token} {es : List Expr} : lowerName n ≠ "not" →
      Items Nested ts es →
      Primary (.name n :: .symbol .lParen :: ts ++ [.symbol .rParen]) (.call (lowerName n) es)
  | parens {ts : List Token} {e : Expr} : Nested ts e →
      Primary (.symbol .lParen :: ts ++ [.symbol .rParen]) e
  | list {ts : List Token} {es : List Expr} : Items Nested ts es →
      Primary (.symbol .lBracket :: ts ++ [.symbol .rBracket]) (.list es)

/-- A primary expression with any number of suffixes. -/
inductive Suffixed : Phrase Expr
  | primary {ts : List Token} {e : Expr} : Primary Nested ts e → Suffixed ts e
  | member {ts : List Token} {e : Expr} {t : Token} (n : String) : Suffixed ts e → Access t →
      Suffixed (ts ++ [t, .name n]) (.member e n)
  | method {ts us : List Token} {e : Expr} {es : List Expr} {t : Token} (n : String) :
      Suffixed ts e → Access t → Items Nested us es →
      Suffixed (ts ++ t :: .name n :: .symbol .lParen :: us ++ [.symbol .rParen])
        (.call (lowerName n) (e :: es))
  | position {ts : List Token} {e : Expr} {t : Token} (n : Int64) : Suffixed ts e → Access t →
      Suffixed (ts ++ [t, .int n]) (.index e (.literal (.int n)))
  | index {ts us : List Token} {e i : Expr} : Suffixed ts e → Nested us i →
      Suffixed (ts ++ .symbol .lBracket :: us ++ [.symbol .rBracket]) (.index e i)

inductive Unary : Phrase Expr
  | operand {ts : List Token} {e : Expr} : Operand ts e → Unary ts e
  | sign {t : Token} {op : UnaryOp} {ts : List Token} {e : Expr} : UnarySign t op → Unary ts e →
      Unary (t :: ts) (.unary op e)

/-- Operands joined by the operators of a level, which group to the left. -/
inductive Chain (level : Level) : Phrase Expr
  | operand {ts : List Token} {e : Expr} : Operand ts e → Chain level ts e
  | join {ts us : List Token} {t : Token} {op : BinaryOp} {l r : Expr} : Chain level ts l →
      Sign level t op → Operand us r → Chain level (ts ++ t :: us) (.binary op l r)

/-- Operands joined by `??`, which groups to the right. -/
inductive Coalesced : Phrase Expr
  | operand {ts : List Token} {e : Expr} : Operand ts e → Coalesced ts e
  | join {ts us : List Token} {l r : Expr} : Operand ts l → Coalesced us r →
      Coalesced (ts ++ .symbol .coalesce :: us) (.coalesce l r)

/-- The condition is an operand; the middle and the end are expressions again. -/
inductive Conditional : Phrase Expr
  | operand {ts : List Token} {e : Expr} : Operand ts e → Conditional ts e
  | short {ts us : List Token} {c no : Expr} : Operand ts c → Nested us no →
      Conditional (ts ++ .symbol .question :: .symbol .colon :: us) (.orElse c no)
  | full {ts us vs : List Token} {c yes no : Expr} : Operand ts c → Nested us yes →
      Nested vs no →
      Conditional (ts ++ .symbol .question :: us ++ .symbol .colon :: vs) (.ternary c yes no)

/-- The levels from or down to primary. -/
abbrev Disjunction : Phrase Expr :=
  Chain
    (Chain
      (Chain
        (Chain
          (Chain
            (Chain (Unary (Suffixed Nested)) .product)
            .sum)
          .order)
        .equality)
      .conjunction)
    .disjunction

end

/-- A whole expression: the loosest level, with expressions wherever something nests. -/
inductive Expression : Phrase Expr
  | mk {ts : List Token} {e : Expr} :
      Conditional
        (Coalesced
          (Chain
            (Chain
              (Chain
                (Chain
                  (Chain
                    (Chain (Unary (Suffixed Expression)) .product)
                    .sum)
                  .order)
                .equality)
              .conjunction)
            .disjunction))
        Expression ts e → Expression ts e

/-- A sum needs no parentheses around it where nothing looser may stand. -/
theorem coalesced_of_sum {ts : List Token} {e : Expr}
    (h : Chain (Chain (Unary (Suffixed Expression)) .product) .sum ts e) :
    Coalesced (Disjunction Expression) ts e :=
  .operand (.operand (.operand (.operand (.operand h))))

theorem expression_of_sum {ts : List Token} {e : Expr}
    (h : Chain (Chain (Unary (Suffixed Expression)) .product) .sum ts e) : Expression ts e :=
  .mk (.operand (coalesced_of_sum h))

theorem operand_of_primary {ts : List Token} {e : Expr} (h : Primary Expression ts e) :
    Chain (Unary (Suffixed Expression)) .product ts e :=
  .operand (.operand (.primary h))

theorem expression_of_primary {ts : List Token} {e : Expr} (h : Primary Expression ts e) :
    Expression ts e :=
  expression_of_sum (.operand (operand_of_primary h))

/-! ## First and following tokens -/

/-- No token is an operator on two levels. -/
theorem Sign.level_unique {level level' : Level} {t : Token} {op op' : BinaryOp}
    (h : Sign level t op) (h' : Sign level' t op') : level = level' := by
  cases h with
  | orWord hn =>
    cases h' with
    | orWord => rfl
    | andWord hn' => exact absurd (hn.symm.trans hn') (by decide)
  | andWord hn =>
    cases h' with
    | orWord hn' => exact absurd (hn.symm.trans hn') (by decide)
    | andWord => rfl
  | _ => cases h'; rfl

/-- The tokens that end whatever they follow. -/
inductive Closes : Token → Prop
  | rParen : Closes (.symbol .rParen)
  | rBracket : Closes (.symbol .rBracket)
  | comma : Closes (.symbol .comma)
  | colon : Closes (.symbol .colon)

/-- The tokens with which an operand of these levels can go on. -/
inductive Continues (levels : List Level) : Token → Prop
  | lParen : Continues levels (.symbol .lParen)
  | lBracket : Continues levels (.symbol .lBracket)
  | access {t : Token} : Access t → Continues levels t
  | sign {level : Level} {t : Token} {op : BinaryOp} : level ∈ levels → Sign level t op →
      Continues levels t

theorem Sign.not_continues {level : Level} {t : Token} {op : BinaryOp} (h : Sign level t op)
    {levels : List Level} (hl : level ∉ levels) : ¬ Continues levels t := by
  intro hc
  cases hc with
  | lParen => cases h
  | lBracket => cases h
  | access ha => cases ha <;> cases h
  | sign hmem hs =>
    rw [h.level_unique hs] at hl
    exact hl hmem

theorem Closes.not_continues {levels : List Level} {t : Token} (h : Closes t) :
    ¬ Continues levels t := by
  intro hc
  cases hc with
  | lParen => cases h
  | lBracket => cases h
  | access ha => cases ha <;> cases h
  | sign _ hs => cases h <;> cases hs

section

variable {Operand Nested : Phrase Expr}

/-- Every spelling has a first token, of this kind. -/
def Phrase.Starts {α : Type} (P : Phrase α) (first : Token → Prop) : Prop :=
  ∀ ⦃ts : List Token⦄ ⦃a : α⦄, P ts a → ∃ t us, ts = t :: us ∧ first t

/-- The tokens a primary expression may start with. -/
def Opens (t : Token) : Prop := ¬ Closes t ∧ ∀ op, ¬ UnarySign t op

private theorem opens_name {n : String} (hn : lowerName n ≠ "not") : Opens (.name n) := by
  refine ⟨nofun, fun op h => ?_⟩
  cases h with
  | notWord h => exact hn h

theorem starts_primary : (Primary Nested).Starts Opens := by
  intro ts e h
  cases h with
  | word hw =>
    refine ⟨_, _, rfl, opens_name fun hn => ?_⟩
    rw [hn] at hw
    generalize heq : "not" = w at hw
    cases hw <;> exact absurd heq (by decide)
  | name hn => exact ⟨_, _, rfl, opens_name hn⟩
  | call hn => exact ⟨_, _, rfl, opens_name hn⟩
  | _ => exact ⟨_, _, rfl, nofun, nofun⟩

private theorem starts_append {first : Token → Prop} {ts : List Token} (us : List Token)
    (h : ∃ t vs, ts = t :: vs ∧ first t) : ∃ t vs, ts ++ us = t :: vs ∧ first t := by
  obtain ⟨t, vs, rfl, ht⟩ := h
  exact ⟨t, vs ++ us, rfl, ht⟩

theorem starts_suffixed : (Suffixed Nested).Starts Opens := by
  intro ts e h
  induction h with
  | primary h => exact starts_primary h
  | member n _ _ ih => exact starts_append _ ih
  | method n _ _ _ ih => exact starts_append _ (starts_append _ ih)
  | position n _ _ ih => exact starts_append _ ih
  | index _ _ ih => exact starts_append _ (starts_append _ ih)

theorem starts_unary (ho : Operand.Starts Opens) : (Unary Operand).Starts fun t => ¬ Closes t := by
  intro ts e h
  cases h with
  | operand h =>
    obtain ⟨t, us, rfl, ht, _⟩ := ho h
    exact ⟨t, us, rfl, ht⟩
  | sign hs =>
    refine ⟨_, _, rfl, fun hc => ?_⟩
    cases hc <;> cases hs

theorem starts_chain {level : Level} {first : Token → Prop} (ho : Operand.Starts first) :
    (Chain Operand level).Starts first := by
  intro ts e h
  induction h with
  | operand h => exact ho h
  | join _ _ _ ih => exact starts_append _ ih

theorem starts_coalesced {first : Token → Prop} (ho : Operand.Starts first) :
    (Coalesced Operand).Starts first := by
  intro ts e h
  cases h with
  | operand h => exact ho h
  | join h _ => exact starts_append _ (ho h)

theorem starts_conditional {first : Token → Prop} (ho : Operand.Starts first) :
    (Conditional Operand Nested).Starts first := by
  intro ts e h
  cases h with
  | operand h => exact ho h
  | short h _ => exact starts_append _ (ho h)
  | full h _ _ => exact starts_append _ (starts_append _ (ho h))

theorem starts_expression : Phrase.Starts Expression fun t => ¬ Closes t := by
  intro ts e h
  obtain ⟨h⟩ := h
  exact starts_conditional (starts_coalesced (starts_chain (starts_chain (starts_chain
    (starts_chain (starts_chain (starts_chain (starts_unary starts_suffixed)))))))) h

end

end Stencil.Expr.Grammar
