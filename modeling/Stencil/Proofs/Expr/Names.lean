import Stencil.Expr.Eval
import Stencil.Proofs.Expr.Lexeme
import Stencil.Proofs.Expr.Soundness

/-!
The names that an expression reads.

The value of an expression depends on the context through the names in it alone (`eval_congr`). The
parser takes these names from the tokens: that every name of an expression is among the tokens that
spell it passes from the operands of each level of the grammar to the level (`Reads`), and so to
what the parser gives, which spells what it was read from. With the lexer, a text that is evaluated
reads only what it mentions.
-/

namespace Stencil

/-- The two contexts have the same values, or none, for these names. -/
def Context.AgreeOn (P : String → Prop) (c d : Context) : Prop := ∀ n, P n → c.get? n = d.get? n

theorem Context.AgreeOn.mono {P Q : String → Prop} {c d : Context} (h : c.AgreeOn Q d)
    (hPQ : ∀ n, P n → Q n) : c.AgreeOn P d :=
  fun n hn => h n (hPQ n hn)

theorem Context.AgreeOn.set {P : String → Prop} {c d : Context} (h : c.AgreeOn P d) (name : String)
    (v : Value) : (c.set name v).AgreeOn P (d.set name v) := by
  intro n hn
  rw [Context.get?_set, Context.get?_set, h n hn]

namespace Expr

/-! ## Evaluation -/

mutual

/-- The names that an expression looks up. -/
def names : Expr → List String
  | .literal _ => []
  | .var n => [n]
  | .name n => [n]
  | .list items => namesOfAll items
  | .member object _ => names object
  | .index object place => names object ++ names place
  | .call _ args => namesOfAll args
  | .unary _ operand => names operand
  | .binary _ left right => names left ++ names right
  | .ternary condition yes no => names condition ++ (names yes ++ names no)
  | .orElse condition no => names condition ++ names no
  | .coalesce left right => names left ++ names right

def namesOfAll : List Expr → List String
  | [] => []
  | e :: es => names e ++ namesOfAll es

end

mutual

/-- The value of an expression depends on its names alone. -/
theorem eval_congr {c d : Context} (e : Expr) (h : c.AgreeOn (· ∈ names e) d) :
    eval c e = eval d e := by
  cases e with
  | literal v => rw [eval, eval]
  | var n => rw [eval, eval, h n (by simp [names])]
  | name n => rw [eval, eval, h n (by simp [names])]
  | list items => rw [eval, eval, evalItems_congr items h]
  | member object key => rw [eval, eval, eval_congr object h]
  | index object place =>
    have ho := eval_congr object (h.mono fun n hn => by simp [names, hn])
    have hp := eval_congr place (h.mono fun n hn => by simp [names, hn])
    rw [eval, eval, ho, hp]
  | call function args => rw [eval, eval, evalArgs_congr function 0 args h]
  | unary op operand => rw [eval, eval, eval_congr operand h]
  | binary op left right =>
    have hl := eval_congr left (h.mono fun n hn => by simp [names, hn])
    have hr := eval_congr right (h.mono fun n hn => by simp [names, hn])
    rw [eval, eval, hl, hr]
  | ternary condition yes no =>
    have hc := eval_congr condition (h.mono fun n hn => by simp [names, hn])
    have hy := eval_congr yes (h.mono fun n hn => by simp [names, hn])
    have hn := eval_congr no (h.mono fun n hn => by simp [names, hn])
    rw [eval, eval, hc, hy, hn]
  | orElse condition no =>
    have hc := eval_congr condition (h.mono fun n hn => by simp [names, hn])
    have hn := eval_congr no (h.mono fun n hn => by simp [names, hn])
    rw [eval, eval, hc, hn]
  | coalesce left right =>
    have hl := eval_congr left (h.mono fun n hn => by simp [names, hn])
    have hr := eval_congr right (h.mono fun n hn => by simp [names, hn])
    rw [eval, eval, hl, hr]

theorem evalItems_congr {c d : Context} (es : List Expr) (h : c.AgreeOn (· ∈ namesOfAll es) d) :
    evalItems c es = evalItems d es := by
  cases es with
  | nil => rw [evalItems, evalItems]
  | cons e es =>
    have he := eval_congr e (h.mono fun n hn => by simp [namesOfAll, hn])
    have hes := evalItems_congr es (h.mono fun n hn => by simp [namesOfAll, hn])
    rw [evalItems, evalItems, he, hes]

theorem evalArgs_congr {c d : Context} (function : String) (position : Nat) (es : List Expr)
    (h : c.AgreeOn (· ∈ namesOfAll es) d) :
    evalArgs c function position es = evalArgs d function position es := by
  cases es with
  | nil => rw [evalArgs, evalArgs]
  | cons e es =>
    have he := eval_congr e (h.mono fun n hn => by simp [namesOfAll, hn])
    have hes := evalArgs_congr function (position + 1) es
      (h.mono fun n hn => by simp [namesOfAll, hn])
    rw [evalArgs, evalArgs, he, hes]

end

/-! ## Parsing -/

/-- Each of the names is among the tokens. -/
def Among (ts : List Token) (ns : List String) : Prop := ∀ n ∈ ns, ∃ t ∈ ts, t.LooksUp n

theorem Among.nil (ts : List Token) : Among ts [] := nofun

theorem Among.append {ts : List Token} {ns ms : List String} (hn : Among ts ns)
    (hm : Among ts ms) : Among ts (ns ++ ms) :=
  fun n h => (List.mem_append.mp h).elim (hn n) (hm n)

theorem Among.mono {ts us : List Token} {ns : List String} (h : Among ts ns) (hts : ∀ t ∈ ts, t ∈ us) :
    Among us ns := by
  intro n hn
  obtain ⟨t, ht, hlooks⟩ := h n hn
  exact ⟨t, hts t ht, hlooks⟩

namespace Grammar

/-- The names of an expression are among the tokens that spell it. -/
def Phrase.Reads (P : Phrase Expr) : Prop :=
  ∀ ⦃ts : List Token⦄ ⦃e : Expr⦄, P ts e → Among ts (names e)

section

variable {Operand Nested : Phrase Expr}

theorem among_items (hn : Nested.Reads) {ts : List Token} {es : List Expr}
    (h : Items Nested ts es) : Among ts (namesOfAll es) := by
  induction h with
  | nil => exact .nil _
  | last h => exact (hn h).append (.nil _)
  | cons h _ ih =>
    exact ((hn h).mono (by simp +contextual)).append (ih.mono (by simp +contextual))

theorem reads_primary (hn : Nested.Reads) : (Primary Nested).Reads := by
  intro ts e h
  cases h with
  | int | float | str | word => exact .nil _
  | var n =>
    intro m hm
    obtain rfl := List.mem_singleton.mp hm
    exact ⟨.var m, by simp, Or.inl rfl⟩
  | @name n _ hword =>
    intro m hm
    obtain rfl := List.mem_singleton.mp hm
    refine ⟨.name m, by simp, Or.inr ⟨rfl, ?_⟩⟩
    rintro rfl
    exact hword _ .true
  | call _ h => exact (among_items hn h).mono (by simp +contextual)
  | parens h => exact (hn h).mono (by simp +contextual)
  | list h => exact (among_items hn h).mono (by simp +contextual)

theorem reads_suffixed (hn : Nested.Reads) : (Suffixed Nested).Reads := by
  intro ts e h
  induction h with
  | primary h => exact reads_primary hn h
  | member n _ _ ih => exact ih.mono (by simp +contextual)
  | method n _ _ h ih => exact (ih.mono (by simp +contextual)).append ((among_items hn h).mono (by simp +contextual))
  | position n _ _ ih => exact (ih.mono (by simp +contextual)).append (.nil _)
  | index _ h ih => exact (ih.mono (by simp +contextual)).append ((hn h).mono (by simp +contextual))

theorem reads_unary (ho : Operand.Reads) : (Unary Operand).Reads := by
  intro ts e h
  induction h with
  | operand h => exact ho h
  | sign _ _ ih => exact ih.mono (by simp +contextual)

theorem reads_chain {level : Level} (ho : Operand.Reads) : (Chain Operand level).Reads := by
  intro ts e h
  induction h with
  | operand h => exact ho h
  | join _ _ h ih => exact (ih.mono (by simp +contextual)).append ((ho h).mono (by simp +contextual))

theorem reads_coalesced (ho : Operand.Reads) : (Coalesced Operand).Reads := by
  intro ts e h
  induction h with
  | operand h => exact ho h
  | join h _ ih => exact ((ho h).mono (by simp +contextual)).append (ih.mono (by simp +contextual))

theorem reads_conditional (ho : Operand.Reads) (hn : Nested.Reads) :
    (Conditional Operand Nested).Reads := by
  intro ts e h
  cases h with
  | operand h => exact ho h
  | short h h' => exact ((ho h).mono (by simp +contextual)).append ((hn h').mono (by simp +contextual))
  | full h h' h'' =>
    refine ((ho h).mono (by simp +contextual)).append ?_
    exact ((hn h').mono (by simp +contextual)).append ((hn h'').mono (by simp +contextual))

theorem reads_disjunction (hn : Nested.Reads) : (Disjunction Nested).Reads :=
  reads_chain <| reads_chain <| reads_chain <| reads_chain <| reads_chain <| reads_chain <|
    reads_unary (reads_suffixed hn)

end

/-- What the parser for expressions takes off the front has the names of what it gives. -/
theorem sound_expression_among (depth : Nat) :
    (expression depth).Sound fun ts e => Among ts (names e) := by
  induction depth with
  | zero =>
    intro ts e rest h
    cases h
  | succ depth ih =>
    intro ts e rest h
    obtain ⟨used, hts, hused⟩ :=
      sound_conditional ih (sound_coalesced (sound_disjunction ih)) h
    have hn : Phrase.Reads fun ts e => Among ts (names e) := fun _ _ h => h
    exact ⟨used, hts, reads_conditional (reads_coalesced (reads_disjunction hn)) hn hused⟩

end Grammar

theorem among_ofTokens {ts : List Token} {e : Expr} (h : ofTokens ts = .ok e) :
    Among ts (names e) :=
  Grammar.of_ofTokens Grammar.sound_expression_among h

/-! ## Texts -/

/-- An expression text reads nothing but what it mentions. -/
theorem tryEvaluate_congr {s : List Char} {c d : Context} (h : c.AgreeOn (Mentioned s) d) :
    tryEvaluate s c = tryEvaluate s d := by
  cases hparse : parse s with
  | error e => simp only [tryEvaluate, hparse]
  | ok e =>
    have hnames : ∀ n ∈ names e, Mentioned s n := by
      intro n hn
      cases hlex : lex s with
      | error e =>
        rw [parse, hlex] at hparse
        cases hparse
      | ok ts =>
        rw [parse, hlex] at hparse
        obtain ⟨t, ht, hlooks⟩ := among_ofTokens hparse n hn
        exact mentioned_of_lex hlex ht hlooks
    simp only [tryEvaluate, hparse]
    exact eval_congr e (h.mono hnames)

theorem lookUp?_congr {s : List Char} {c d : Context} (h : c.AgreeOn (Mentioned s) d)
    (hs : isName s = true → c.get? (String.ofList s) = d.get? (String.ofList s)) :
    lookUp? s c = lookUp? s d := by
  unfold lookUp?
  split
  · next x =>
    split
    · next hx =>
      have hmentioned : Mentioned ('$' :: x) (String.ofList x) := by
        rw [Mentioned, String.toList_ofList]
        exact ⟨hx, Or.inl (List.infix_refl _)⟩
      rw [h _ hmentioned]
    · rfl
  · split
    · next hx => exact hs hx
    · rfl

/-- The word `true` needs care: templates look up a lone one too. -/
theorem evaluate_congr_of_mentioned {s : List Char} {c d : Context}
    (h : c.AgreeOn (Mentioned s) d) (hs : trim s ≠ "true".toList) :
    evaluate s c = evaluate s d := by
  have htrim : c.AgreeOn (Mentioned (trim s)) d := h.mono fun n hn => hn.of_trim
  have hlone : isName (trim s) = true →
      c.get? (String.ofList (trim s)) = d.get? (String.ofList (trim s)) := by
    intro hname
    refine htrim _ ⟨by rwa [String.toList_ofList], Or.inr ⟨?_, ?_⟩⟩
    · exact ⟨[], [], by rw [String.toList_ofList]; simp, .nil, .nil⟩
    · intro htrue
      rw [← htrue, String.toList_ofList] at hs
      exact hs rfl
  simp only [evaluate, lookUp?_congr htrim hlone, tryEvaluate_congr htrim]

theorem evaluate_congr {s : List Char} {c d : Context} (h : c.AgreeOn (NameIn s) d) :
    evaluate s c = evaluate s d := by
  have htrim : ∀ n, NameIn (trim s) n → NameIn s n := fun n hn => hn.mono (isInfix_trim s)
  have hlone : isName (trim s) = true →
      c.get? (String.ofList (trim s)) = d.get? (String.ofList (trim s)) := by
    intro hname
    refine h _ (htrim _ ?_)
    rw [NameIn, String.toList_ofList]
    exact ⟨hname, List.infix_refl _⟩
  have hmentioned : c.AgreeOn (Mentioned (trim s)) d :=
    h.mono fun n hn => htrim n hn.nameIn
  simp only [evaluate, lookUp?_congr hmentioned hlone, tryEvaluate_congr hmentioned]

end Expr

end Stencil
