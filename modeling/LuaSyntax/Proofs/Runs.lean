import LuaSyntax.Parse
import LuaSyntax.Proofs.Grammar
import LuaSyntax.Proofs.Spine

/-!
What a parser does while it reads a phrase: from any state that is ready for the phrase, and in any
context, to the state after it. How such a state settles depends on the next token, so the end of an
expression or a statement is described by the way it settles.
-/
namespace LuaSyntax

namespace TokenKind

def startsChain : TokenKind → Bool
  | .name | .symbol .openParen => true
  | _ => false

def startsOperand : TokenKind → Bool
  | .name | .number _ | .string => true
  | .symbol .openParen | .symbol .openBrace | .symbol .minus => true
  | .keyword .nil | .keyword .true | .keyword .false | .keyword .not | .keyword .function => true
  | _ => false

def startsStatement : TokenKind → Bool
  | .name | .symbol .openParen => true
  | .keyword .break | .keyword .do | .keyword .while | .keyword .repeat | .keyword .if => true
  | .keyword .for | .keyword .local | .keyword .function => true
  | _ => false

end TokenKind

/-- The next token does not continue an expression that is open or not. -/
def EndsExpr (isOpen : Bool) (next : Option TokenKind) : Prop :=
  next.bind BinaryOp.ofToken? = none ∧ (isOpen = true → next.any TokenKind.extendsChain = false)

/-- The next token does not continue a statement either. -/
def EndsStatement (isOpen : Bool) (next : Option TokenKind) : Prop :=
  EndsExpr isOpen next ∧ isComma next = false ∧ isAssign next = false

namespace ParserState

variable (rule : ArityRule)

/-- The state of a parser that has read the last primary of an expression. -/
def Reached (isOpen : Bool) (e : Expr) (k : ExprContext) (s : ParserState) : Prop :=
  if isOpen = true then ∃ c : Chain, s = .suffix c (.operand k) ∧ c.expr = e else s = .operator e k

/-- An operand may start here. -/
def Opens (s : ParserState) (k : ExprContext) : Prop :=
  ∀ t : Token, t.kind.startsOperand = true → s.feed rule t = shiftOperand t k

/-- A chain that starts with the first of these tokens starts here. -/
def OpensChain (s : ParserState) (k : ChainContext) (ts : List Token) : Prop :=
  ∀ t ∈ ts.head?, t.kind.startsChain = true → s.feed rule t = startChain t k

/-- A statement that starts with the first of these tokens starts here. -/
def OpensStatement (s : ParserState) (k : BlockContext) (ts : List Token) : Prop :=
  ∀ t ∈ ts.head?, t.kind.startsStatement = true → s.feed rule t = shiftStatement t k

/-- The states around the names of a list: before the first, after a comma and after a name. -/
structure ListsNames (start : ParserState) (next after : List String → ParserState) : Prop where
  first (n : Token) : n.kind = .name → start.feed rule n = .ok (after [n.text])
  comma (ns : List String) (c : Token) :
    c.kind = .symbol .comma → (after ns).feed rule c = .ok (next ns)
  name (ns : List String) (n : Token) :
    ns ≠ [] → n.kind = .name → (next ns).feed rule n = .ok (after (ns ++ [n.text]))

/-- The contexts of the expressions of a list. -/
structure ListsExprs (k : List Expr → ExprContext) : Prop where
  notOperator (es : List Expr) : (k es).isOperator = false
  comma (es : List Expr) (e : Expr) (c : Token) : c.kind = .symbol .comma →
    (endExpression rule (some c.kind) e (k es)).bind (shift c) = .ok (.operand (k (es ++ [e])))

/-- The state settles as a complete expression in this context does. -/
def Completes (isOpen : Bool) (e : Expr) (k : ExprContext) (s : ParserState) : Prop :=
  ∀ next, EndsExpr isOpen next → settle rule next s = endExpression rule next e k

def CompletesStatement (isOpen : Bool) (k : BlockContext) (s : ParserState) : Prop :=
  ∀ next, EndsStatement isOpen next → settle rule next s = .ok (.statement k)

/-- Only the end of the block may follow. -/
structure CompletesBlock (ss : List Stmt) (owner : Owner) (s : ParserState) : Prop where
  close (t : Token) : t.kind.closesBlock = true → s.feed rule t = closeBlock t (.block ss owner)
  finish : owner = .program → s.finish rule = .ok ss

end ParserState

open ParserState

/-- Reading the tokens of a phrase takes a parser from before the phrase to after it. -/
def Phrase.Runs (rule : ArityRule) : Phrase → List Token → Prop
  | .names ns, ts => ns ≠ [] ∧ ∀ start next after, ListsNames rule start next after →
      start.run rule ts = .ok (after ns)
  | .primary e o, ts => ∀ s k, Opens rule s k → ∃ s', s.run rule ts = .ok s' ∧ Reached o e k s'
  | .operand a o, ts => ∀ s k, Opens rule s k →
      ∃ s', s.run rule ts = .ok s' ∧ Reached o (a.tree.spine k).1 (a.tree.spine k).2 s'
  | .formula f o, ts => ∀ s k, Opens rule s k → f.tree.StandsIn k →
      ∃ s', s.run rule ts = .ok s' ∧ Reached o (f.tree.spine k).1 (f.tree.spine k).2 s'
  | .expr e o, ts => ∀ s k, Opens rule s k → k.isOperator = false →
      ∃ s', s.run rule ts = .ok s' ∧ Completes rule o e k s'
  | .exprs es o, ts => ∀ s k, Opens rule s (k []) → ListsExprs rule k →
      ∃ s' front last, s.run rule ts = .ok s' ∧ es = front ++ [last] ∧
        Completes rule o last (k front) s'
  | .chain c, ts => ∀ s k, OpensChain rule s k ts → s.run rule ts = .ok (.suffix c k)
  | .arguments es, ts => ∀ c k, run rule (.suffix c k) ts = .ok (.suffix (.call c.expr es) k)
  | .field e, ts => ∀ es k, ∃ s, run rule (.entry es k) ts = .ok s ∧
      (∀ t, t.kind = .symbol .comma → s.feed rule t = .ok (.entry (es ++ [e]) k)) ∧
      ∀ t, t.kind = .symbol .closeBrace → s.feed rule t = .ok (closeTable (es ++ [e]) k)
  | .fields es, ts => ∀ k, ∃ s, run rule (.entry [] k) ts = .ok s ∧
      (∀ t, t.kind = .symbol .comma → s.feed rule t = .ok (.entry es k)) ∧
      ∀ t, t.kind = .symbol .closeBrace → s.feed rule t = .ok (closeTable es k)
  | .table es, ts => ∀ (s : ParserState) k,
      (∀ t : Token, t.kind = .symbol .openBrace → s.feed rule t = .ok (.entry [] k)) →
      s.run rule ts = .ok (closeTable es k)
  | .parameters ns, ts => ∀ (s : ParserState) h,
      (∀ t : Token, t.kind = .symbol .openParen → s.feed rule t = .ok (.firstParameter h)) →
      s.run rule ts = .ok (enterFunction h ns)
  | .function ps b, ts => ∀ (s : ParserState) h,
      (∀ t : Token, t.kind = .symbol .openParen → s.feed rule t = .ok (.firstParameter h)) →
      ∃ e : Token, e.kind = .keyword .end ∧ s.run rule ts = closeBlock e (.block b (.function h ps))
  | .functionKeyword isLocal, ts => ∀ s k, OpensStatement rule s k ts →
      s.run rule ts = .ok (.functionName isLocal k)
  | .path p, ts => ∀ isLocal k,
      run rule (.functionName isLocal k) ts = .ok (.functionPath isLocal p k)
  | .signature isLocal p, ts => ∀ s k, OpensStatement rule s k ts → ∃ s', s.run rule ts = .ok s' ∧
      ∀ t : Token, t.kind = .symbol .openParen →
        s'.feed rule t = .ok (.firstParameter (.definition isLocal p k))
  | .targets es, ts => ∀ s k, OpensStatement rule s k ts → ∃ s', s.run rule ts = .ok s' ∧
      ∀ t : Token, t.kind = .symbol .comma ∨ t.kind = .symbol .assign →
        s'.feed rule t = shift t (.afterTarget es k)
  | .condition as, ts => ∀ s k, OpensStatement rule s k ts →
      s.run rule ts = .ok (.operand (.ifCond as k))
  | .arms as, ts => ∀ s k, OpensStatement rule s k ts →
      ∃ s' front c b, s.run rule ts = .ok s' ∧ as = front ++ [⟨c, b⟩] ∧
        CompletesBlock rule b (.thenPart front c k) s'
  | .statement added o, ts => ∀ s k, OpensStatement rule s k ts →
      ∃ s', s.run rule ts = .ok s' ∧ CompletesStatement rule o (k.append added) s'
  | .statements ss o, ts => ∀ w, ∃ s, run rule (.enter w) ts = .ok s ∧
      CompletesStatement rule o (.block ss w) s
  | .returned es, ts => ∀ (s : ParserState) k,
      (∀ t : Token, t.kind = .keyword .return → s.feed rule t = .ok (.returning k)) →
      ∃ s', s.run rule ts = .ok s' ∧ ∀ next, endsBlock next = true →
        settle rule next s' = .ok (.returned (k.push (.return es)))
  | .block ss, ts => ∀ w, ∃ s, run rule (.enter w) ts = .ok s ∧ CompletesBlock rule ss w s

theorem Parsing.bind_eq_ok {α β : Type} {x : Parsing α} {f : α → Parsing β} {b : β} :
    x.bind f = .ok b ↔ ∃ a, x = .ok a ∧ f a = .ok b := by
  cases x <;> simp [Except.bind]

theorem Parsing.bind_eq_error {α β : Type} {x : Parsing α} {f : α → Parsing β} {e : SyntaxError} :
    x.bind f = .error e ↔ x = .error e ∨ ∃ a, x = .ok a ∧ f a = .error e := by
  cases x <;> simp [Except.bind]

namespace ParserState

variable {rule : ArityRule} {s s₁ s₂ : ParserState} {t : Token} {ts us : List Token}
  {e : SyntaxError} {p : Program}

theorem feed_eq_ok : s.feed rule t = .ok s₂ ↔
    ∃ s₁, settle rule (some t.kind) s = .ok s₁ ∧ shift t s₁ = .ok s₂ := Parsing.bind_eq_ok

theorem feed_eq_error : s.feed rule t = .error e ↔ settle rule (some t.kind) s = .error e ∨
    ∃ s₁, settle rule (some t.kind) s = .ok s₁ ∧ shift t s₁ = .error e := Parsing.bind_eq_error

theorem finish_eq_ok : s.finish rule = .ok p ↔
    ∃ s₁, settle rule none s = .ok s₁ ∧ s₁.result = .ok p := Parsing.bind_eq_ok

theorem finish_eq_error : s.finish rule = .error e ↔ settle rule none s = .error e ∨
    ∃ s₁, settle rule none s = .ok s₁ ∧ s₁.result = .error e := Parsing.bind_eq_error

theorem run_cons_eq_ok : s.run rule (t :: ts) = .ok s₂ ↔
    ∃ s₁, s.feed rule t = .ok s₁ ∧ s₁.run rule ts = .ok s₂ := by
  rw [run_cons, Parsing.bind_eq_ok]

theorem run_cons_eq_error : s.run rule (t :: ts) = .error e ↔ s.feed rule t = .error e ∨
    ∃ s₁, s.feed rule t = .ok s₁ ∧ s₁.run rule ts = .error e := by
  rw [run_cons, Parsing.bind_eq_error]

theorem parseWith_eq_ok : parseWith rule ts = .ok p ↔
    ∃ s, ParserState.start.run rule ts = .ok s ∧ s.finish rule = .ok p := Parsing.bind_eq_ok

theorem parseWith_eq_error : parseWith rule ts = .error e ↔
    ParserState.start.run rule ts = .error e ∨
      ∃ s, ParserState.start.run rule ts = .ok s ∧ s.finish rule = .error e := Parsing.bind_eq_error

theorem feed_eq (h : settle rule (some t.kind) s = .ok s₁) : s.feed rule t = shift t s₁ := by
  rw [feed, h]; rfl

theorem finish_eq (h : settle rule none s = .ok s₁) : s.finish rule = s₁.result := by
  rw [finish, h]; rfl

theorem run_cons_ok (h : s.feed rule t = .ok s₁) : s.run rule (t :: ts) = s₁.run rule ts := by
  rw [run_cons, h]; rfl

theorem run_append_ok (h : s.run rule ts = .ok s₁) : s.run rule (ts ++ us) = s₁.run rule us := by
  rw [run_append, h]; rfl

theorem run_single (rule : ArityRule) (s : ParserState) (t : Token) :
    s.run rule [t] = s.feed rule t := by
  rw [run_cons]
  cases s.feed rule t <;> rfl

theorem expect_ok {kind : TokenKind} (h : t.kind = kind) (s : ParserState) :
    t.expect kind s = .ok s := if_pos h

theorem expectSymbol_ok {y : Symbol} (h : t.kind = .symbol y) (s : ParserState) :
    t.expectSymbol y s = .ok s := if_pos h

theorem expectKeyword_ok {k : Keyword} (h : t.kind = .keyword k) (s : ParserState) :
    t.expectKeyword k s = .ok s := if_pos h

theorem shiftStatement_of_closesBlock (h : t.kind.closesBlock = true) (k : BlockContext) :
    shiftStatement t k = closeBlock t k := by
  unfold shiftStatement
  split <;> simp_all [TokenKind.closesBlock, Keyword.closesBlock]

theorem opens_operand (k : ExprContext) : Opens rule (.operand k) k := fun _ _ => rfl

theorem opens_firstArgument (f : Expr) (k : ChainContext) :
    Opens rule (.firstArgument f k) (.argument f [] k) := by
  intro t ht
  have hne : t.kind ≠ .symbol .closeParen := by
    intro h
    simp [h, TokenKind.startsOperand] at ht
  exact if_neg hne

theorem opens_returning (k : BlockContext) : Opens rule (.returning k) (.returned [] k) := by
  intro t ht
  have hend : endsBlock (some t.kind) = false := by
    revert ht
    cases t.kind with
    | keyword w => cases w <;> simp [TokenKind.startsOperand, endsBlock, TokenKind.closesBlock,
        Keyword.closesBlock]
    | symbol y => cases y <;> simp [TokenKind.startsOperand, endsBlock, TokenKind.closesBlock]
    | _ => simp [endsBlock, TokenKind.closesBlock]
  have hs : settle rule (some t.kind) (.returning k) = .ok (.operand (.returned [] k)) := by
    simp [settle, hend]
  exact feed_eq hs

end ParserState

end LuaSyntax
