import LuaSyntax.Proofs.Runs

/-!
Reading names, expressions, chains, tables and parameter lists, one lemma for each production.
-/
namespace LuaSyntax

open ParserState

variable {rule : ArityRule} {ts us : List Token} {t n c d l r a : Token}

namespace ParserState

theorem settle_of_reached {o : Bool} {e : Expr} {k : ExprContext} {s : ParserState}
    (h : Reached o e k s) {next : Option TokenKind}
    (hnext : o = true → next.any TokenKind.extendsChain = false) :
    settle rule next s = settleOperator rule next e k := by
  cases o with
  | false =>
    obtain rfl : s = .operator e k := by simpa [Reached] using h
    rfl
  | true =>
    obtain ⟨c, rfl, rfl⟩ : ∃ c : Chain, s = .suffix c (.operand k) ∧ c.expr = e := by
      simpa [Reached] using h
    simp [settle, hnext rfl, endChain]

theorem completes_of_reached {o : Bool} {f : Formula} {k : ExprContext} {s : ParserState}
    (h : Reached o (f.tree.spine k).1 (f.tree.spine k).2 s) (hk : k.isOperator = false) :
    Completes rule o f.tree.expr k s := by
  intro next hnext
  rw [settle_of_reached h hnext.2, settleOperator, hnext.1, f.tree.reduce_zero_spine hk]

/-- A token after a complete expression is read in the context of the expression. -/
theorem Completes.feed {o : Bool} {e : Expr} {k : ExprContext} {s : ParserState}
    (h : Completes rule o e k s) (ht : EndsExpr o (some t.kind)) :
    s.feed rule t = (endExpression rule (some t.kind) e k).bind (shift t) := by
  rw [ParserState.feed, h _ ht]; rfl

theorem endsExpr_of_kind {o : Bool} {kind : TokenKind} (hop : BinaryOp.ofToken? kind = none)
    (hchain : kind.extendsChain = false) : EndsExpr o (some kind) :=
  ⟨hop, fun _ => by simpa using hchain⟩

theorem endsExpr_comma {o : Bool} : EndsExpr o (some (.symbol .comma)) := endsExpr_of_kind rfl rfl

/-- A token that cannot go on with an expression is read by the context, unless the statement ends
before it. -/
theorem Completes.close {o : Bool} {e : Expr} {k : ExprContext} {s : ParserState} {kind : TokenKind}
    (h : Completes rule o e k s) (ht : t.kind = kind) (hop : BinaryOp.ofToken? kind = none)
    (hchain : kind.extendsChain = false)
    (hk : endExpression rule (some kind) e k = .ok (.operator e k)) :
    s.feed rule t = endOperand t e k := by
  rw [h.feed (ht ▸ endsExpr_of_kind hop hchain), ht, hk]
  change shiftOperator t e k = _
  rw [shiftOperator, ht, hop]

end ParserState

theorem runs_name (h : n.kind = .name) : (Phrase.names [n.text]).Runs rule [n] := by
  refine ⟨by simp, fun start next after hs => ?_⟩
  rw [run_single, hs.first n h]

theorem runs_names {ns : List String} (h : (Phrase.names ns).Runs rule ts)
    (hc : c.kind = .symbol .comma) (hn : n.kind = .name) :
    (Phrase.names (ns ++ [n.text])).Runs rule (ts ++ [c, n]) := by
  refine ⟨by simp, fun start next after hs => ?_⟩
  rw [run_append_ok (h.2 start next after hs), run_cons_ok (hs.comma ns c hc), run_single,
    hs.name ns n h.1 hn]

theorem runs_literal {e : Expr} (h : t.literal? = some e) :
    (Phrase.primary e false).Runs rule [t] := by
  intro s k hs
  refine ⟨.operator e k, ?_, rfl⟩
  rw [run_single]
  unfold Token.literal? at h
  split at h <;> simp_all [Opens, TokenKind.startsOperand, shiftOperand]

theorem runs_anonymous {ps : List String} {b : List Stmt} (hf : t.kind = .keyword .function)
    (h : (Phrase.function ps b).Runs rule ts) :
    (Phrase.primary (.function ps b) false).Runs rule (t :: ts) := by
  intro s k hs
  have hopen : s.feed rule t = .ok (.parameterList (.anonymous k)) := by
    rw [hs t (by simp [hf, TokenKind.startsOperand])]
    simp [shiftOperand, hf]
  obtain ⟨e, he, hrun⟩ := h (.parameterList (.anonymous k)) (.anonymous k)
    fun l hl => expectSymbol_ok hl _
  refine ⟨.operator (.function ps b) k, ?_, rfl⟩
  rw [run_cons_ok hopen, hrun]
  exact expectKeyword_ok he _

theorem runs_tableValue {es : List Entry} (h : (Phrase.table es).Runs rule ts) :
    (Phrase.primary (.table es) false).Runs rule ts := by
  intro s k hs
  refine ⟨.operator (.table es) k, h s (.operand k) fun l hl => ?_, rfl⟩
  rw [hs l (by simp [hl, TokenKind.startsOperand])]
  simp [shiftOperand, hl]

theorem runs_chainValue {c : Chain} (h : (Phrase.chain c).Runs rule ts) :
    (Phrase.primary c.expr true).Runs rule ts := by
  intro s k hs
  refine ⟨.suffix c (.operand k), h s (.operand k) fun t _ ht => ?_, c, rfl, rfl⟩
  have hk : t.kind = .name ∨ t.kind = .symbol .openParen := by
    revert ht
    unfold TokenKind.startsChain
    split <;> simp_all
  rcases hk with hk | hk
  · rw [hs t (by simp [hk, TokenKind.startsOperand])]
    simp [shiftOperand, hk]
  · rw [hs t (by simp [hk, TokenKind.startsOperand])]
    simp [shiftOperand, hk]

theorem runs_unsigned {e : Expr} {o : Bool} (h : (Phrase.primary e o).Runs rule ts) :
    (Phrase.operand ⟨[], e⟩ o).Runs rule ts := h

theorem runs_signed {op : UnaryOp} {a : Operand} {o : Bool}
    (ht : UnaryOp.ofToken? t.kind = some op) (h : (Phrase.operand a o).Runs rule ts) :
    (Phrase.operand (a.sign op) o).Runs rule (t :: ts) := by
  intro s k hs
  have hop : s.feed rule t = .ok (.operand (.unary op k)) := by
    unfold UnaryOp.ofToken? at ht
    split at ht <;> simp_all [Opens, TokenKind.startsOperand, shiftOperand]
  rw [run_cons_ok hop, a.sign_tree]
  exact h _ _ (opens_operand _)

theorem runs_formula {a : Operand} {o : Bool} (h : (Phrase.operand a o).Runs rule ts) :
    (Phrase.formula (.single a) o).Runs rule ts := fun s k hs _ => h s k hs

/-- The operator is read once the ones before it that do not yield are complete. -/
theorem runs_operator {f : Formula} {op : BinaryOp} {a : Operand} {o o' : Bool}
    (hf : (Phrase.formula f o).Runs rule ts) (ht : BinaryOp.ofToken? t.kind = some op)
    (ha : (Phrase.operand a o').Runs rule us) :
    (Phrase.formula (f.append op a) o').Runs rule (ts ++ t :: us) := by
  intro s k hs hstands
  rw [Formula.tree_append] at hstands
  obtain ⟨hk, hyields⟩ := hstands.of_extend
  obtain ⟨s₁, hrun, hs₁⟩ := hf s k hs hk
  have hchain : t.kind.extendsChain = false := by
    unfold BinaryOp.ofToken? at ht
    split at ht <;> simp_all [TokenKind.extendsChain]
  have hfeed : s₁.feed rule t = .ok (.operand (.binary
      (reduce op.leftPriority (f.tree.spine k).1 (f.tree.spine k).2).1 op
      (reduce op.leftPriority (f.tree.spine k).1 (f.tree.spine k).2).2)) := by
    rw [ParserState.feed, settle_of_reached hs₁ fun _ => by simpa using hchain]
    simp only [settleOperator, Option.bind_some, ht]
    simp [bind, Except.bind, shift, shiftOperator, ht]
  rw [run_append_ok hrun, run_cons_ok hfeed, f.spine_append op a hyields]
  exact ha _ _ (opens_operand _)

theorem runs_expr {f : Formula} {o : Bool} (h : (Phrase.formula f o).Runs rule ts) :
    (Phrase.expr f.tree.expr o).Runs rule ts := by
  intro s k hs hk
  obtain ⟨s', hrun, hs'⟩ := h s k hs (f.tree.standsIn_of_not_isOperator hk)
  exact ⟨s', hrun, completes_of_reached hs' hk⟩

theorem runs_exprList {e : Expr} {o : Bool} (h : (Phrase.expr e o).Runs rule ts) :
    (Phrase.exprs [e] o).Runs rule ts := by
  intro s k hs hk
  obtain ⟨s', hrun, hs'⟩ := h s (k []) hs (hk.notOperator [])
  exact ⟨s', [], e, hrun, rfl, hs'⟩

theorem runs_exprs {es : List Expr} {e : Expr} {o o' : Bool}
    (hes : (Phrase.exprs es o).Runs rule ts) (hc : c.kind = .symbol .comma)
    (he : (Phrase.expr e o').Runs rule us) :
    (Phrase.exprs (es ++ [e]) o').Runs rule (ts ++ c :: us) := by
  intro s k hs hk
  obtain ⟨s₁, front, last, hrun, rfl, hs₁⟩ := hes s k hs hk
  have hcomma : s₁.feed rule c = .ok (.operand (k (front ++ [last]))) := by
    rw [hs₁.feed (hc ▸ endsExpr_comma)]
    exact hk.comma front last c hc
  obtain ⟨s₂, hrun₂, hs₂⟩ := he _ _ (opens_operand _) (hk.notOperator _)
  refine ⟨s₂, front ++ [last], e, ?_, rfl, hs₂⟩
  rw [run_append_ok hrun, run_cons_ok hcomma, hrun₂]

namespace ParserState

theorem OpensChain.of_append {s : ParserState} {k : ChainContext}
    (h : OpensChain rule s k (ts ++ us)) : OpensChain rule s k ts := by
  intro t ht
  exact h t (by cases ts <;> simp_all)

/-- A chain goes on with a token that extends it. -/
theorem feed_suffix (h : t.kind.extendsChain = true) (c : Chain) (k : ChainContext) :
    feed rule (.suffix c k) t = shiftSuffix t c k := by
  have hs : settle rule (some t.kind) (.suffix c k) = .ok (.suffix c k) := by simp [settle, h]
  exact feed_eq hs

theorem listsExprs_argument (f : Expr) (k : ChainContext) :
    ListsExprs rule fun es => .argument f es k where
  notOperator _ := rfl
  comma es e c hc := by simp [hc, endExpression, Except.bind, shift, shiftOperator,
    BinaryOp.ofToken?, endOperand]

end ParserState

theorem runs_variable (hn : n.kind = .name) :
    (Phrase.chain (.place (.name n.text))).Runs rule [n] := by
  intro s k hs
  rw [run_single, hs n rfl (by simp [hn, TokenKind.startsChain])]
  simp [startChain, hn]

theorem runs_parens {e : Expr} {o : Bool} (hl : l.kind = .symbol .openParen)
    (h : (Phrase.expr e o).Runs rule ts) (hr : r.kind = .symbol .closeParen) :
    (Phrase.chain (.parens e)).Runs rule (l :: (ts ++ [r])) := by
  intro s k hs
  have hopen : s.feed rule l = .ok (.operand (.parens k)) := by
    rw [hs l rfl (by simp [hl, TokenKind.startsChain])]
    simp [startChain, hl]
  obtain ⟨s₁, hrun, hs₁⟩ := h _ _ (opens_operand (.parens k)) rfl
  rw [run_cons_ok hopen, run_append_ok hrun, run_single, hs₁.close hr rfl rfl rfl]
  exact expectSymbol_ok hr _

theorem runs_member {c : Chain} (h : (Phrase.chain c).Runs rule ts) (hd : d.kind = .symbol .dot)
    (hn : n.kind = .name) : (Phrase.chain (c.member n.text)).Runs rule (ts ++ [d, n]) := by
  intro s k hs
  have hdot : feed rule (.suffix c k) d = .ok (.member c k) := by
    rw [feed_suffix (by simp [hd, TokenKind.extendsChain])]
    simp [shiftSuffix, hd]
  rw [run_append_ok (h s k hs.of_append), run_cons_ok hdot, run_single]
  exact expect_ok hn _

theorem runs_subscript {c : Chain} {e : Expr} {o : Bool} (h : (Phrase.chain c).Runs rule ts)
    (hl : l.kind = .symbol .openBracket) (he : (Phrase.expr e o).Runs rule us)
    (hr : r.kind = .symbol .closeBracket) :
    (Phrase.chain (.place (.index c.expr e))).Runs rule (ts ++ l :: (us ++ [r])) := by
  intro s k hs
  have hopen : feed rule (.suffix c k) l = .ok (.operand (.subscript c.expr k)) := by
    rw [feed_suffix (by simp [hl, TokenKind.extendsChain])]
    simp [shiftSuffix, hl]
  obtain ⟨s₁, hrun, hs₁⟩ := he _ _ (opens_operand (.subscript c.expr k)) rfl
  rw [run_append_ok (h s k hs.of_append), run_cons_ok hopen, run_append_ok hrun, run_single,
    hs₁.close hr rfl rfl rfl]
  exact expectSymbol_ok hr _

theorem runs_call {c : Chain} {es : List Expr} (h : (Phrase.chain c).Runs rule ts)
    (hes : (Phrase.arguments es).Runs rule us) :
    (Phrase.chain (.call c.expr es)).Runs rule (ts ++ us) := by
  intro s k hs
  rw [run_append_ok (h s k hs.of_append), hes c k]

theorem feed_firstArgument (hl : l.kind = .symbol .openParen) (c : Chain) (k : ChainContext) :
    feed rule (.suffix c k) l = .ok (.firstArgument c.expr k) := by
  rw [feed_suffix (by simp [hl, TokenKind.extendsChain])]
  simp [shiftSuffix, hl]

theorem runs_noArguments (hl : l.kind = .symbol .openParen) (hr : r.kind = .symbol .closeParen) :
    (Phrase.arguments []).Runs rule [l, r] := by
  intro c k
  rw [run_cons_ok (feed_firstArgument hl c k), run_single]
  exact if_pos hr

theorem runs_arguments {es : List Expr} {o : Bool} (hl : l.kind = .symbol .openParen)
    (h : (Phrase.exprs es o).Runs rule ts) (hr : r.kind = .symbol .closeParen) :
    (Phrase.arguments es).Runs rule (l :: (ts ++ [r])) := by
  intro c k
  obtain ⟨s₁, front, last, hrun, rfl, hs₁⟩ :=
    h _ _ (opens_firstArgument c.expr k) (listsExprs_argument c.expr k)
  rw [run_cons_ok (feed_firstArgument hl c k), run_append_ok hrun, run_single,
    hs₁.close hr rfl rfl rfl]
  simp [endOperand, hr, expectSymbol_ok]

theorem runs_tableArgument {es : List Entry} (h : (Phrase.table es).Runs rule ts) :
    (Phrase.arguments [.table es]).Runs rule ts := by
  intro c k
  refine h (.suffix c k) (.argument c.expr k) fun l hl => ?_
  rw [feed_suffix (by simp [hl, TokenKind.extendsChain])]
  simp [shiftSuffix, hl]

/-- After the value of an entry, a comma or the end of the table. -/
theorem ParserState.Completes.entry {e key : Expr} {o : Bool} {es : List Entry} {k : TableContext}
    {s : ParserState} (h : Completes rule o e (.entryValue es key k) s) :
    (∀ t : Token, t.kind = .symbol .comma →
      s.feed rule t = .ok (.entry (es ++ [.entry key e]) k)) ∧
    ∀ t : Token, t.kind = .symbol .closeBrace →
      s.feed rule t = .ok (closeTable (es ++ [.entry key e]) k) := by
  constructor
  · intro t ht
    rw [h.close ht rfl rfl rfl, endOperand, if_pos ht]
  · intro t ht
    rw [h.close ht rfl rfl rfl]
    simp [endOperand, ht, expectSymbol_ok]

theorem runs_namedField {e : Expr} {o : Bool} (hn : n.kind = .name) (ha : a.kind = .symbol .assign)
    (h : (Phrase.expr e o).Runs rule ts) :
    (Phrase.field (.entry (.name n.text) e)).Runs rule (n :: a :: ts) := by
  intro es k
  have hname : feed rule (.entry es k) n = .ok (.entryAssign es (.name n.text) k) := by
    simp [feed, settle, bind, Except.bind, shift, shiftEntry, hn]
  have hassign : feed rule (.entryAssign es (.name n.text) k) a =
      .ok (.operand (.entryValue es (.name n.text) k)) := expectSymbol_ok ha _
  obtain ⟨s, hrun, hs⟩ := h _ _ (opens_operand (.entryValue es (.name n.text) k)) rfl
  exact ⟨s, by rw [run_cons_ok hname, run_cons_ok hassign, hrun], hs.entry⟩

theorem runs_keyedField {key e : Expr} {o o' : Bool} (hl : l.kind = .symbol .openBracket)
    (hkey : (Phrase.expr key o).Runs rule ts) (hr : r.kind = .symbol .closeBracket)
    (ha : a.kind = .symbol .assign) (h : (Phrase.expr e o').Runs rule us) :
    (Phrase.field (.entry key e)).Runs rule (l :: (ts ++ r :: a :: us)) := by
  intro es k
  have hopen : feed rule (.entry es k) l = .ok (.operand (.entryKey es k)) := by
    simp [feed, settle, bind, Except.bind, shift, shiftEntry, hl]
  obtain ⟨s₁, hrun₁, hs₁⟩ := hkey _ _ (opens_operand (.entryKey es k)) rfl
  have hclose : s₁.feed rule r = .ok (.entryAssign es key k) := by
    rw [hs₁.close hr rfl rfl rfl]
    exact expectSymbol_ok hr _
  have hassign : feed rule (.entryAssign es key k) a = .ok (.operand (.entryValue es key k)) :=
    expectSymbol_ok ha _
  obtain ⟨s, hrun, hs⟩ := h _ _ (opens_operand (.entryValue es key k)) rfl
  refine ⟨s, ?_, hs.entry⟩
  rw [run_cons_ok hopen, run_append_ok hrun₁, run_cons_ok hclose, run_cons_ok hassign, hrun]

theorem runs_fieldList {e : Entry} (h : (Phrase.field e).Runs rule ts) :
    (Phrase.fields [e]).Runs rule ts := h []

theorem runs_fields {es : List Entry} {e : Entry} (h : (Phrase.fields es).Runs rule ts)
    (hc : c.kind = .symbol .comma) (he : (Phrase.field e).Runs rule us) :
    (Phrase.fields (es ++ [e])).Runs rule (ts ++ c :: us) := by
  intro k
  obtain ⟨s₁, hrun₁, hcomma, -⟩ := h k
  obtain ⟨s, hrun, hs⟩ := he es k
  exact ⟨s, by rw [run_append_ok hrun₁, run_cons_ok (hcomma c hc), hrun], hs⟩

theorem feed_closeTable (hr : r.kind = .symbol .closeBrace) (es : List Entry) (k : TableContext) :
    feed rule (.entry es k) r = .ok (closeTable es k) := by
  simp [feed, settle, bind, Except.bind, shift, shiftEntry, hr]

theorem runs_emptyTable (hl : l.kind = .symbol .openBrace) (hr : r.kind = .symbol .closeBrace) :
    (Phrase.table []).Runs rule [l, r] := by
  intro s k hs
  rw [run_cons_ok (hs l hl), run_single, feed_closeTable hr]

theorem runs_table {es : List Entry} (hl : l.kind = .symbol .openBrace)
    (h : (Phrase.fields es).Runs rule ts) (hr : r.kind = .symbol .closeBrace) :
    (Phrase.table es).Runs rule (l :: (ts ++ [r])) := by
  intro s k hs
  obtain ⟨s₁, hrun, -, hclose⟩ := h k
  rw [run_cons_ok (hs l hl), run_append_ok hrun, run_single, hclose r hr]

theorem runs_tableComma {es : List Entry} (hl : l.kind = .symbol .openBrace)
    (h : (Phrase.fields es).Runs rule ts) (hc : c.kind = .symbol .comma)
    (hr : r.kind = .symbol .closeBrace) :
    (Phrase.table es).Runs rule (l :: (ts ++ [c, r])) := by
  intro s k hs
  obtain ⟨s₁, hrun, hcomma, -⟩ := h k
  rw [run_cons_ok (hs l hl), run_append_ok hrun, run_cons_ok (hcomma c hc), run_single,
    feed_closeTable hr]

theorem runs_noParameters (hl : l.kind = .symbol .openParen) (hr : r.kind = .symbol .closeParen) :
    (Phrase.parameters []).Runs rule [l, r] := by
  intro s h hs
  rw [run_cons_ok (hs l hl), run_single]
  exact if_pos hr

theorem listsNames_parameters (h : FunctionHead) :
    ListsNames rule (.firstParameter h) (.nextParameter h) (.afterParameter h) where
  first n hn := by simp [feed, settle, bind, Except.bind, shift, hn, expect_ok]
  comma ns c hc := by simp [feed, settle, bind, Except.bind, shift, hc]
  name ns n _ hn := expect_ok hn _

theorem runs_parameters {ns : List String} (hl : l.kind = .symbol .openParen)
    (h : (Phrase.names ns).Runs rule ts) (hr : r.kind = .symbol .closeParen) :
    (Phrase.parameters ns).Runs rule (l :: (ts ++ [r])) := by
  intro s head hs
  rw [run_cons_ok (hs l hl), run_append_ok (h.2 _ _ _ (listsNames_parameters head)), run_single]
  simp [feed, settle, bind, Except.bind, shift, hr, expectSymbol_ok]

theorem runs_function {ps : List String} {b : List Stmt} (hps : (Phrase.parameters ps).Runs rule ts)
    (hb : (Phrase.block b).Runs rule us) (he : t.kind = .keyword .end) :
    (Phrase.function ps b).Runs rule (ts ++ (us ++ [t])) := by
  intro s head hs
  obtain ⟨s₁, hrun, hs₁⟩ := hb (.function head ps)
  refine ⟨t, he, ?_⟩
  rw [run_append_ok (hps s head hs), enterFunction, run_append_ok hrun, run_single]
  exact hs₁.close t (by simp [he, TokenKind.closesBlock, Keyword.closesBlock])

end LuaSyntax
