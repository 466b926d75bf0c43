import LuaSyntax.Proofs.Runs.Expressions

/-!
Reading statements and blocks, and with them all phrases: the tokens of a derived program parse to
the tree that the derivation gives them.
-/
namespace LuaSyntax

open ParserState

variable {rule : ArityRule} {ts us vs ws : List Token} {t n c d l r a f i w u e : Token}

theorem ArityRule.allows_of_eq {m n : Nat} (h : m = n) : rule.allows m n = true := by
  cases rule <;> simp [allows, h]

namespace ParserState

variable {s : ParserState} {k : BlockContext}

theorem OpensStatement.of_append (h : OpensStatement rule s k (ts ++ us)) :
    OpensStatement rule s k ts := by
  intro t ht
  exact h t (by cases ts <;> simp_all)

theorem OpensStatement.feed {kind : TokenKind} (h : OpensStatement rule s k (t :: ts))
    (ht : t.kind = kind) (hkind : kind.startsStatement = true) :
    s.feed rule t = shiftStatement t k := h t rfl (ht ▸ hkind)

/-- The line that a chain context records is that of the first token. -/
theorem OpensStatement.chain (h : OpensStatement rule s k ts) :
    ∃ line, OpensChain rule s (.statement line k) ts := by
  refine ⟨(ts.head?.map Token.line).getD 0, fun t ht hstart => ?_⟩
  have hline : (ts.head?.map Token.line).getD 0 = t.line := by simp [Option.mem_def.mp ht]
  have hkind : t.kind = .name ∨ t.kind = .symbol .openParen := by
    revert hstart
    unfold TokenKind.startsChain
    split <;> simp_all
  have hfeed : s.feed rule t = shiftStatement t k := by
    refine h t ht ?_
    rcases hkind with hkind | hkind <;> simp [hkind, TokenKind.startsStatement]
  rw [hline, hfeed]
  rcases hkind with hkind | hkind <;> simp [shiftStatement, hkind, TokenKind.closesBlock]

theorem completesStatement_statement (o : Bool) (k : BlockContext) :
    CompletesStatement rule o k (.statement k) := fun _ _ => rfl

theorem CompletesStatement.feed {o : Bool} (h : CompletesStatement rule o k s)
    (ht : EndsStatement o (some t.kind)) : s.feed rule t = shiftStatement t k := feed_eq (h _ ht)

theorem CompletesBlock.feed_close {ss : List Stmt} {owner : Owner} {w : Keyword}
    (h : CompletesBlock rule ss owner s) (ht : t.kind = .keyword w) (hw : w.closesBlock = true) :
    s.feed rule t = closeBlock t (.block ss owner) := h.close t (by rw [ht]; exact hw)

theorem endsStatement_of_startsStatement {o : Bool} {kind : TokenKind}
    (h : kind.startsStatement = true) (ho : o = true → kind ≠ .symbol .openParen) :
    EndsStatement o (some kind) := by
  unfold TokenKind.startsStatement at h
  split at h <;> simp_all [EndsStatement, EndsExpr, BinaryOp.ofToken?, TokenKind.extendsChain,
    isComma, isAssign]

theorem endsStatement_of_endsBlock {o : Bool} {next : Option TokenKind}
    (h : endsBlock next = true) : EndsStatement o next := by
  unfold endsBlock at h
  split at h
  · exact ⟨⟨rfl, fun _ => rfl⟩, rfl, rfl⟩
  · exact ⟨⟨rfl, fun _ => rfl⟩, rfl, rfl⟩
  · rename_i kind _
    cases kind with
    | keyword w => cases w <;> first | exact ⟨⟨rfl, fun _ => rfl⟩, rfl, rfl⟩ | cases h
    | _ => cases h

theorem endsBlock_of_closesBlock {kind : TokenKind} (h : kind.closesBlock = true) :
    endsBlock (some kind) = true := by
  unfold endsBlock
  split <;> simp_all

theorem listsExprs_returned (k : BlockContext) : ListsExprs rule fun es => .returned es k where
  notOperator _ := rfl
  comma es e c hc := by simp [hc, endExpression, isComma, Except.bind, shift, shiftOperator,
    BinaryOp.ofToken?, endOperand, expectSymbol_ok]

theorem listsExprs_assigned (isLocal : Bool) (xs : List Expr) (line : Nat) (k : BlockContext) :
    ListsExprs rule fun es => .assigned isLocal xs line es k where
  notOperator _ := rfl
  comma es e c hc := by simp [hc, endExpression, isComma, Except.bind, shift, shiftOperator,
    BinaryOp.ofToken?, endOperand, expectSymbol_ok]

theorem listsExprs_forValue (ns : List String) (k : BlockContext) :
    ListsExprs rule fun es => .forValue ns es k where
  notOperator _ := rfl
  comma es e c hc := by simp [hc, endExpression, Except.bind, shift, shiftOperator,
    BinaryOp.ofToken?, endOperand]

theorem listsNames_locals (k : BlockContext) :
    ListsNames rule (.firstLocal k) (.nextLocal · k) (.afterLocal · k) where
  first n hn := by simp [feed, settle, bind, Except.bind, shift, hn, expect_ok]
  comma ns c hc := by simp [feed, settle, isComma, bind, Except.bind, shift, hc]
  name ns n _ hn := expect_ok hn _

/-- The state after the names of a loop. A single one may still be that of a numeric loop. -/
def afterForNames (k : BlockContext) : List String → ParserState
  | [n] => .afterForVariable n k
  | ns => .afterForName ns k

theorem feed_afterForNames (ns : List String) (hc : c.kind = .symbol .comma) :
    (afterForNames k ns).feed rule c = .ok (.nextForName ns k) := by
  unfold afterForNames
  split <;> simp [feed, settle, bind, Except.bind, shift, hc]

theorem feed_in_afterForNames (ns : List String) (hi : i.kind = .keyword .in) :
    (afterForNames k ns).feed rule i = .ok (.operand (.forValue ns [] k)) := by
  unfold afterForNames
  split <;> simp [feed, settle, bind, Except.bind, shift, hi, expectKeyword_ok]

theorem listsNames_for (k : BlockContext) :
    ListsNames rule (.forVariable k) (.nextForName · k) (afterForNames k) where
  first n hn := expect_ok hn _
  comma ns c hc := feed_afterForNames ns hc
  name ns n hne hn := by
    have hafter : afterForNames k (ns ++ [n.text]) = .afterForName (ns ++ [n.text]) k := by
      cases ns with
      | nil => exact absurd rfl hne
      | cons m ns => cases ns <;> rfl
    rw [hafter]
    exact expect_ok hn _

end ParserState

theorem runs_globalFunction (hf : f.kind = .keyword .function) :
    (Phrase.functionKeyword false).Runs rule [f] := by
  intro s k hs
  rw [run_single, hs.feed hf rfl]
  simp [shiftStatement, hf]

theorem feed_local {s : ParserState} {k : BlockContext} (hs : OpensStatement rule s k (l :: ts))
    (hl : l.kind = .keyword .local) : s.feed rule l = .ok (.firstLocal k) := by
  rw [hs.feed hl rfl]
  simp [shiftStatement, hl]

theorem runs_localFunction (hl : l.kind = .keyword .local) (hf : f.kind = .keyword .function) :
    (Phrase.functionKeyword true).Runs rule [l, f] := by
  intro s k hs
  rw [run_cons_ok (feed_local hs hl), run_single]
  exact if_pos hf

theorem runs_pathName (hn : n.kind = .name) : (Phrase.path n.text).Runs rule [n] := by
  intro isLocal k
  rw [run_single]
  exact expect_ok hn _

theorem runs_path {p : String} (h : (Phrase.path p).Runs rule ts) (hd : d.kind = .symbol .dot)
    (hn : n.kind = .name) : (Phrase.path (extendPath p n.text)).Runs rule (ts ++ [d, n]) := by
  intro isLocal k
  have hdot : feed rule (.functionPath isLocal p k) d = .ok (.functionMember isLocal p k) := by
    simp [feed, settle, bind, Except.bind, shift, shiftFunctionPath, hd]
  rw [run_append_ok (h isLocal k), run_cons_ok hdot, run_single]
  exact expect_ok hn _

theorem run_signature {isLocal : Bool} {p : String} {s : ParserState} {k : BlockContext}
    (hw : (Phrase.functionKeyword isLocal).Runs rule ts) (hp : (Phrase.path p).Runs rule us)
    (hs : OpensStatement rule s k ts) :
    s.run rule (ts ++ us) = .ok (.functionPath isLocal p k) := by
  rw [run_append_ok (hw s k hs), hp isLocal k]

theorem runs_signature {isLocal : Bool} {p : String}
    (hw : (Phrase.functionKeyword isLocal).Runs rule ts) (hp : (Phrase.path p).Runs rule us) :
    (Phrase.signature isLocal p).Runs rule (ts ++ us) := by
  intro s k hs
  refine ⟨.functionPath isLocal p k, run_signature hw hp hs.of_append, fun t ht => ?_⟩
  simp [feed, settle, bind, Except.bind, shift, shiftFunctionPath, ht, expectSymbol_ok]

theorem run_method {isLocal : Bool} {p : String} {s : ParserState} {k : BlockContext}
    (hw : (Phrase.functionKeyword isLocal).Runs rule ts) (hp : (Phrase.path p).Runs rule us)
    (hc : c.kind = .symbol .colon) (hn : n.kind = .name) (hs : OpensStatement rule s k ts) :
    s.run rule (ts ++ (us ++ [c, n])) =
      .ok (.parameterList (.definition isLocal (extendPath p n.text) k)) := by
  have hcolon : feed rule (.functionPath isLocal p k) c = .ok (.functionMethod isLocal p k) := by
    simp [feed, settle, bind, Except.bind, shift, shiftFunctionPath, hc]
  rw [← List.append_assoc, run_append_ok (run_signature hw hp hs), run_cons_ok hcolon, run_single]
  exact expect_ok hn _

theorem runs_method {isLocal : Bool} {p : String}
    (hw : (Phrase.functionKeyword isLocal).Runs rule ts) (hp : (Phrase.path p).Runs rule us)
    (hc : c.kind = .symbol .colon) (hn : n.kind = .name) :
    (Phrase.signature isLocal (extendPath p n.text)).Runs rule (ts ++ (us ++ [c, n])) :=
  fun _ _ hs => ⟨_, run_method hw hp hc hn hs.of_append, fun _ ht => expectSymbol_ok ht _⟩

theorem feed_addTarget {s : ParserState} {k : BlockContext} {x : Chain} {xs : List Expr}
    {line : Nat} {target : Expr} (hx : x.target? = some target)
    (hs : ∀ next, next.any TokenKind.extendsChain = false →
      settle rule next s = addTarget x xs line k)
    (ht : t.kind = .symbol .comma ∨ t.kind = .symbol .assign) :
    s.feed rule t = shift t (.afterTarget (xs ++ [target]) k) := by
  refine feed_eq ?_
  rw [hs _ (by rcases ht with ht | ht <;> simp [ht, TokenKind.extendsChain]), addTarget, hx]

theorem runs_target {x : Chain} {target : Expr} (h : (Phrase.chain x).Runs rule ts)
    (hx : x.target? = some target) : (Phrase.targets [target]).Runs rule ts := by
  intro s k hs
  obtain ⟨line, hchain⟩ := hs.chain
  have hsettle : ∀ next, next.any TokenKind.extendsChain = false →
      settle rule next (.suffix x (.statement line k)) = addTarget x [] line k := by
    intro next hnext
    cases x with
    | call f es => cases hx
    | _ => simp [settle, hnext, endChain]
  exact ⟨_, h s _ hchain, fun t ht => feed_addTarget hx hsettle ht⟩

theorem runs_targets {xs : List Expr} {x : Chain} {target : Expr}
    (hxs : (Phrase.targets xs).Runs rule ts) (hc : c.kind = .symbol .comma)
    (h : (Phrase.chain x).Runs rule us) (hx : x.target? = some target) :
    (Phrase.targets (xs ++ [target])).Runs rule (ts ++ c :: us) := by
  intro s k hs
  obtain ⟨s₁, hrun, hs₁⟩ := hxs s k hs.of_append
  have hcomma : s₁.feed rule c = .ok (.nextTarget xs k) := by
    rw [hs₁ c (Or.inl hc)]
    exact if_pos hc
  obtain ⟨line, hline⟩ : ∃ line, ∀ t ∈ us.head?, t.line = line := by
    refine ⟨(us.head?.map Token.line).getD 0, fun t ht => ?_⟩
    simp [Option.mem_def.mp ht]
  have hchain : OpensChain rule (.nextTarget xs k) (.target xs line k) us := by
    intro t ht _
    rw [← hline t ht]
    rfl
  have hsettle : ∀ next, next.any TokenKind.extendsChain = false →
      settle rule next (.suffix x (.target xs line k)) = addTarget x xs line k := by
    intro next hnext
    simp [settle, hnext, endChain]
  refine ⟨_, ?_, fun t ht => feed_addTarget hx hsettle ht⟩
  rw [run_append_ok hrun, run_cons_ok hcomma, h _ _ hchain]

theorem runs_ifCondition (hi : i.kind = .keyword .if) : (Phrase.condition []).Runs rule [i] := by
  intro s k hs
  rw [run_single, hs.feed hi rfl]
  simp [shiftStatement, hi]

theorem runs_elseifCondition {as : List Arm} (h : (Phrase.arms as).Runs rule ts)
    (hi : i.kind = .keyword .elseif) : (Phrase.condition as).Runs rule (ts ++ [i]) := by
  intro s k hs
  obtain ⟨s₁, front, cond, b, hrun, rfl, hs₁⟩ := h s k hs.of_append
  rw [run_append_ok hrun, run_single, hs₁.feed_close hi rfl]
  simp [closeBlock, hi]

theorem runs_arm {as : List Arm} {cond : Expr} {o : Bool} {b : List Stmt}
    (h : (Phrase.condition as).Runs rule ts) (hcond : (Phrase.expr cond o).Runs rule us)
    (ht : t.kind = .keyword .then) (hb : (Phrase.block b).Runs rule vs) :
    (Phrase.arms (as ++ [⟨cond, b⟩])).Runs rule (ts ++ (us ++ t :: vs)) := by
  intro s k hs
  obtain ⟨s₁, hrun₁, hs₁⟩ := hcond _ _ (opens_operand (.ifCond as k)) rfl
  have hthen : s₁.feed rule t = .ok (.enter (.thenPart as cond k)) := by
    rw [hs₁.close ht rfl rfl rfl]
    exact expectKeyword_ok ht _
  obtain ⟨s₂, hrun₂, hs₂⟩ := hb (.thenPart as cond k)
  refine ⟨s₂, as, cond, b, ?_, rfl, hs₂⟩
  rw [run_append_ok (h s k hs.of_append), run_append_ok hrun₁, run_cons_ok hthen, hrun₂]

/-- The tokens are a statement that is over when its last token has been read. -/
def Adds (rule : ArityRule) (added : List Stmt) (ts : List Token) : Prop :=
  ∀ s k, OpensStatement rule s k ts → s.run rule ts = .ok (.statement (k.append added))

theorem runs_statement_of_end {added : List Stmt} {o : Bool} (h : Adds rule added ts) :
    (Phrase.statement added o).Runs rule ts :=
  fun s k hs => ⟨_, h s k hs, completesStatement_statement o _⟩

theorem runs_break (hb : t.kind = .keyword .break) :
    (Phrase.statement [.break] false).Runs rule [t] := by
  refine runs_statement_of_end fun s k hs => ?_
  rw [run_single, hs.feed hb rfl]
  simp [shiftStatement, hb, BlockContext.push]

theorem runs_do {b : List Stmt} (hd : d.kind = .keyword .do) (hb : (Phrase.block b).Runs rule ts)
    (he : e.kind = .keyword .end) :
    (Phrase.statement [.block b] false).Runs rule (d :: (ts ++ [e])) := by
  refine runs_statement_of_end fun s k hs => ?_
  have hdo : s.feed rule d = .ok (.enter (.block k)) := by
    rw [hs.feed hd rfl]
    simp [shiftStatement, hd]
  obtain ⟨s₁, hrun, hs₁⟩ := hb (.block k)
  rw [run_cons_ok hdo, run_append_ok hrun, run_single, hs₁.feed_close he rfl]
  exact expectKeyword_ok he _

theorem runs_while {cond : Expr} {o : Bool} {b : List Stmt} (hw : w.kind = .keyword .while)
    (hcond : (Phrase.expr cond o).Runs rule ts) (hd : d.kind = .keyword .do)
    (hb : (Phrase.block b).Runs rule us) (he : e.kind = .keyword .end) :
    (Phrase.statement [.while cond b] false).Runs rule (w :: (ts ++ d :: (us ++ [e]))) := by
  refine runs_statement_of_end fun s k hs => ?_
  have hwhile : s.feed rule w = .ok (.operand (.whileCond k)) := by
    rw [hs.feed hw rfl]
    simp [shiftStatement, hw]
  obtain ⟨s₁, hrun₁, hs₁⟩ := hcond _ _ (opens_operand (.whileCond k)) rfl
  have hdo : s₁.feed rule d = .ok (.enter (.while cond k)) := by
    rw [hs₁.close hd rfl rfl rfl]
    exact expectKeyword_ok hd _
  obtain ⟨s₂, hrun₂, hs₂⟩ := hb (.while cond k)
  rw [run_cons_ok hwhile, run_append_ok hrun₁, run_cons_ok hdo, run_append_ok hrun₂, run_single,
    hs₂.feed_close he rfl]
  exact expectKeyword_ok he _

theorem runs_repeat {cond : Expr} {o : Bool} {b : List Stmt} (hr : r.kind = .keyword .repeat)
    (hb : (Phrase.block b).Runs rule ts) (hu : u.kind = .keyword .until)
    (hcond : (Phrase.expr cond o).Runs rule us) :
    (Phrase.statement [.repeat b cond] o).Runs rule (r :: (ts ++ u :: us)) := by
  intro s k hs
  have hrepeat : s.feed rule r = .ok (.enter (.repeat k)) := by
    rw [hs.feed hr rfl]
    simp [shiftStatement, hr]
  obtain ⟨s₁, hrun₁, hs₁⟩ := hb (.repeat k)
  have huntil : s₁.feed rule u = .ok (.operand (.untilCond b k)) := by
    rw [hs₁.feed_close hu rfl]
    exact expectKeyword_ok hu _
  obtain ⟨s₂, hrun₂, hs₂⟩ := hcond _ _ (opens_operand (.untilCond b k)) rfl
  refine ⟨s₂, ?_, fun next hnext => hs₂ next hnext.1⟩
  rw [run_cons_ok hrepeat, run_append_ok hrun₁, run_cons_ok huntil, hrun₂]

theorem adds_conditional {as : List Arm} (h : (Phrase.arms as).Runs rule ts)
    (he : e.kind = .keyword .end) : Adds rule (conditional as []) (ts ++ [e]) := by
  intro s k hs
  obtain ⟨s₁, front, cond, b, hrun, rfl, hs₁⟩ := h s k hs.of_append
  rw [run_append_ok hrun, run_single, hs₁.feed_close he rfl]
  simp [closeBlock, he, expectKeyword_ok]

theorem adds_conditionalElse {as : List Arm} {b : List Stmt} (h : (Phrase.arms as).Runs rule ts)
    (hl : l.kind = .keyword .else) (hb : (Phrase.block b).Runs rule us)
    (he : e.kind = .keyword .end) : Adds rule (conditional as b) (ts ++ l :: (us ++ [e])) := by
  intro s k hs
  obtain ⟨s₁, front, cond, b', hrun₁, rfl, hs₁⟩ := h s k hs.of_append
  have helse : s₁.feed rule l = .ok (.enter (.elsePart (front ++ [⟨cond, b'⟩]) k)) := by
    rw [hs₁.feed_close hl rfl]
    simp [closeBlock, hl]
  obtain ⟨s₂, hrun₂, hs₂⟩ := hb (.elsePart (front ++ [⟨cond, b'⟩]) k)
  rw [run_append_ok hrun₁, run_cons_ok helse, run_append_ok hrun₂, run_single,
    hs₂.feed_close he rfl]
  exact expectKeyword_ok he _

theorem feed_for {s : ParserState} {k : BlockContext} (hs : OpensStatement rule s k (f :: ts))
    (hf : f.kind = .keyword .for) : s.feed rule f = .ok (.forVariable k) := by
  rw [hs.feed hf rfl]
  simp [shiftStatement, hf]

/-- The part of a numeric loop before its limit. -/
theorem run_forStart {s : ParserState} {k : BlockContext} {start : Expr} {o : Bool}
    (hs : OpensStatement rule s k (f :: us)) (hf : f.kind = .keyword .for) (hn : n.kind = .name)
    (ha : a.kind = .symbol .assign) (hstart : (Phrase.expr start o).Runs rule ts)
    (hc : c.kind = .symbol .comma) :
    s.run rule (f :: n :: a :: (ts ++ [c])) = .ok (.operand (.forLimit n.text start k)) := by
  have hname : feed rule (.forVariable k) n = .ok (.afterForVariable n.text k) := expect_ok hn _
  have hassign : feed rule (.afterForVariable n.text k) a = .ok (.operand (.forStart n.text k)) :=
    if_pos ha
  obtain ⟨s₁, hrun, hs₁⟩ := hstart _ _ (opens_operand (.forStart n.text k)) rfl
  rw [run_cons_ok (feed_for hs hf), run_cons_ok hname, run_cons_ok hassign, run_append_ok hrun,
    run_single, hs₁.close hc rfl rfl rfl]
  exact expectSymbol_ok hc _

theorem run_numericFor {s : ParserState} {k : BlockContext} {start limit : Expr} {o o' : Bool}
    (hs : OpensStatement rule s k (f :: ws)) (hf : f.kind = .keyword .for) (hn : n.kind = .name)
    (ha : a.kind = .symbol .assign) (hstart : (Phrase.expr start o).Runs rule ts)
    (hc : c.kind = .symbol .comma) (hlimit : (Phrase.expr limit o').Runs rule us)
    (hd : d.kind = .keyword .do) :
    s.run rule (f :: n :: a :: (ts ++ c :: (us ++ [d]))) =
      .ok (.enter (.numericFor n.text start limit (.number .one) k)) := by
  obtain ⟨s₂, hrun₂, hs₂⟩ := hlimit _ _ (opens_operand (.forLimit n.text start k)) rfl
  have hsplit : f :: n :: a :: (ts ++ c :: (us ++ [d])) =
      (f :: n :: a :: (ts ++ [c])) ++ (us ++ [d]) := by simp
  rw [hsplit, run_append_ok (run_forStart hs hf hn ha hstart hc), run_append_ok hrun₂, run_single,
    hs₂.close hd rfl rfl rfl]
  simp [endOperand, hd, expectKeyword_ok]

theorem run_numericForStep {s : ParserState} {k : BlockContext} {start limit step : Expr}
    {o o' o'' : Bool} {c' : Token} (hs : OpensStatement rule s k (f :: ws))
    (hf : f.kind = .keyword .for) (hn : n.kind = .name) (ha : a.kind = .symbol .assign)
    (hstart : (Phrase.expr start o).Runs rule ts) (hc : c.kind = .symbol .comma)
    (hlimit : (Phrase.expr limit o').Runs rule us) (hc' : c'.kind = .symbol .comma)
    (hstep : (Phrase.expr step o'').Runs rule vs) (hd : d.kind = .keyword .do) :
    s.run rule (f :: n :: a :: (ts ++ c :: (us ++ c' :: (vs ++ [d])))) =
      .ok (.enter (.numericFor n.text start limit step k)) := by
  obtain ⟨s₂, hrun₂, hs₂⟩ := hlimit _ _ (opens_operand (.forLimit n.text start k)) rfl
  have hcomma : s₂.feed rule c' = .ok (.operand (.forStep n.text start limit k)) := by
    rw [hs₂.close hc' rfl rfl rfl, endOperand, if_pos hc']
  obtain ⟨s₃, hrun₃, hs₃⟩ := hstep _ _ (opens_operand (.forStep n.text start limit k)) rfl
  have hsplit : f :: n :: a :: (ts ++ c :: (us ++ c' :: (vs ++ [d]))) =
      (f :: n :: a :: (ts ++ [c])) ++ (us ++ c' :: (vs ++ [d])) := by simp
  rw [hsplit, run_append_ok (run_forStart hs hf hn ha hstart hc), run_append_ok hrun₂,
    run_cons_ok hcomma, run_append_ok hrun₃, run_single, hs₃.close hd rfl rfl rfl]
  exact expectKeyword_ok hd _

/-- The body of a numeric loop, after a head that has been read. -/
theorem adds_numericFor {start limit step : Expr} {b : List Stmt}
    (hhead : ∀ s k, OpensStatement rule s k ts →
      s.run rule ts = .ok (.enter (.numericFor n.text start limit step k)))
    (hb : (Phrase.block b).Runs rule us) (he : e.kind = .keyword .end) :
    Adds rule [ParserState.numericFor n.text start limit step b] (ts ++ (us ++ [e])) := by
  intro s k hs
  obtain ⟨s₁, hrun, hs₁⟩ := hb (.numericFor n.text start limit step k)
  rw [run_append_ok (hhead s k hs.of_append), run_append_ok hrun, run_single, hs₁.feed_close he rfl]
  exact expectKeyword_ok he _

theorem runs_numericFor {start limit : Expr} {o o' : Bool} {b : List Stmt}
    (hf : f.kind = .keyword .for) (hn : n.kind = .name) (ha : a.kind = .symbol .assign)
    (hstart : (Phrase.expr start o).Runs rule ts) (hc : c.kind = .symbol .comma)
    (hlimit : (Phrase.expr limit o').Runs rule us) (hd : d.kind = .keyword .do)
    (hb : (Phrase.block b).Runs rule vs) (he : e.kind = .keyword .end) :
    (Phrase.statement [ParserState.numericFor n.text start limit (.number .one) b] false).Runs rule
      (f :: n :: a :: (ts ++ c :: (us ++ d :: (vs ++ [e])))) := by
  have hadds := adds_numericFor (fun _ _ hs => run_numericFor hs hf hn ha hstart hc hlimit hd) hb he
  exact runs_statement_of_end (by simpa using hadds)

theorem runs_numericForStep {start limit step : Expr} {o o' o'' : Bool} {b : List Stmt}
    {c' : Token} (hf : f.kind = .keyword .for) (hn : n.kind = .name) (ha : a.kind = .symbol .assign)
    (hstart : (Phrase.expr start o).Runs rule ts) (hc : c.kind = .symbol .comma)
    (hlimit : (Phrase.expr limit o').Runs rule us) (hc' : c'.kind = .symbol .comma)
    (hstep : (Phrase.expr step o'').Runs rule vs) (hd : d.kind = .keyword .do)
    (hb : (Phrase.block b).Runs rule ws) (he : e.kind = .keyword .end) :
    (Phrase.statement [ParserState.numericFor n.text start limit step b] false).Runs rule
      (f :: n :: a :: (ts ++ c :: (us ++ c' :: (vs ++ d :: (ws ++ [e]))))) := by
  have hadds := adds_numericFor
    (fun _ _ hs => run_numericForStep hs hf hn ha hstart hc hlimit hc' hstep hd) hb he
  exact runs_statement_of_end (by simpa using hadds)

theorem runs_genericFor {ns : List String} {es : List Expr} {o : Bool} {b : List Stmt}
    (hf : f.kind = .keyword .for) (hns : (Phrase.names ns).Runs rule ts)
    (hi : i.kind = .keyword .in) (hes : (Phrase.exprs es o).Runs rule us)
    (hd : d.kind = .keyword .do) (hb : (Phrase.block b).Runs rule vs)
    (he : e.kind = .keyword .end) :
    (Phrase.statement [.genericFor ns es b] false).Runs rule
      (f :: (ts ++ i :: (us ++ d :: (vs ++ [e])))) := by
  refine runs_statement_of_end fun s k hs => ?_
  obtain ⟨s₁, front, last, hrun₁, rfl, hs₁⟩ := hes _ _ (opens_operand (.forValue ns [] k))
    (listsExprs_forValue ns k)
  have hdo : s₁.feed rule d = .ok (.enter (.genericFor ns (front ++ [last]) k)) := by
    rw [hs₁.close hd rfl rfl rfl]
    simp [endOperand, hd, expectKeyword_ok]
  obtain ⟨s₂, hrun₂, hs₂⟩ := hb (.genericFor ns (front ++ [last]) k)
  rw [run_cons_ok (feed_for hs hf), run_append_ok (hns.2 _ _ _ (listsNames_for k)),
    run_cons_ok (feed_in_afterForNames ns hi), run_append_ok hrun₁, run_cons_ok hdo,
    run_append_ok hrun₂, run_single, hs₂.feed_close he rfl]
  exact expectKeyword_ok he _

theorem runs_definition {isLocal : Bool} {p : String} {ps : List String} {b : List Stmt}
    (h : (Phrase.signature isLocal p).Runs rule ts) (hf : (Phrase.function ps b).Runs rule us) :
    (Phrase.statement [.definition isLocal p ps b] false).Runs rule (ts ++ us) := by
  refine runs_statement_of_end fun s k hs => ?_
  obtain ⟨s₁, hrun, hs₁⟩ := h s k hs.of_append
  obtain ⟨t, ht, hbody⟩ := hf s₁ (.definition isLocal p k) hs₁
  rw [run_append_ok hrun, hbody]
  exact expectKeyword_ok ht _

theorem runs_declaration {ns : List String} (hl : l.kind = .keyword .local)
    (h : (Phrase.names ns).Runs rule ts) :
    (Phrase.statement [.assign (.assignment true (ns.map .var) (ns.map fun _ => .nil))] false).Runs
      rule (l :: ts) := by
  intro s k hs
  refine ⟨.afterLocal ns k, ?_, fun next hnext => ?_⟩
  · rw [run_cons_ok (feed_local hs hl), h.2 _ _ _ (listsNames_locals k)]
  · simp [settle, hnext.2.1, hnext.2.2, declare, BlockContext.push]

/-- The values of an assignment end it, since there is one for each target. -/
theorem runs_values {xs es : List Expr} {isLocal o : Bool} {line : Nat} {k : BlockContext}
    (h : (Phrase.exprs es o).Runs rule ts) (hlen : xs.length = es.length) :
    ∃ s, run rule (.operand (.assigned isLocal xs line [] k)) ts = .ok s ∧
      CompletesStatement rule o (k.append [.assign (.assignment isLocal xs es)]) s := by
  obtain ⟨s, front, last, hrun, rfl, hs⟩ := h _ _ (opens_operand (.assigned isLocal xs line [] k))
    (listsExprs_assigned isLocal xs line k)
  refine ⟨s, hrun, fun next hnext => ?_⟩
  rw [hs next hnext.1, endExpression, hnext.2.1]
  simp only [Bool.false_eq_true, if_false, assign]
  rw [if_pos (ArityRule.allows_of_eq hlen)]
  rfl

theorem runs_localAssignment {ns : List String} {es : List Expr} {o : Bool}
    (hl : l.kind = .keyword .local) (h : (Phrase.names ns).Runs rule ts)
    (ha : a.kind = .symbol .assign) (hes : (Phrase.exprs es o).Runs rule us)
    (hlen : ns.length = es.length) :
    (Phrase.statement [.assign (.assignment true (ns.map .var) es)] o).Runs rule
      (l :: (ts ++ a :: us)) := by
  intro s k hs
  have hassign : feed rule (.afterLocal ns k) a =
      .ok (.operand (.assigned true (ns.map .var) a.line [] k)) := by
    simp [feed, settle, isComma, isAssign, bind, Except.bind, shift, ha, expectSymbol_ok]
  have hlen' : (ns.map Expr.var).length = es.length := by simpa using hlen
  obtain ⟨s₁, hrun, hs₁⟩ := runs_values hes hlen'
  refine ⟨s₁, ?_, hs₁⟩
  rw [run_cons_ok (feed_local hs hl), run_append_ok (h.2 _ _ _ (listsNames_locals k)),
    run_cons_ok hassign, hrun]

theorem runs_assignment {xs es : List Expr} {o : Bool} (h : (Phrase.targets xs).Runs rule ts)
    (ha : a.kind = .symbol .assign) (hes : (Phrase.exprs es o).Runs rule us)
    (hlen : xs.length = es.length) :
    (Phrase.statement [.assign (.assignment false xs es)] o).Runs rule (ts ++ a :: us) := by
  intro s k hs
  obtain ⟨s₁, hrun₁, hs₁⟩ := h s k hs.of_append
  have hassign : s₁.feed rule a = .ok (.operand (.assigned false xs a.line [] k)) := by
    rw [hs₁ a (Or.inr ha)]
    simp [shift, ha, expectSymbol_ok]
  obtain ⟨s₂, hrun₂, hs₂⟩ := runs_values hes hlen
  exact ⟨s₂, by rw [run_append_ok hrun₁, run_cons_ok hassign, hrun₂], hs₂⟩

theorem runs_callStatement {callee : Expr} {es : List Expr}
    (h : (Phrase.chain (.call callee es)).Runs rule ts) :
    (Phrase.statement [.call callee es] true).Runs rule ts := by
  intro s k hs
  obtain ⟨line, hchain⟩ := hs.chain
  refine ⟨_, h s _ hchain, fun next hnext => ?_⟩
  simp [settle, hnext.1.2 rfl, endChain, hnext.2.1, hnext.2.2, BlockContext.push]

theorem runs_noStatements : (Phrase.statements [] false).Runs rule [] :=
  fun w => ⟨.enter w, rfl, completesStatement_statement false _⟩

theorem runs_semicolon {ss : List Stmt} {o : Bool} (h : (Phrase.statements ss o).Runs rule ts)
    (hs : c.kind = .symbol .semicolon) : (Phrase.statements ss false).Runs rule (ts ++ [c]) := by
  intro w
  obtain ⟨s₁, hrun, hs₁⟩ := h w
  refine ⟨.statement (.block ss w), ?_, completesStatement_statement false _⟩
  rw [run_append_ok hrun, run_single, hs₁.feed (hs ▸ endsStatement_of_endsBlock rfl)]
  simp [shiftStatement, hs]

theorem runs_statements {ss added : List Stmt} {o o' : Bool}
    (h : (Phrase.statements ss o).Runs rule ts) (hs : (Phrase.statement added o').Runs rule us)
    (hbeside : Juxtaposition.longest o us) :
    (Phrase.statements (ss ++ added) o').Runs rule (ts ++ us) := by
  intro w
  obtain ⟨s₁, hrun₁, hs₁⟩ := h w
  have hopens : OpensStatement rule s₁ (.block ss w) us := by
    intro t ht hstart
    exact hs₁.feed (endsStatement_of_startsStatement hstart fun ho => hbeside ho t ht)
  obtain ⟨s₂, hrun₂, hs₂⟩ := hs s₁ (.block ss w) hopens
  exact ⟨s₂, by rw [run_append_ok hrun₁, hrun₂], hs₂⟩

theorem runs_returnNothing (hr : r.kind = .keyword .return) :
    (Phrase.returned []).Runs rule [r] := by
  intro s k hs
  refine ⟨.returning k, by rw [run_single, hs r hr], fun next hnext => ?_⟩
  simp [settle, hnext]

theorem runs_returnValues {es : List Expr} {o : Bool} (hr : r.kind = .keyword .return)
    (h : (Phrase.exprs es o).Runs rule ts) : (Phrase.returned es).Runs rule (r :: ts) := by
  intro s k hs
  obtain ⟨s₁, front, last, hrun, rfl, hs₁⟩ := h _ _ (opens_returning k) (listsExprs_returned k)
  refine ⟨s₁, by rw [run_cons_ok (hs r hr), hrun], fun next hnext => ?_⟩
  have hends : EndsStatement o next := endsStatement_of_endsBlock hnext
  simp [hs₁ next hends.1, endExpression, hends.2.1]

theorem runs_block {ss : List Stmt} {o : Bool} (h : (Phrase.statements ss o).Runs rule ts) :
    (Phrase.block ss).Runs rule ts := by
  intro w
  obtain ⟨s, hrun, hs⟩ := h w
  refine ⟨s, hrun, fun t ht => ?_, ?_⟩
  · rw [hs.feed (endsStatement_of_endsBlock (endsBlock_of_closesBlock ht)),
      shiftStatement_of_closesBlock ht]
  · rintro rfl
    rw [finish_eq (hs none (endsStatement_of_endsBlock rfl))]
    rfl

/-- After `return` and its values only the end of the block may follow. -/
theorem runs_returned {ss : List Stmt} {es : List Expr} {o : Bool}
    (h : (Phrase.statements ss o).Runs rule ts) (hes : (Phrase.returned es).Runs rule us)
    (w : Owner) : ∃ s, run rule (.enter w) (ts ++ us) = .ok s ∧ ∀ next, endsBlock next = true →
      settle rule next s = .ok (.returned (.block (ss ++ [.return es]) w)) := by
  obtain ⟨s₁, hrun₁, hs₁⟩ := h w
  have hreturn : ∀ t : Token, t.kind = .keyword .return →
      s₁.feed rule t = .ok (.returning (.block ss w)) := by
    intro t ht
    rw [hs₁.feed (ht ▸ ⟨endsExpr_of_kind rfl rfl, rfl, rfl⟩)]
    simp [shiftStatement, ht]
  obtain ⟨s₂, hrun₂, hs₂⟩ := hes s₁ (.block ss w) hreturn
  exact ⟨s₂, by rw [run_append_ok hrun₁, hrun₂], hs₂⟩

theorem runs_returningBlock {ss : List Stmt} {es : List Expr} {o : Bool}
    (h : (Phrase.statements ss o).Runs rule ts) (hes : (Phrase.returned es).Runs rule us) :
    (Phrase.block (ss ++ [.return es])).Runs rule (ts ++ us) := by
  intro w
  obtain ⟨s, hrun, hs⟩ := runs_returned h hes w
  refine ⟨s, hrun, fun t ht => ?_, ?_⟩
  · have hne : t.kind ≠ .symbol .semicolon := by
      intro hsemi
      rw [hsemi] at ht
      cases ht
    rw [feed_eq (hs _ (endsBlock_of_closesBlock ht)), shift, if_neg hne]
  · rintro rfl
    rw [finish_eq (hs none rfl)]
    rfl

theorem runs_returningBlockSemicolon {ss : List Stmt} {es : List Expr} {o : Bool}
    (h : (Phrase.statements ss o).Runs rule ts) (hes : (Phrase.returned es).Runs rule us)
    (hc : c.kind = .symbol .semicolon) :
    (Phrase.block (ss ++ [.return es])).Runs rule (ts ++ (us ++ [c])) := by
  intro w
  obtain ⟨s, hrun, hs⟩ := runs_returned h hes w
  have hclosed : s.feed rule c = .ok (.closed (.block (ss ++ [.return es]) w)) := by
    rw [feed_eq (hs _ (by simp [hc, endsBlock])), shift, if_pos hc]
  refine ⟨.closed (.block (ss ++ [.return es]) w), ?_, fun t _ => rfl, ?_⟩
  · rw [← List.append_assoc, run_append_ok hrun, run_single, hclosed]
  · rintro rfl
    rfl

/-- Every phrase is read as its derivation says. -/
theorem Derives.runs (rule : ArityRule) {p : Phrase} (h : Derives .longest p ts) :
    p.Runs rule ts := by
  induction h with
  | name hn => exact runs_name hn
  | names _ hc hn ih => exact runs_names ih hc hn
  | literal ht => exact runs_literal ht
  | anonymous hf _ ih => exact runs_anonymous hf ih
  | tableValue _ ih => exact runs_tableValue ih
  | chainValue _ ih => exact runs_chainValue ih
  | unsigned _ ih => exact runs_unsigned ih
  | signed ht _ ih => exact runs_signed ht ih
  | formula _ ih => exact runs_formula ih
  | operator _ ht _ ihf iha => exact runs_operator ihf ht iha
  | expr _ ih => exact runs_expr ih
  | exprList _ ih => exact runs_exprList ih
  | exprs _ hc _ ihes ihe => exact runs_exprs ihes hc ihe
  | «variable» hn => exact runs_variable hn
  | parens hl _ hr ih => exact runs_parens hl ih hr
  | member _ hd hn ih => exact runs_member ih hd hn
  | subscript _ hl _ hr ihc ihe => exact runs_subscript ihc hl ihe hr
  | call _ _ ihc ihes => exact runs_call ihc ihes
  | noArguments hl hr => exact runs_noArguments hl hr
  | arguments hl _ hr ih => exact runs_arguments hl ih hr
  | tableArgument _ ih => exact runs_tableArgument ih
  | namedField hn ha _ ih => exact runs_namedField hn ha ih
  | keyedField hl _ hr ha _ ihk ihe => exact runs_keyedField hl ihk hr ha ihe
  | fieldList _ ih => exact runs_fieldList ih
  | fields _ hc _ ihes ihe => exact runs_fields ihes hc ihe
  | emptyTable hl hr => exact runs_emptyTable hl hr
  | table hl _ hr ih => exact runs_table hl ih hr
  | tableComma hl _ hc hr ih => exact runs_tableComma hl ih hc hr
  | noParameters hl hr => exact runs_noParameters hl hr
  | parameters hl _ hr ih => exact runs_parameters hl ih hr
  | function _ _ he ihps ihb => exact runs_function ihps ihb he
  | globalFunction hf => exact runs_globalFunction hf
  | localFunction hl hf => exact runs_localFunction hl hf
  | pathName hn => exact runs_pathName hn
  | path _ hd hn ih => exact runs_path ih hd hn
  | signature _ _ ihw ihp => exact runs_signature ihw ihp
  | method _ _ hc hn ihw ihp => exact runs_method ihw ihp hc hn
  | target _ hx ih => exact runs_target ih hx
  | targets _ hc _ hx ihxs ih => exact runs_targets ihxs hc ih hx
  | ifCondition hi => exact runs_ifCondition hi
  | elseifCondition _ hi ih => exact runs_elseifCondition ih hi
  | arm _ _ ht _ ihas ihe ihb => exact runs_arm ihas ihe ht ihb
  | «break» hb => exact runs_break hb
  | «do» hd _ he ih => exact runs_do hd ih he
  | «while» hw _ hd _ he ihc ihb => exact runs_while hw ihc hd ihb he
  | «repeat» hr _ hu _ ihb ihc => exact runs_repeat hr ihb hu ihc
  | conditional _ he ih => exact runs_statement_of_end (adds_conditional ih he)
  | conditionalElse _ hl _ he ihas ihb =>
    exact runs_statement_of_end (adds_conditionalElse ihas hl ihb he)
  | numericFor hf hn ha _ hc _ hd _ he ihs ihl ihb =>
    exact runs_numericFor hf hn ha ihs hc ihl hd ihb he
  | numericForStep hf hn ha _ hc _ hc' _ hd _ he ihs ihl iht ihb =>
    exact runs_numericForStep hf hn ha ihs hc ihl hc' iht hd ihb he
  | genericFor hf _ hi _ hd _ he ihns ihes ihb => exact runs_genericFor hf ihns hi ihes hd ihb he
  | definition _ _ ihs ihf => exact runs_definition ihs ihf
  | declaration hl _ ih => exact runs_declaration hl ih
  | localAssignment hl _ ha _ hlen ihns ihes => exact runs_localAssignment hl ihns ha ihes hlen
  | assignment _ ha _ hlen ihxs ihes => exact runs_assignment ihxs ha ihes hlen
  | callStatement _ ih => exact runs_callStatement ih
  | noStatements => exact runs_noStatements
  | semicolon _ hs ih => exact runs_semicolon ih hs
  | statements _ _ hbeside ihss ihs => exact runs_statements ihss ihs hbeside
  | returnNothing hr => exact runs_returnNothing hr
  | returnValues hr _ ih => exact runs_returnValues hr ih
  | block _ ih => exact runs_block ih
  | returningBlock _ _ ihss ihes => exact runs_returningBlock ihss ihes
  | returningBlockSemicolon _ _ hs ihss ihes => exact runs_returningBlockSemicolon ihss ihes hs

/-- A derivable program parses to the tree that its derivation gives. -/
theorem Derives.parse {p : Program} (h : Derives .longest (.block p) ts) : parse ts = .ok p := by
  obtain ⟨s, hrun, hs⟩ := h.runs .equal .program
  rw [LuaSyntax.parse, parseWith]
  change (run .equal (.enter .program) ts).bind _ = _
  rw [hrun]
  exact hs.finish rfl

end LuaSyntax
