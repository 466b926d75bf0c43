import LuaSyntax.Proofs.Runs

/-!
Completing what has been read. Where any number of values may be assigned, every state can still
reach the end of a program: the constructs around it are closed from the inside out.
-/
namespace LuaSyntax

namespace ParserState

/-- The result when the input goes on with these tokens and then ends. -/
def runToEnd (rule : ArityRule) (s : ParserState) (ts : List Token) : Parsing Program :=
  (s.run rule ts).bind (finish rule)

/-- The input can go on so that a program is read. -/
def Completable (s : ParserState) : Prop := ∃ ts p, s.runToEnd .any ts = .ok p

/-- The same with tokens that end a block first, or with none. -/
def Closes (s : ParserState) : Prop :=
  ∃ ts p, (∀ t ∈ ts.head?, t.kind.closesBlock = true) ∧ s.runToEnd .any ts = .ok p

/-- The same with tokens that no expression goes on with. -/
def Ends (s : ParserState) : Prop :=
  ∃ ts p, (∀ t ∈ ts.head?, EndsExpr true (some t.kind)) ∧ s.runToEnd .any ts = .ok p

variable {s s' : ParserState} {t : Token}

theorem Closes.completable (h : Closes s) : Completable s := by
  obtain ⟨ts, p, -, h⟩ := h
  exact ⟨ts, p, h⟩

theorem Ends.completable (h : Ends s) : Completable s := by
  obtain ⟨ts, p, -, h⟩ := h
  exact ⟨ts, p, h⟩

theorem runToEnd_cons {rule : ArityRule} (h : s.feed rule t = .ok s') (ts : List Token) :
    s.runToEnd rule (t :: ts) = s'.runToEnd rule ts := by
  rw [runToEnd, run_cons_ok h, runToEnd]

theorem runToEnd_append {rule : ArityRule} {ts : List Token} (h : s.run rule ts = .ok s')
    (us : List Token) : s.runToEnd rule (ts ++ us) = s'.runToEnd rule us := by
  rw [runToEnd, run_append_ok h, runToEnd]

theorem Completable.feed (h : Completable s') (hs : s.feed .any t = .ok s') : Completable s := by
  obtain ⟨ts, p, h⟩ := h
  exact ⟨t :: ts, p, by rw [runToEnd_cons hs, h]⟩

theorem Completable.ends (h : Completable s') (hs : s.feed .any t = .ok s')
    (ht : EndsExpr true (some t.kind)) : Ends s := by
  obtain ⟨ts, p, h⟩ := h
  refine ⟨t :: ts, p, ?_, by rw [runToEnd_cons hs, h]⟩
  simpa using ht

theorem Completable.closes (h : Completable s') (hs : s.feed .any t = .ok s')
    (ht : t.kind.closesBlock = true) : Closes s := by
  obtain ⟨ts, p, h⟩ := h
  refine ⟨t :: ts, p, ?_, by rw [runToEnd_cons hs, h]⟩
  simpa using ht

/-- States that settle alike in view of what comes first are completed alike. -/
theorem runToEnd_congr {rule : ArityRule} {ts : List Token}
    (h : settle rule (ts.head?.map Token.kind) s = settle rule (ts.head?.map Token.kind) s') :
    s.runToEnd rule ts = s'.runToEnd rule ts := by
  cases ts with
  | nil =>
    change finish rule s = finish rule s'
    rw [finish, finish]
    exact congrArg (fun r => r >>= _) h
  | cons t ts =>
    have hfeed : s.feed rule t = s'.feed rule t := congrArg (fun r => r >>= shift t) h
    rw [runToEnd, runToEnd, run_cons, run_cons, hfeed]

theorem Ends.of_settle (h : Ends s')
    (hs : ∀ next, EndsExpr true next → settle .any next s = settle .any next s') : Ends s := by
  obtain ⟨ts, p, hts, h⟩ := h
  refine ⟨ts, p, hts, ?_⟩
  rw [runToEnd_congr (hs _ ?_), h]
  cases ts with
  | nil => exact ⟨rfl, fun _ => rfl⟩
  | cons t ts => exact hts t rfl

/-- A block can end where it may go on. -/
theorem Closes.statement {k : BlockContext} (h : Closes (.closed k)) :
    Completable (.statement k) := by
  obtain ⟨ts, p, hts, h⟩ := h
  refine ⟨ts, p, ?_⟩
  cases ts with
  | nil => exact h
  | cons t ts =>
    have ht : t.kind.closesBlock = true := hts t rfl
    have hfeed : feed .any (.statement k) t = feed .any (.closed k) t :=
      shiftStatement_of_closesBlock ht k
    rw [runToEnd, run_cons, hfeed, ← run_cons]
    exact h

/-- Closing a block, and then what the block belongs to. -/
theorem Closes.end {w : Owner} {ss : List Stmt} {k : BlockContext} (h : Closes (.closed k))
    (hend : closeBlock (.ofKeyword .end) (.block ss w) = .ok (.statement k)) :
    Closes (.closed (.block ss w)) := h.statement.closes hend rfl

theorem Ends.operand {k : ExprContext} (h : Ends (.operator .nil k)) : Completable (.operand k) :=
  h.completable.feed (t := .ofKeyword .nil) rfl

/-- A block that is entered may be empty. -/
theorem Closes.enter {w : Owner} (h : Closes (.closed (.new w))) : Completable (.enter w) :=
  h.statement

theorem ends_unary {op : UnaryOp} {k : ExprContext} {e : Expr}
    (h : Ends (.operator (op.apply e) k)) :
    Ends (.operator e (.unary op k)) := by
  refine h.of_settle fun next hnext => ?_
  simp only [settle, settleOperator, hnext.1, reduce_unary (Nat.zero_le _)]

theorem ends_binary {l : Expr} {op : BinaryOp} {k : ExprContext} {e : Expr}
    (h : Ends (.operator (.binary l op e) k)) : Ends (.operator e (.binary l op k)) := by
  refine h.of_settle fun next hnext => ?_
  simp only [settle, settleOperator, hnext.1, reduce_binary (Nat.zero_le _)]

theorem ends_suffix {c : Chain} {k : ExprContext} (h : Ends (.operator c.expr k)) :
    Ends (.suffix c (.operand k)) := by
  refine h.of_settle fun next hnext => ?_
  simp [settle, hnext.2 rfl, endChain]

theorem ends_untilCond {b : List Stmt} {k : BlockContext} {e : Expr}
    (h : Closes (.closed (k.push (.repeat b e)))) : Ends (.operator e (.untilCond b k)) :=
  h.statement.ends (t := .ofSymbol .semicolon) rfl ⟨rfl, fun _ => rfl⟩

theorem ends_assigned {isLocal : Bool} {xs vs : List Expr} {line : Nat} {k : BlockContext}
    {e : Expr}
    (h : Closes (.closed (k.push (.assign (.assignment isLocal xs (vs ++ [e])))))) :
    Ends (.operator e (.assigned isLocal xs line vs k)) :=
  h.statement.ends (t := .ofSymbol .semicolon) rfl ⟨rfl, fun _ => rfl⟩

theorem ends_returned {vs : List Expr} {k : BlockContext} {e : Expr}
    (h : Closes (.closed (k.push (.return (vs ++ [e]))))) : Ends (.operator e (.returned vs k)) :=
  h.completable.ends (t := .ofSymbol .semicolon) rfl ⟨rfl, fun _ => rfl⟩

theorem ends_entryValue {es : List Entry} {key e : Expr} {k : TableContext}
    (h : Completable (closeTable (es ++ [.entry key e]) k)) :
    Ends (.operator e (.entryValue es key k)) :=
  h.ends (t := .ofSymbol .closeBrace) rfl ⟨rfl, fun _ => rfl⟩

theorem exists_place_member (c : Chain) (n : String) :
    ∃ e x, c.member n = .place e ∧ (Chain.place e).target? = some x := by
  unfold Chain.member
  split
  · exact ⟨_, _, rfl, rfl⟩
  · exact ⟨_, _, rfl, rfl⟩

/-- Whatever a chain is, one more name makes a target of it, which is then set to nil. -/
theorem completable_target {c : Chain} {k : ChainContext} {b : BlockContext} (xs : List Expr)
    (line : Nat) (hk : ∀ c : Chain, endChain .any (some (.symbol .assign)) (c.member "x") k =
      addTarget (c.member "x") xs line b)
    (hb : ∀ added, Closes (.closed (b.append added))) : Completable (.suffix c k) := by
  obtain ⟨e, x, hmember, hx⟩ := exists_place_member c "x"
  have hassigned : Completable (.operand (.assigned false (xs ++ [x]) 1 [] b)) :=
    (ends_assigned (hb _)).operand
  have htarget : Completable (.suffix (c.member "x") k) := by
    refine hassigned.feed (t := .ofSymbol .assign) ?_
    have hend := hk c
    rw [hmember] at hend ⊢
    rw [addTarget, hx] at hend
    have hsettle : settle .any (some (Token.ofSymbol .assign).kind) (.suffix (.place e) k) =
      .ok (.afterTarget (xs ++ [x]) b) := hend
    exact feed_eq hsettle
  have hname : Completable (.member c k) := htarget.feed (t := .ofName "x") rfl
  exact hname.feed (t := .ofSymbol .dot) rfl

mutual

theorem closes_owner (w : Owner) (ss : List Stmt) : Closes (.closed (.block ss w)) := by
  match w with
  | .program => exact ⟨[], ss, by simp, rfl⟩
  | .block k => exact (closes_append k _).end rfl
  | .while e k => exact (closes_append k _).end rfl
  | .repeat k =>
    have huntil := ends_untilCond (closes_append k [.repeat ss .nil])
    exact huntil.operand.closes (t := .ofKeyword .until) rfl rfl
  | .thenPart arms e k => exact (closes_append k _).end rfl
  | .elsePart arms k => exact (closes_append k _).end rfl
  | .numericFor n start limit step k => exact (closes_append k _).end rfl
  | .genericFor ns es k => exact (closes_append k _).end rfl
  | .function (.definition isLocal p k) ps => exact (closes_append k _).end rfl
  | .function (.anonymous k) ps =>
    exact (ends_operator k (.function ps ss)).completable.closes (t := .ofKeyword .end) rfl rfl

theorem closes_append (k : BlockContext) (added : List Stmt) :
    Closes (.closed (k.append added)) := by
  match k with
  | .block ss w => exact closes_owner w (ss ++ added)

theorem ends_operator (k : ExprContext) (e : Expr) : Ends (.operator e k) := by
  match k with
  | .unary op k => exact ends_unary (ends_operator k _)
  | .binary l op k => exact ends_binary (ends_operator k _)
  | .parens k =>
    exact (completable_suffix k (.parens e)).ends (t := .ofSymbol .closeParen) rfl
      ⟨rfl, fun _ => rfl⟩
  | .subscript table k =>
    exact (completable_suffix k (.place (.index table e))).ends (t := .ofSymbol .closeBracket) rfl
      ⟨rfl, fun _ => rfl⟩
  | .argument f es k =>
    exact (completable_suffix k (.call f (es ++ [e]))).ends (t := .ofSymbol .closeParen) rfl
      ⟨rfl, fun _ => rfl⟩
  | .entryKey es k =>
    have hvalue := (ends_entryValue (completable_closeTable k (es ++ [.entry e .nil]))).operand
    have hassign : Completable (.entryAssign es e k) := hvalue.feed (t := .ofSymbol .assign) rfl
    exact hassign.ends (t := .ofSymbol .closeBracket) rfl ⟨rfl, fun _ => rfl⟩
  | .entryValue es key k => exact ends_entryValue (completable_closeTable k _)
  | .whileCond k =>
    have hbody : Closes (.closed (.new (.while e k))) := (closes_append k _).end rfl
    exact hbody.enter.ends (t := .ofKeyword .do) rfl ⟨rfl, fun _ => rfl⟩
  | .untilCond b k => exact ends_untilCond (closes_append k _)
  | .ifCond arms k =>
    have hbody : Closes (.closed (.new (.thenPart arms e k))) := (closes_append k _).end rfl
    exact hbody.enter.ends (t := .ofKeyword .then) rfl ⟨rfl, fun _ => rfl⟩
  | .forStart n k =>
    have hbody : Closes (.closed (.new (.numericFor n e .nil (.number .one) k))) :=
      (closes_append k _).end rfl
    have hlimit : Ends (.operator .nil (.forLimit n e k)) :=
      hbody.enter.ends (t := .ofKeyword .do) rfl ⟨rfl, fun _ => rfl⟩
    exact hlimit.operand.ends (t := .ofSymbol .comma) rfl ⟨rfl, fun _ => rfl⟩
  | .forLimit n start k =>
    have hbody : Closes (.closed (.new (.numericFor n start e (.number .one) k))) :=
      (closes_append k _).end rfl
    exact hbody.enter.ends (t := .ofKeyword .do) rfl ⟨rfl, fun _ => rfl⟩
  | .forStep n start limit k =>
    have hbody : Closes (.closed (.new (.numericFor n start limit e k))) :=
      (closes_append k _).end rfl
    exact hbody.enter.ends (t := .ofKeyword .do) rfl ⟨rfl, fun _ => rfl⟩
  | .forValue ns es k =>
    have hbody : Closes (.closed (.new (.genericFor ns (es ++ [e]) k))) :=
      (closes_append k _).end rfl
    exact hbody.enter.ends (t := .ofKeyword .do) rfl ⟨rfl, fun _ => rfl⟩
  | .returned es k => exact ends_returned (closes_append k _)
  | .assigned isLocal xs line es k => exact ends_assigned (closes_append k _)

theorem completable_suffix (k : ChainContext) (c : Chain) : Completable (.suffix c k) := by
  match k with
  | .operand k => exact (ends_suffix (ends_operator k c.expr)).completable
  | .statement line k =>
    refine completable_target [] line (fun c => ?_) (closes_append k)
    obtain ⟨e, x, hmember, -⟩ := exists_place_member c "x"
    rw [hmember]
    rfl
  | .target xs line k => exact completable_target xs line (fun _ => rfl) (closes_append k)

theorem completable_closeTable (k : TableContext) (es : List Entry) :
    Completable (closeTable es k) := by
  match k with
  | .operand k => exact (ends_operator k (.table es)).completable
  | .argument f k => exact completable_suffix k (.call f [.table es])

end

theorem completable_operand (k : ExprContext) : Completable (.operand k) :=
  (ends_operator k .nil).operand

theorem completable_statement (k : BlockContext) : Completable (.statement k) := by
  cases k with
  | block ss w => exact (closes_owner w ss).statement

theorem completable_firstParameter (h : FunctionHead) : Completable (.firstParameter h) := by
  have hbody : Completable (enterFunction h []) := completable_statement _
  exact hbody.feed (t := .ofSymbol .closeParen) rfl

theorem completable_functionPath (isLocal : Bool) (p : String) (k : BlockContext) :
    Completable (.functionPath isLocal p k) :=
  (completable_firstParameter _).feed (t := .ofSymbol .openParen) rfl

theorem completable_parameterList (h : FunctionHead) : Completable (.parameterList h) :=
  (completable_firstParameter h).feed (t := .ofSymbol .openParen) rfl

theorem completable_afterForName (ns : List String) (k : BlockContext) :
    Completable (.afterForName ns k) :=
  (completable_operand (.forValue ns [] k)).feed (t := .ofKeyword .in) rfl

theorem completable_afterLocal (ns : List String) (k : BlockContext) :
    Completable (.afterLocal ns k) :=
  (completable_statement _).feed (t := .ofSymbol .semicolon) rfl

/-- There is no state from which only errors can be reached. -/
theorem completable (s : ParserState) : Completable s := by
  cases s with
  | statement k => exact completable_statement k
  | returning k =>
    exact (closes_append k [.return []]).completable.feed (t := .ofSymbol .semicolon) rfl
  | returned k =>
    cases k with
    | block ss w => exact (closes_owner w ss).completable.feed (t := .ofSymbol .semicolon) rfl
  | closed k =>
    cases k with
    | block ss w => exact (closes_owner w ss).completable
  | operand k => exact completable_operand k
  | operator e k => exact (ends_operator k e).completable
  | suffix c k => exact completable_suffix k c
  | member c k => exact (completable_suffix k _).feed (t := .ofName "x") rfl
  | firstArgument f k =>
    exact (completable_suffix k (.call f [])).feed (t := .ofSymbol .closeParen) rfl
  | nextTarget xs k =>
    exact (completable_suffix (.target xs 1 k) _).feed (t := .ofName "x") rfl
  | afterTarget xs k =>
    exact (completable_operand (.assigned false xs 1 [] k)).feed (t := .ofSymbol .assign) rfl
  | entry es k => exact (completable_closeTable k es).feed (t := .ofSymbol .closeBrace) rfl
  | entryAssign es key k => exact (completable_operand _).feed (t := .ofSymbol .assign) rfl
  | firstLocal k => exact (completable_afterLocal _ k).feed (t := .ofName "x") rfl
  | nextLocal ns k => exact (completable_afterLocal _ k).feed (t := .ofName "x") rfl
  | afterLocal ns k => exact completable_afterLocal ns k
  | forVariable k =>
    have hafter : Completable (.afterForVariable "x" k) :=
      (completable_operand (.forValue ["x"] [] k)).feed (t := .ofKeyword .in) rfl
    exact hafter.feed (t := .ofName "x") rfl
  | afterForVariable n k =>
    exact (completable_operand (.forValue [n] [] k)).feed (t := .ofKeyword .in) rfl
  | nextForName ns k => exact (completable_afterForName _ k).feed (t := .ofName "x") rfl
  | afterForName ns k => exact completable_afterForName ns k
  | functionName isLocal k =>
    exact (completable_functionPath isLocal _ k).feed (t := .ofName "x") rfl
  | functionPath isLocal p k => exact completable_functionPath isLocal p k
  | functionMember isLocal p k =>
    exact (completable_functionPath isLocal _ k).feed (t := .ofName "x") rfl
  | functionMethod isLocal p k =>
    exact (completable_parameterList _).feed (t := .ofName "x") rfl
  | parameterList h => exact completable_parameterList h
  | firstParameter h => exact completable_firstParameter h
  | nextParameter h ps =>
    have hbody : Completable (enterFunction h (ps ++ ["x"])) := completable_statement _
    have hafter : Completable (.afterParameter h (ps ++ ["x"])) :=
      hbody.feed (t := .ofSymbol .closeParen) rfl
    exact hafter.feed (t := .ofName "x") rfl
  | afterParameter h ps =>
    have hbody : Completable (enterFunction h ps) := completable_statement _
    exact hbody.feed (t := .ofSymbol .closeParen) rfl

end ParserState

end LuaSyntax
