import LuaSyntax.Proofs.Runs

/-!
What a parse takes from its tokens: their kinds, and the texts of names and strings. Lines and other
texts are carried along, and come up again in an error only. So tokens with other lines and texts
give the same program, or the same error with the lines and texts that have come in their place. The
statements that the program already has are carried along as well.
-/
namespace LuaSyntax

/-- What to write for a line, and what for the text of a token on a line. -/
structure Relabeling where
  line : Nat → Nat
  text : Nat → String → String

variable (f : Relabeling)

def Token.relabel (t : Token) : Token := ⟨t.kind, f.text t.line t.text, f.line t.line⟩

/-- The text is kept where it means something. -/
def Token.Keeps (t : Token) : Prop :=
  t.kind = .name ∨ t.kind = .string → f.text t.line t.text = t.text

@[simp] theorem Token.kind_relabel (t : Token) : (t.relabel f).kind = t.kind := rfl

theorem Token.Keeps.text_relabel {f : Relabeling} {t : Token} (h : t.Keeps f)
    (hkind : t.kind = .name ∨ t.kind = .string) : (t.relabel f).text = t.text := h hkind

def SyntaxError.relabel : SyntaxError → SyntaxError
  | unexpected line text => .unexpected (f.line line) (f.text line text)
  | expected line text kind => .expected (f.line line) (f.text line text) kind
  | unexpectedEnd => .unexpectedEnd
  | invalidTarget line => .invalidTarget (f.line line)
  | arity line targets values => .arity (f.line line) targets values

/-- A relabeling, and the statements that a program starts with. -/
structure Recasting extends Relabeling where
  front : List Stmt

instance : Coe Recasting Relabeling := ⟨Recasting.toRelabeling⟩

variable (f : Recasting)

def Owner.front : Owner → List Stmt
  | .program => f.front
  | _ => []

mutual

def ExprContext.relabel : ExprContext → ExprContext
  | .unary op k => .unary op k.relabel
  | .binary left op k => .binary left op k.relabel
  | .parens k => .parens k.relabel
  | .subscript table k => .subscript table k.relabel
  | .argument callee args k => .argument callee args k.relabel
  | .entryKey entries k => .entryKey entries k.relabel
  | .entryValue entries key k => .entryValue entries key k.relabel
  | .whileCond k => .whileCond k.relabel
  | .untilCond body k => .untilCond body k.relabel
  | .ifCond arms k => .ifCond arms k.relabel
  | .forStart name k => .forStart name k.relabel
  | .forLimit name start k => .forLimit name start k.relabel
  | .forStep name start limit k => .forStep name start limit k.relabel
  | .forValue names values k => .forValue names values k.relabel
  | .returned values k => .returned values k.relabel
  | .assigned isLocal targets line values k =>
    .assigned isLocal targets (f.line line) values k.relabel

def ChainContext.relabel : ChainContext → ChainContext
  | .operand k => .operand k.relabel
  | .statement line k => .statement (f.line line) k.relabel
  | .target targets line k => .target targets (f.line line) k.relabel

def TableContext.relabel : TableContext → TableContext
  | .operand k => .operand k.relabel
  | .argument callee k => .argument callee k.relabel

def BlockContext.relabel : BlockContext → BlockContext
  | .block statements owner => .block (owner.front f ++ statements) owner.relabel

def Owner.relabel : Owner → Owner
  | .program => .program
  | .block k => .block k.relabel
  | .while cond k => .while cond k.relabel
  | .repeat k => .repeat k.relabel
  | .thenPart arms cond k => .thenPart arms cond k.relabel
  | .elsePart arms k => .elsePart arms k.relabel
  | .numericFor name start limit step k => .numericFor name start limit step k.relabel
  | .genericFor names values k => .genericFor names values k.relabel
  | .function head params => .function head.relabel params

def FunctionHead.relabel : FunctionHead → FunctionHead
  | .definition isLocal path k => .definition isLocal path k.relabel
  | .anonymous k => .anonymous k.relabel

end

namespace ParserState

def relabel : ParserState → ParserState
  | .statement k => .statement (k.relabel f)
  | .returning k => .returning (k.relabel f)
  | .returned k => .returned (k.relabel f)
  | .closed k => .closed (k.relabel f)
  | .operand k => .operand (k.relabel f)
  | .operator e k => .operator e (k.relabel f)
  | .suffix c k => .suffix c (k.relabel f)
  | .member c k => .member c (k.relabel f)
  | .firstArgument callee k => .firstArgument callee (k.relabel f)
  | .nextTarget targets k => .nextTarget targets (k.relabel f)
  | .afterTarget targets k => .afterTarget targets (k.relabel f)
  | .entry entries k => .entry entries (k.relabel f)
  | .entryAssign entries key k => .entryAssign entries key (k.relabel f)
  | .firstLocal k => .firstLocal (k.relabel f)
  | .nextLocal names k => .nextLocal names (k.relabel f)
  | .afterLocal names k => .afterLocal names (k.relabel f)
  | .forVariable k => .forVariable (k.relabel f)
  | .afterForVariable name k => .afterForVariable name (k.relabel f)
  | .nextForName names k => .nextForName names (k.relabel f)
  | .afterForName names k => .afterForName names (k.relabel f)
  | .functionName isLocal k => .functionName isLocal (k.relabel f)
  | .functionPath isLocal path k => .functionPath isLocal path (k.relabel f)
  | .functionMember isLocal path k => .functionMember isLocal path (k.relabel f)
  | .functionMethod isLocal path k => .functionMethod isLocal path (k.relabel f)
  | .parameterList head => .parameterList (head.relabel f)
  | .firstParameter head => .firstParameter (head.relabel f)
  | .nextParameter head params => .nextParameter (head.relabel f) params
  | .afterParameter head params => .afterParameter (head.relabel f) params

end ParserState

/-- The outcome of a step with the lines and texts in it written anew. -/
def Parsing.relabel : Parsing ParserState → Parsing ParserState
  | .ok s => .ok (s.relabel f)
  | .error e => .error (e.relabel f)

def Parsing.recast : Parsing Program → Parsing Program
  | .ok p => .ok (f.front ++ p)
  | .error e => .error (e.relabel f)

theorem BlockContext.relabel_append (more : List Stmt) (k : BlockContext) :
    (k.append more).relabel f = (k.relabel f).append more := by
  cases k
  simp [BlockContext.append, BlockContext.relabel]

theorem BlockContext.relabel_push (s : Stmt) (k : BlockContext) :
    (k.push s).relabel f = (k.relabel f).push s := k.relabel_append f [s]

theorem reduce_relabel (priority : Nat) (e : Expr) (k : ExprContext) :
    reduce priority e (k.relabel f) =
      ((reduce priority e k).1, (reduce priority e k).2.relabel f) := by
  fun_induction reduce priority e k with
  | case1 e op k h => simp [ExprContext.relabel, reduce, h]
  | case2 e op k h ih => simp [ExprContext.relabel, reduce, h, ih]
  | case3 e left op k h => simp [ExprContext.relabel, reduce, h]
  | case4 e left op k h ih => simp [ExprContext.relabel, reduce, h, ih]
  | case5 e k hunary hbinary =>
    cases k <;> first | rfl | exact absurd rfl (hunary _ _) | exact absurd rfl (hbinary _ _ _)

namespace ParserState

theorem assign_relabel (rule : ArityRule) (isLocal : Bool) (targets : List Expr) (line : Nat)
    (values : List Expr) (k : BlockContext) :
    assign rule isLocal targets (f.line line) values (k.relabel f) =
      Parsing.relabel f (assign rule isLocal targets line values k) := by
  unfold assign
  split
  · rw [← BlockContext.relabel_push]
    rfl
  · rfl

theorem endExpression_relabel (rule : ArityRule) (next : Option TokenKind) (e : Expr)
    (k : ExprContext) : endExpression rule next e (k.relabel f) =
      Parsing.relabel f (endExpression rule next e k) := by
  cases k with
  | untilCond body k =>
    simp only [ExprContext.relabel, endExpression, ← BlockContext.relabel_push]
    rfl
  | returned values k =>
    simp only [ExprContext.relabel, endExpression, ← BlockContext.relabel_push]
    split <;> rfl
  | assigned isLocal targets line values k =>
    simp only [ExprContext.relabel, endExpression, assign_relabel]
    split <;> rfl
  | _ => rfl

theorem settleOperator_relabel (rule : ArityRule) (next : Option TokenKind) (e : Expr)
    (k : ExprContext) : settleOperator rule next e (k.relabel f) =
      Parsing.relabel f (settleOperator rule next e k) := by
  unfold settleOperator
  split
  · simp only [reduce_relabel]
    rfl
  · simp only [reduce_relabel, endExpression_relabel]

theorem addTarget_relabel (c : Chain) (targets : List Expr) (line : Nat) (k : BlockContext) :
    addTarget c targets (f.line line) (k.relabel f) =
      Parsing.relabel f (addTarget c targets line k) := by
  unfold addTarget
  split <;> rfl

theorem endChain_relabel (rule : ArityRule) (next : Option TokenKind) (c : Chain)
    (k : ChainContext) : endChain rule next c (k.relabel f) =
      Parsing.relabel f (endChain rule next c k) := by
  cases k with
  | operand k => exact settleOperator_relabel f rule next c.expr k
  | statement line k =>
    cases c with
    | call callee args =>
      simp only [ChainContext.relabel, endChain, ← BlockContext.relabel_push]
      split <;> rfl
    | place e => exact addTarget_relabel f (.place e) [] line k
    | parens e => exact addTarget_relabel f (.parens e) [] line k
  | target targets line k => exact addTarget_relabel f c targets line k

theorem settle_relabel (rule : ArityRule) (next : Option TokenKind) (s : ParserState) :
    settle rule next (s.relabel f) = Parsing.relabel f (settle rule next s) := by
  cases s with
  | suffix c k =>
    simp only [relabel, settle, endChain_relabel]
    split <;> rfl
  | operator e k => exact settleOperator_relabel f rule next e k
  | returning k =>
    simp only [relabel, settle, ← BlockContext.relabel_push]
    split <;> rfl
  | afterLocal names k =>
    simp only [relabel, settle, declare, ← BlockContext.relabel_push]
    split <;> rfl
  | _ => rfl

section

variable {f} {t : Token}

theorem expect_relabel (kind : TokenKind) {s s' : ParserState} (hs : s' = s.relabel f) :
    (t.relabel f).expect kind s' = Parsing.relabel f (t.expect kind s) := by
  subst hs
  unfold Token.expect
  split <;> simp_all [Token.relabel, Parsing.relabel, SyntaxError.relabel]

theorem ok_relabel {s s' : ParserState} (hs : s' = s.relabel f) :
    (.ok s' : Parsing ParserState) = Parsing.relabel f (.ok s) := congrArg Except.ok hs

theorem ite_relabel {p : Prop} [Decidable p] {r₁ r₁' r₂ r₂' : Parsing ParserState}
    (h₁ : r₁' = Parsing.relabel f r₁) (h₂ : r₂' = Parsing.relabel f r₂) :
    (if p then r₁' else r₂') = Parsing.relabel f (if p then r₁ else r₂) := by
  rw [h₁, h₂]
  split <;> rfl

theorem statement_push (s : Stmt) (k : BlockContext) :
    ParserState.statement ((k.relabel f).push s) =
      (ParserState.statement (k.push s)).relabel f := by
  rw [relabel, BlockContext.relabel_push]

theorem statement_append (ss : List Stmt) (k : BlockContext) :
    ParserState.statement ((k.relabel f).append ss) =
      (ParserState.statement (k.append ss)).relabel f := by
  rw [relabel, BlockContext.relabel_append]

theorem closeBlock_relabel (k : BlockContext) :
    closeBlock (t.relabel f) (k.relabel f) = Parsing.relabel f (closeBlock t k) := by
  obtain ⟨body, owner⟩ := k
  cases owner with
  | program => rfl
  | block k => exact expect_relabel _ (statement_push _ k)
  | «while» cond k => exact expect_relabel _ (statement_push _ k)
  | «repeat» k => exact expect_relabel _ rfl
  | thenPart arms cond k =>
    simp only [BlockContext.relabel, Owner.relabel, closeBlock, Token.relabel]
    split
    · rfl
    · rfl
    · exact expect_relabel (t := t) _ (statement_append _ k)
  | elsePart arms k => exact expect_relabel _ (statement_append _ k)
  | numericFor name start limit step k => exact expect_relabel _ (statement_push _ k)
  | genericFor names values k => exact expect_relabel _ (statement_push _ k)
  | function head params =>
    cases head with
    | definition isLocal path k => exact expect_relabel _ (statement_push _ k)
    | anonymous k => exact expect_relabel _ rfl

theorem startChain_relabel (ht : t.Keeps f) (k : ChainContext) :
    startChain (t.relabel f) (k.relabel f) = Parsing.relabel f (startChain t k) := by
  unfold startChain
  rw [Token.kind_relabel]
  split
  · rename_i hname
    rw [ht.text_relabel (.inl hname)]
    rfl
  · rfl
  · rfl

theorem shiftStatement_relabel (ht : t.Keeps f) (k : BlockContext) :
    shiftStatement (t.relabel f) (k.relabel f) = Parsing.relabel f (shiftStatement t k) := by
  have hclose := closeBlock_relabel (f := f) (t := t) k
  have hchain := startChain_relabel ht (.statement t.line k)
  unfold shiftStatement
  rw [Token.kind_relabel]
  split <;> try rfl
  · exact ok_relabel (statement_push _ k)
  · split
    · exact hclose
    · exact hchain

theorem shiftOperand_relabel (ht : t.Keeps f) (k : ExprContext) :
    shiftOperand (t.relabel f) (k.relabel f) = Parsing.relabel f (shiftOperand t k) := by
  have hchain := startChain_relabel ht (.operand k)
  unfold shiftOperand
  rw [Token.kind_relabel]
  split <;> try rfl
  · rename_i hstring
    rw [ht.text_relabel (.inr hstring)]
    rfl
  · exact hchain

theorem closeTable_relabel (entries : List Entry) (k : TableContext) :
    closeTable entries (k.relabel f) = (closeTable entries k).relabel f := by
  cases k <;> rfl

theorem endOperand_relabel (e : Expr) (k : ExprContext) :
    endOperand (t.relabel f) e (k.relabel f) = Parsing.relabel f (endOperand t e k) := by
  cases k with
  | argument callee args k => exact ite_relabel rfl (expect_relabel _ rfl)
  | entryValue entries key k =>
    exact ite_relabel rfl (expect_relabel _ (closeTable_relabel _ k))
  | forLimit name start k => exact ite_relabel rfl (expect_relabel _ rfl)
  | forValue names values k => exact ite_relabel rfl (expect_relabel _ rfl)
  | unary _ _ | binary _ _ _ | untilCond _ _ => rfl
  | _ => exact expect_relabel _ rfl

theorem shiftOperator_relabel (e : Expr) (k : ExprContext) :
    shiftOperator (t.relabel f) e (k.relabel f) = Parsing.relabel f (shiftOperator t e k) := by
  have hend := endOperand_relabel (f := f) (t := t) e k
  unfold shiftOperator
  rw [Token.kind_relabel]
  split
  · rfl
  · exact hend

theorem shiftSuffix_relabel (c : Chain) (k : ChainContext) :
    shiftSuffix (t.relabel f) c (k.relabel f) = Parsing.relabel f (shiftSuffix t c k) := by
  unfold shiftSuffix
  rw [Token.kind_relabel]
  split <;> rfl

theorem shiftEntry_relabel (ht : t.Keeps f) (entries : List Entry) (k : TableContext) :
    shiftEntry (t.relabel f) entries (k.relabel f) =
      Parsing.relabel f (shiftEntry t entries k) := by
  unfold shiftEntry
  rw [Token.kind_relabel]
  split <;> try rfl
  · exact ok_relabel (closeTable_relabel entries k)
  · rename_i hname
    rw [ht.text_relabel (.inl hname)]
    rfl

theorem shiftFunctionPath_relabel (isLocal : Bool) (path : String) (k : BlockContext) :
    shiftFunctionPath (t.relabel f) isLocal path (k.relabel f) =
      Parsing.relabel f (shiftFunctionPath t isLocal path k) := by
  unfold shiftFunctionPath
  rw [Token.kind_relabel]
  split
  · rfl
  · rfl
  · exact expect_relabel _ rfl

/-- A name that is asked for is taken with its text. -/
theorem expectName_relabel (ht : t.Keeps f) (g : String → ParserState) :
    (t.relabel f).expect .name ((g (t.relabel f).text).relabel f) =
      Parsing.relabel f (t.expect .name (g t.text)) := by
  by_cases hname : t.kind = .name
  · have htext : (t.relabel f).text = t.text := ht (.inl hname)
    rw [htext]
    exact expect_relabel _ rfl
  · rw [Token.expect, Token.expect, Token.kind_relabel, if_neg hname, if_neg hname]
    rfl

theorem shift_relabel (ht : t.Keeps f) (s : ParserState) :
    shift (t.relabel f) (s.relabel f) = Parsing.relabel f (shift t s) := by
  cases s with
  | statement k => exact shiftStatement_relabel ht k
  | returning k => rfl
  | returned k => exact ite_relabel rfl (closeBlock_relabel k)
  | closed k => exact closeBlock_relabel k
  | operand k => exact shiftOperand_relabel ht k
  | operator e k => exact shiftOperator_relabel e k
  | suffix c k => exact shiftSuffix_relabel c k
  | member c k => exact expectName_relabel ht fun x => .suffix (c.member x) k
  | firstArgument callee k =>
    exact ite_relabel rfl (shiftOperand_relabel ht (.argument callee [] k))
  | nextTarget targets k => exact startChain_relabel ht (.target targets t.line k)
  | afterTarget targets k => exact ite_relabel rfl (expect_relabel _ rfl)
  | entry entries k => exact shiftEntry_relabel ht entries k
  | entryAssign entries key k => exact expect_relabel _ rfl
  | firstLocal k =>
    exact ite_relabel rfl (expectName_relabel ht fun x => .afterLocal [x] k)
  | nextLocal names k => exact expectName_relabel ht fun x => .afterLocal (names ++ [x]) k
  | afterLocal names k => exact ite_relabel rfl (expect_relabel _ rfl)
  | forVariable k => exact expectName_relabel ht fun x => .afterForVariable x k
  | afterForVariable name k => exact ite_relabel rfl (ite_relabel rfl (expect_relabel _ rfl))
  | nextForName names k => exact expectName_relabel ht fun x => .afterForName (names ++ [x]) k
  | afterForName names k => exact ite_relabel rfl (expect_relabel _ rfl)
  | functionName isLocal k => exact expectName_relabel ht fun x => .functionPath isLocal x k
  | functionPath isLocal path k => exact shiftFunctionPath_relabel isLocal path k
  | functionMember isLocal path k =>
    exact expectName_relabel ht fun x => .functionPath isLocal (extendPath path x) k
  | functionMethod isLocal path k =>
    exact expectName_relabel ht fun x => .parameterList (.definition isLocal (extendPath path x) k)
  | parameterList head => exact expect_relabel _ rfl
  | firstParameter head =>
    exact ite_relabel rfl (expectName_relabel ht fun x => .afterParameter head [x])
  | nextParameter head params =>
    exact expectName_relabel ht fun x => .afterParameter head (params ++ [x])
  | afterParameter head params => exact ite_relabel rfl (expect_relabel _ rfl)

/-- Reading a token: the step goes the same way, and stops with the same error. -/
theorem feed_relabel (rule : ArityRule) (ht : t.Keeps f) (s : ParserState) :
    (s.relabel f).feed rule (t.relabel f) = Parsing.relabel f (s.feed rule t) := by
  rw [feed, feed, Token.kind_relabel, settle_relabel]
  cases settle rule (some t.kind) s with
  | error e => rfl
  | ok s₁ => exact shift_relabel ht s₁

theorem run_relabel (rule : ArityRule) {ts : List Token} (hts : ∀ t ∈ ts, t.Keeps f)
    (s : ParserState) : (s.relabel f).run rule (ts.map (Token.relabel f)) =
      Parsing.relabel f (s.run rule ts) := by
  induction ts generalizing s with
  | nil => rfl
  | cons t ts ih =>
    obtain ⟨ht, hrest⟩ := List.forall_mem_cons.mp hts
    rw [List.map_cons, run_cons, run_cons, feed_relabel rule ht]
    cases s.feed rule t with
    | error e => rfl
    | ok s₁ => exact ih hrest s₁

theorem program?_relabel (k : BlockContext) :
    program? (k.relabel f) = Parsing.recast f (program? k) := by
  obtain ⟨statements, owner⟩ := k
  cases owner <;> rfl

theorem finish_relabel (rule : ArityRule) (s : ParserState) :
    (s.relabel f).finish rule = Parsing.recast f (s.finish rule) := by
  rw [finish, finish, settle_relabel]
  cases settle rule none s with
  | error e => rfl
  | ok s₁ =>
    cases s₁ with
    | statement k => exact program?_relabel k
    | returned k => exact program?_relabel k
    | closed k => exact program?_relabel k
    | _ => rfl

end

end ParserState

/-- A parse of tokens with other lines and texts ends in the same way. -/
theorem parse_relabel (f : Relabeling) {ts : List Token} (hts : ∀ t ∈ ts, t.Keeps f) :
    parse (ts.map (Token.relabel f)) = (parse ts).mapError (SyntaxError.relabel f) := by
  have hrun : ParserState.start.run .equal (ts.map (Token.relabel f)) =
      Parsing.relabel ⟨f, []⟩ (ParserState.start.run .equal ts) :=
    ParserState.run_relabel (f := ⟨f, []⟩) .equal hts .start
  rw [parse, parse, parseWith, parseWith, hrun]
  cases ParserState.start.run .equal ts with
  | error e => rfl
  | ok s =>
    have hrecast (r : Parsing Program) :
        Parsing.recast ⟨f, []⟩ r = r.mapError (SyntaxError.relabel f) := by cases r <;> rfl
    exact (ParserState.finish_relabel .equal s).trans (hrecast _)

end LuaSyntax
