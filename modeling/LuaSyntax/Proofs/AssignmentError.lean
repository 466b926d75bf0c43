import LuaSyntax.Proofs.FirstError
import LuaSyntax.Proofs.Language

/-!
What an error about an assignment is about. The tokens read before it end in an assignment with
another number of values than targets, or in a chain that stands where a target should and cannot be
one; the error has the line of the sign of that assignment, or of the first token of that chain.
-/
namespace LuaSyntax

open ParserState

/-- A statement that starts with these tokens may stand after the ones before. -/
def StatementPosition (before ts : List Token) : Prop :=
  ∃ k o, Leads (.block k o) before ∧ Juxtaposition.longest o ts

/-- What stands before the sign of an assignment: targets, or `local` with new names. -/
inductive Assigned : List Expr → List Token → Prop
  | targets {xs : List Expr} {ts : List Token} :
      Derives .longest (.targets xs) ts → Assigned xs ts
  | names {ns : List String} {ts : List Token} {l : Token} :
      l.kind = .keyword .local → Derives .longest (.names ns) ts → Assigned (ns.map .var) (l :: ts)

/-- The tokens end in an assignment that is wrong in view of the next token: the values are
complete and not as many as the targets, or a chain that is complete is no target. A call that a
statement starts with is one only where an assignment would go on. The number is the place of the
sign, or of the first token of the chain. -/
inductive Misassigns (next : Option TokenKind) : List Token → Nat → SyntaxError → Prop
  | arity {before head values : List Token} {a : Token} {xs es : List Expr} {o : Bool} :
      StatementPosition before head → Assigned xs head → a.kind = .symbol .assign →
      Derives .longest (.exprs es o) values → EndsExpr o next → isComma next = false →
      1 ≤ xs.length → 1 ≤ es.length → xs.length ≠ es.length →
      Misassigns next (before ++ (head ++ a :: values)) (before.length + head.length)
        (.arity a.line xs.length es.length)
  | firstTarget {before ts : List Token} {t : Token} {c : Chain} :
      StatementPosition before (t :: ts) → Derives .longest (.chain c) (t :: ts) →
      next.any TokenKind.extendsChain = false →
      ((∃ f es, c = .call f es ∧ (isAssign next || isComma next) = true) ∨ ∃ e, c = .parens e) →
      Misassigns next (before ++ t :: ts) before.length (.invalidTarget t.line)
  | laterTarget {before head ts : List Token} {t d : Token} {xs : List Expr} {c : Chain} :
      StatementPosition before head → Derives .longest (.targets xs) head →
      d.kind = .symbol .comma → Derives .longest (.chain c) (t :: ts) →
      next.any TokenKind.extendsChain = false →
      ((∃ f es, c = .call f es) ∨ ∃ e, c = .parens e) →
      Misassigns next (before ++ (head ++ d :: t :: ts)) (before.length + (head.length + 1))
        (.invalidTarget t.line)

variable {k : ExprContext} {b : BlockContext} {x : Expr} {xs es : List Expr} {c : Chain} {o : Bool}
  {line i : Nat} {next : Option TokenKind} {s : ParserState} {e : SyntaxError} {ts us : List Token}

theorem Misassigns.of_eq (h : Misassigns next ts i e) (heq : ts = us) : Misassigns next us i e :=
  heq ▸ h

theorem Assigned.one_le_length (h : Assigned xs ts) : 1 ≤ xs.length := by
  cases h with
  | targets h => cases h <;> simp
  | names hl h => cases h <;> simp

theorem Chain.call_or_parens (h : c.target? = none) :
    (∃ f es, c = .call f es) ∨ ∃ e, c = .parens e := by
  cases c with
  | place e => cases e <;> cases h
  | call f es => exact .inl ⟨f, es, rfl⟩
  | parens e => exact .inr ⟨e, rfl⟩

theorem misassigns_assign {isLocal : Bool}
    (h : Leads (.state (.operand (.assigned isLocal xs line es b))) ts)
    (hx : Derives .longest (.expr x o) us) (hnext : EndsExpr o next) (hcomma : isComma next = false)
    (hs : assign .equal isLocal xs line (es ++ [x]) b = .error e) :
    ∃ i, Misassigns next (ts ++ us) i e := by
  unfold assign at hs
  split at hs
  · cases hs
  · rename_i harity
    cases hs
    have hne : xs.length ≠ (es ++ [x]).length := by simpa [ArityRule.allows] using harity
    have hvalues : 1 ≤ (es ++ [x]).length := by simp
    cases h with
    | assigned h ha hes =>
      cases h with
      | afterTarget h hxs hl =>
        have hxs := Assigned.targets hxs
        have harity := Misassigns.arity ⟨_, _, h, hl⟩ hxs ha (hes.exprs hx) hnext hcomma
          hxs.one_le_length hvalues hne
        exact ⟨_, harity.of_eq (by simp)⟩
    | localAssigned h ha hes =>
      cases h with
      | afterLocal h hns =>
        cases h with
        | firstLocal h hl =>
          have hxs := Assigned.names hl hns
          refine ⟨_, (Misassigns.arity ⟨_, _, h, Juxtaposition.longest_cons ?_⟩ hxs ha
            (hes.exprs hx) hnext hcomma hxs.one_le_length hvalues hne).of_eq (by simp)⟩
          simp [hl]

theorem misassigns_endExpression (h : Leads (.state (.operand k)) ts)
    (hx : Derives .longest (.expr x o) us) (hnext : EndsExpr o next)
    (hs : endExpression .equal next x k = .error e) : ∃ i, Misassigns next (ts ++ us) i e := by
  unfold endExpression at hs
  split at hs
  · cases hs
  · split at hs <;> cases hs
  · split at hs
    · cases hs
    · rename_i hcomma
      exact misassigns_assign h hx hnext (by simpa using hcomma) hs
  · cases hs

theorem misassigns_settleOperator {y : Expr × ExprContext} (h : EndsFormula o y ts)
    (hnext : o = true → next.any TokenKind.extendsChain = false)
    (hs : settleOperator .equal next y.1 y.2 = .error e) : ∃ i, Misassigns next ts i e := by
  obtain ⟨hk, h, hf⟩ := h
  unfold settleOperator at hs
  split at hs
  · cases hs
  · rename_i hop
    rw [Formula.tree, OperatorTree.reduce_zero_spine _ hk] at hs
    exact misassigns_endExpression h (.expr hf) ⟨hop, hnext⟩ hs

theorem target?_of_addTarget_error (hs : addTarget c xs line b = .error e) :
    c.target? = none ∧ e = .invalidTarget line := by
  unfold addTarget at hs
  split at hs
  · cases hs
  · rename_i hc
    cases hs
    exact ⟨hc, rfl⟩

theorem misassigns_endChain {k : ChainContext} (h : Leads (.chain k o) ts)
    (hc : Derives .longest (.chain c) us) (hstart : StartsChain k o us)
    (hnext : next.any TokenKind.extendsChain = false)
    (hs : endChain .equal next c k = .error e) : ∃ i, Misassigns next (ts ++ us) i e := by
  obtain ⟨t, us, rfl⟩ := List.exists_cons_of_ne_nil (hc.ne_nil.resolve_left id)
  cases h with
  | operandChain h =>
    have hend := Leads.endsFormula _ h (.unsigned (.chainValue hc))
    exact misassigns_settleOperator hend (fun _ => hnext) hs
  | statementChain h =>
    obtain ⟨hl, hline⟩ := hstart
    obtain rfl := hline t rfl _ rfl
    cases c with
    | call f es =>
      simp only [endChain] at hs
      split at hs
      · rename_i hassign
        cases hs
        exact ⟨_, .firstTarget ⟨_, _, h, hl⟩ hc hnext (.inl ⟨f, es, rfl, hassign⟩)⟩
      · cases hs
    | place x => cases x <;> cases hs
    | parens x =>
      cases hs
      exact ⟨_, .firstTarget ⟨_, _, h, hl⟩ hc hnext (.inr ⟨x, rfl⟩)⟩
  | targetChain h =>
    obtain rfl := hstart.line t rfl _ rfl
    obtain ⟨hx, rfl⟩ := target?_of_addTarget_error hs
    cases h with
    | nextTarget h hcomma =>
      cases h with
      | afterTarget h hxs hl =>
        have hlater := Misassigns.laterTarget ⟨_, _, h, hl⟩ hxs hcomma hc hnext
          (Chain.call_or_parens hx)
        exact ⟨_, hlater.of_eq (by simp)⟩

/-- Where the next token shows an error, the tokens before it end in the assignment at fault. -/
theorem misassigns_settle (h : Leads (.state s) ts) (hs : settle .equal next s = .error e) :
    ∃ i, Misassigns next ts i e := by
  unfold settle at hs
  split at hs
  · split at hs
    · cases hs
    · rename_i hext
      cases h with
      | suffix h hc hstart => exact misassigns_endChain h hc hstart (by simpa using hext) hs
  · cases h with
    | operator h hx =>
      have hend := Leads.endsFormula _ h (.unsigned hx)
      exact misassigns_settleOperator hend (by simp) hs
  · split at hs <;> cases hs
  · split at hs <;> cases hs
  · cases hs

/-- An error about an assignment is seen by settling, before the next token is read. -/
theorem exists_settle_error (h : parse ts = .error e) (he : e.inAssignment = true) :
    ∃ read rest s, ts = read ++ rest ∧ ParserState.start.run .equal read = .ok s ∧
      settle .equal (rest.head?.map Token.kind) s = .error e := by
  have hnone := SyntaxError.offender_of_inAssignment he
  rcases parseWith_eq_error.mp h with hrun | ⟨s, hrun, hfinish⟩
  · obtain ⟨i, t, s, ht, htake, herr⟩ := exists_of_run_error hrun
    obtain ⟨hi, rfl⟩ := List.getElem?_eq_some_iff.mp ht
    refine ⟨ts.take i, ts.drop i, s, (List.take_append_drop i ts).symm, htake, ?_⟩
    rw [List.drop_eq_getElem_cons hi]
    rcases feed_eq_error.mp herr with hsettle | ⟨s₁, -, hshift⟩
    · exact hsettle
    · have hblamed := blamed_shift _ s₁ e hshift
      simp [hnone] at hblamed
  · refine ⟨ts, [], s, by simp, hrun, ?_⟩
    rcases finish_eq_error.mp hfinish with hsettle | ⟨s₁, -, hresult⟩
    · exact hsettle
    · obtain rfl := result_error hresult
      cases he

/-- Once the next token shows such an error, nothing after it matters. -/
theorem parse_of_settle_error {t : Token} (hrun : ParserState.start.run .equal ts = .ok s)
    (hs : settle .equal (some t.kind) s = .error e) (us : List Token) :
    parse (ts ++ t :: us) = .error e := by
  have hfeed : s.feed .equal t = .error e := feed_eq_error.mpr (.inl hs)
  refine parseWith_eq_error.mpr (.inl ?_)
  rw [run_append_ok hrun]
  exact run_cons_eq_error.mpr (.inl hfeed)

/-- An error about an assignment is about one that was read: it ends before the next token, and
what comes after that token does not matter. -/
theorem parse_error_misassigns (h : parse ts = .error e) (he : e.inAssignment = true) :
    ∃ read rest i, ts = read ++ rest ∧ Misassigns (rest.head?.map Token.kind) read i e ∧
      ∀ t ∈ rest.head?, ∀ us, parse (read ++ t :: us) = .error e := by
  obtain ⟨read, rest, s, rfl, hrun, hs⟩ := exists_settle_error h he
  obtain ⟨i, hi⟩ := misassigns_settle (leads_run leads_start hrun) hs
  refine ⟨read, rest, i, rfl, hi, fun t ht us => ?_⟩
  rw [Option.mem_def.mp ht] at hs
  exact parse_of_settle_error hrun hs us

/-- The tokens of `x = function() a, b = nil end`, with the body of the function on line 2. -/
def assignmentInFunction : List Token :=
  [.ofName "x", .ofSymbol .assign, .ofKeyword .function, .ofSymbol .openParen,
    .ofSymbol .closeParen, ⟨.name, "a", 2⟩, ⟨.symbol .comma, ",", 2⟩, ⟨.name, "b", 2⟩,
    ⟨.symbol .assign, "=", 2⟩, ⟨.keyword .nil, "nil", 2⟩, .ofKeyword .end]

theorem parse_error_misassigns_inFunction :
    ∃ read rest i, assignmentInFunction = read ++ rest ∧
      Misassigns (rest.head?.map Token.kind) read i (.arity 2 2 1) ∧
      ∀ t ∈ rest.head?, ∀ us, parse (read ++ t :: us) = .error (.arity 2 2 1) :=
  parse_error_misassigns rfl rfl

end LuaSyntax
