import LuaSyntax.Proofs.Leads.Shift
import LuaSyntax.Proofs.Runs.Statements

/-!
The language of the parser: the token lists that it accepts, and the program that it reads in each,
are those of the grammar in which a chain goes on as far as it can. In each expression it finds the
one tree in which every operator stands where its level allows.
-/
namespace LuaSyntax

open ParserState

variable {s s' : ParserState} {t : Token} {ts us : List Token}

/-- In any context that no operator has opened, an expression is read to its end and no further, and
what is read is the grouped tree of its operands and operators. -/
theorem expression_operatorTree (rule : ArityRule) {f : Formula} {o : Bool} {k : ExprContext}
    {next : Option TokenKind} (h : Derives .longest (.formula f o) ts) (hk : k.isOperator = false)
    (hop : next.bind BinaryOp.ofToken? = none) (hchain : next.any TokenKind.extendsChain = false) :
    ∃ u : OperatorTree, u.Grouped ∧ u.formula = f ∧
      (∀ v : OperatorTree, v.Grouped → v.formula = f → v = u) ∧
      ∃ s, run rule (.operand k) ts = .ok s ∧
        settle rule next s = endExpression rule next u.expr k := by
  have hunique (v : OperatorTree) (hv : v.Grouped) (hf : v.formula = f) : v = f.tree :=
    Formula.eq_tree_of_grouped hv hf
  refine ⟨f.tree, f.grouped_tree, f.formula_tree, hunique, ?_⟩
  obtain ⟨s, hrun, hs⟩ := (Derives.expr h).runs rule _ _ (opens_operand k) hk
  exact ⟨s, hrun, hs next ⟨hop, fun _ => hchain⟩⟩

/-- A sign in front of a power whose exponent takes in a concatenation: `- a ^ not b .. c`. -/
theorem expression_operatorTree_signed_pow :
    ∃ s, run .equal (.operand (.whileCond (.new .program))) [.ofSymbol .minus, .ofName "a",
        .ofSymbol .caret, .ofKeyword .not, .ofName "b", .ofSymbol .concat, .ofName "c"] = .ok s ∧
      settle .equal (some (.keyword .do)) s = .ok (.operator (.neg (.binary (.name "a") .pow
        (.not (.binary (.name "b") .concat (.name "c"))))) (.whileCond (.new .program))) := by
  have hbase := Derives.formula (.signed (t := .ofSymbol .minus) rfl (.nameOperand .longest "a"))
  have hpow := hbase.operator (t := .ofSymbol .caret) rfl
    (.signed (t := .ofKeyword .not) rfl (.nameOperand .longest "b"))
  have hall := hpow.operator (t := .ofSymbol .concat) rfl (.nameOperand .longest "c")
  have hop : (some (TokenKind.keyword .do)).bind BinaryOp.ofToken? = none := rfl
  have hk : (ExprContext.whileCond (.new .program)).isOperator = false := rfl
  obtain ⟨u, -, -, hu, s, hrun, hs⟩ := expression_operatorTree .equal hall hk hop rfl
  refine ⟨s, hrun, ?_⟩
  rw [hs, ← hu _ (Formula.grouped_tree _) (Formula.formula_tree _)]
  rfl

theorem leads_start : Leads (.state .start) [] := leads_enter .program

theorem leads_feed (h : Leads (.state s) ts) (hs : s.feed .equal t = .ok s') :
    Leads (.state s') (ts ++ [t]) := by
  obtain ⟨s₁, hsettle, hshift⟩ := feed_eq_ok.mp hs
  exact leads_shift (settled_settle h hsettle) hshift

/-- A run leads from the tokens read before it to the tokens read after it. -/
theorem leads_run (h : Leads (.state s) ts) (hs : s.run .equal us = .ok s') :
    Leads (.state s') (ts ++ us) := by
  induction us generalizing s ts with
  | nil =>
    cases hs
    simpa using h
  | cons t us ih =>
    obtain ⟨s₁, hfeed, hrun⟩ := run_cons_eq_ok.mp hs
    simpa using ih (leads_feed h hfeed) hrun

theorem program?_eq_ok {ss : List Stmt} {w : Owner} {p : Program}
    (h : program? (.block ss w) = .ok p) : w = .program ∧ ss = p := by
  cases w <;> simp_all [program?]

/-- Where the input may end, all of it has been read as one block. -/
theorem derives_of_finish {p : Program} (h : Leads (.state s) ts) (hs : s.finish .equal = .ok p) :
    Derives .longest (.block p) ts := by
  obtain ⟨s₁, hsettle, hresult⟩ := finish_eq_ok.mp hs
  have h₁ := settled_settle h hsettle
  cases s₁ with
  | statement k =>
    obtain ⟨o, h₁, -⟩ := h₁
    cases h₁ with
    | block hw hss =>
      obtain ⟨rfl, rfl⟩ := program?_eq_ok hresult
      cases hw
      exact .block hss
  | returned k =>
    cases h₁ with
    | returned hw hss hret =>
      obtain ⟨rfl, rfl⟩ := program?_eq_ok hresult
      cases hw
      rw [List.nil_append]
      exact .returningBlock hss hret
  | closed k =>
    cases h₁ with
    | closed hw hb =>
      obtain ⟨rfl, rfl⟩ := program?_eq_ok hresult
      cases hw
      exact hb
  | _ => cases hresult

/-- A parse reads a program where the grammar derives it, and no other. -/
theorem parse_eq_ok_iff {p : Program} : parse ts = .ok p ↔ Derives .longest (.block p) ts := by
  constructor
  · intro h
    obtain ⟨s, hrun, hfinish⟩ := parseWith_eq_ok.mp h
    exact derives_of_finish (leads_run leads_start hrun) hfinish
  · exact Derives.parse

/-- The parser accepts the token lists that the grammar derives as a block. -/
theorem parse_accepts_iff (ts : List Token) :
    (∃ p, parse ts = .ok p) ↔ ∃ p, Derives .longest (.block p) ts :=
  exists_congr fun _ => parse_eq_ok_iff

/-- The tokens of `a = b (c).d = e`, in which the parenthesis makes the chain at the end of the
first statement longer. -/
def juxtaposedAssignments : List Token :=
  [.ofName "a", .ofSymbol .assign, .ofName "b", .ofSymbol .openParen, .ofName "c",
    .ofSymbol .closeParen, .ofSymbol .dot, .ofName "d", .ofSymbol .assign, .ofName "e"]

theorem juxtaposedAssignments_not_accepted :
    Derives .free (.block [.assign (.assignment false [.var "a"] [.name "b"]),
      .assign (.assignment false [.var "c.d"] [.name "e"])]) juxtaposedAssignments ∧
      parse juxtaposedAssignments = .error (.unexpected 1 "=") := by
  have hfirst := Derives.assignment (.target (.ofName .free "a") rfl) (a := .ofSymbol .assign) rfl
    (.exprList (.nameExpr .free "b")) rfl
  have hparens := Derives.parens (l := .ofSymbol .openParen) rfl (.nameExpr .free "c")
    (r := .ofSymbol .closeParen) rfl
  have hmember := hparens.member (d := .ofSymbol .dot) rfl (n := .ofName "d") rfl
  have hsecond := Derives.assignment (.target hmember rfl) (a := .ofSymbol .assign) rfl
    (.exprList (.nameExpr .free "e")) rfl
  exact ⟨.block (.statements (.statements .noStatements hfirst trivial) hsecond trivial), rfl⟩

end LuaSyntax
