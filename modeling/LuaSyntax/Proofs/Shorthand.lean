import LuaSyntax.Proofs.Completion
import LuaSyntax.Proofs.Language

/-!
Short ways to write a part of a program. A part in its short form is read as it is in its long form:
after either the parser goes on as from one state, and that state holds the tree of the part.
-/
namespace LuaSyntax

open ParserState

/-- Whatever the tokens are followed by, if the first token of it is allowed, it is read as it would
be in the state `r`. -/
def ReadsTo (rule : ArityRule) (s : ParserState) (ts : List Token)
    (allowed : Option TokenKind → Prop) (r : ParserState) : Prop :=
  ∀ rest : List Token, allowed (rest.head?.map Token.kind) →
    s.runToEnd rule (ts ++ rest) = r.runToEnd rule rest

/-- What follows the block of an arm: with one `end` for all arms, and with each later conditional
in the alternative of the one before, where each has an `end`. -/
inductive Nests : List Arm → List Stmt → List Token → List Token → Prop
  | end {e : Token} : e.kind = .keyword .end → Nests [] [] [e] [e]
  | else {b : List Stmt} {ts : List Token} {l e : Token} :
      l.kind = .keyword .else → Derives .longest (.block b) ts → e.kind = .keyword .end →
      Nests [] b (l :: (ts ++ [e])) (l :: (ts ++ [e]))
  | elseif {x : Expr} {o : Bool} {b alternative : List Stmt} {arms : List Arm}
      {ts us short long : List Token} {i l f t e : Token} :
      i.kind = .keyword .elseif → l.kind = .keyword .else → f.kind = .keyword .if →
      Derives .longest (.expr x o) ts → t.kind = .keyword .then → Derives .longest (.block b) us →
      Nests arms alternative short long → e.kind = .keyword .end →
      Nests (⟨x, b⟩ :: arms) alternative (i :: (ts ++ t :: (us ++ short)))
        (l :: f :: (ts ++ t :: (us ++ (long ++ [e]))))

/-- As many `nil` as the number says, with commas between them. -/
inductive Nils : Nat → List Token → Prop
  | one {n : Token} : n.kind = .keyword .nil → Nils 1 [n]
  | more {m : Nat} {ts : List Token} {c n : Token} :
      Nils m ts → c.kind = .symbol .comma → n.kind = .keyword .nil → Nils (m + 1) (ts ++ [c, n])

/-- The tokens in any number of pairs of parentheses. -/
inductive Parenthesized (ts : List Token) : List Token → Prop
  | bare : Parenthesized ts ts
  | parens {us : List Token} {l r : Token} :
      l.kind = .symbol .openParen → Parenthesized ts us → r.kind = .symbol .closeParen →
      Parenthesized ts (l :: (us ++ [r]))

/-- A short and a long form of a part, where the part may stand in the state `s`; what may follow;
and the state that holds the part. An expression is given by its formula, since it has to be whole
in its context: every formula is where no operator has opened the context. -/
inductive Shorthand (rule : ArityRule) (s : ParserState) :
    List Token → List Token → (Option TokenKind → Prop) → ParserState → Prop
  | elseif {k : BlockContext} {x : Expr} {o : Bool} {b alternative : List Stmt} {later : List Arm}
      {ts us short long : List Token} {i t : Token} :
      OpensStatement rule s k [i] → i.kind = .keyword .if → Derives .longest (.expr x o) ts →
      t.kind = .keyword .then → Derives .longest (.block b) us →
      Nests later alternative short long →
      Shorthand rule s (i :: (ts ++ t :: (us ++ short))) (i :: (ts ++ t :: (us ++ long)))
        (fun _ => True) (.statement (k.push (.if x b (conditional later alternative))))
  | declaration {k : BlockContext} {ns : List String} {ts us : List Token} {l a : Token} :
      OpensStatement rule s k [l] → l.kind = .keyword .local → Derives .longest (.names ns) ts →
      a.kind = .symbol .assign → Nils ns.length us →
      Shorthand rule s (l :: ts) (l :: (ts ++ a :: us)) (EndsStatement false) (declare ns k)
  | numericFor {k : BlockContext} {start limit : Expr} {o o' : Bool} {ts us : List Token}
      {f n a c c' one d : Token} :
      OpensStatement rule s k [f] → f.kind = .keyword .for → n.kind = .name →
      a.kind = .symbol .assign → Derives .longest (.expr start o) ts → c.kind = .symbol .comma →
      Derives .longest (.expr limit o') us → c'.kind = .symbol .comma →
      one.literal? = some (.number .one) → d.kind = .keyword .do →
      Shorthand rule s (f :: n :: a :: (ts ++ c :: (us ++ [d])))
        (f :: n :: a :: (ts ++ c :: (us ++ c' :: [one, d]))) (fun _ => True)
        (.enter (.numericFor n.text start limit (.number .one) k))
  | tableCall {k : ChainContext} {c : Chain} {es : List Entry} {ts us : List Token} {l r : Token} :
      OpensChain rule s k ts → Derives .longest (.chain c) ts → Derives .longest (.table es) us →
      l.kind = .symbol .openParen → r.kind = .symbol .closeParen →
      Shorthand rule s (ts ++ us) (ts ++ l :: (us ++ [r])) (fun _ => True)
        (.suffix (.call c.expr [.table es]) k)
  | method {k : BlockContext} {isLocal : Bool} {p : String} {ts us : List Token} {c d n : Token} :
      OpensStatement rule s k ts → Derives .longest (.functionKeyword isLocal) ts →
      Derives .longest (.path p) us → c.kind = .symbol .colon → d.kind = .symbol .dot →
      n.kind = .name →
      Shorthand rule s (ts ++ (us ++ [c, n])) (ts ++ (us ++ [d, n]))
        (fun next => next ≠ some (.symbol .dot) ∧ next ≠ some (.symbol .colon))
        (.parameterList (.definition isLocal (extendPath p n.text) k))
  | parentheses {k : ExprContext} {x : Formula} {o : Bool} {ts us : List Token} :
      Opens rule s k → x.tree.StandsIn k → Derives .longest (.formula x o) ts →
      Parenthesized ts us → Shorthand rule s ts us (EndsExpr true) (.operator x.tree.expr k)

variable {rule : ArityRule} {s s' r : ParserState} {k : BlockContext} {ts us vs : List Token}
  {t n c d l i f e : Token} {allowed : Option TokenKind → Prop}

theorem readsTo_of_run (h : s.run rule ts = .ok r) : ReadsTo rule s ts allowed r :=
  fun rest _ => runToEnd_append h rest

theorem readsTo_of_settle (h : s.run rule ts = .ok s')
    (hs : ∀ next, allowed next → settle rule next s' = settle rule next r) :
    ReadsTo rule s ts allowed r := by
  intro rest hrest
  rw [runToEnd_append h]
  exact runToEnd_congr (hs _ hrest)

theorem readsTo_statement {added : List Stmt} {o : Bool}
    (h : Derives .longest (.statement added o) ts) (hs : OpensStatement rule s k ts) :
    ReadsTo rule s ts (EndsStatement o) (.statement (k.append added)) := by
  obtain ⟨s', hrun, hs'⟩ := h.runs rule s k hs
  exact readsTo_of_settle hrun hs'

theorem conditional_append (arms later : List Arm) (alternative : List Stmt) :
    conditional (arms ++ later) alternative = conditional arms (conditional later alternative) :=
  List.foldr_append

namespace Nests

variable {arms later : List Arm} {alternative : List Stmt}

theorem adds_short (h : Nests later alternative us vs) (harms : Derives .longest (.arms arms) ts) :
    Adds rule (conditional (arms ++ later) alternative) (ts ++ us) := by
  induction h generalizing arms ts with
  | «end» he => simpa using adds_conditional (harms.runs rule) he
  | «else» hl hb he => simpa using adds_conditionalElse (harms.runs rule) hl (hb.runs rule) he
  | elseif hi _ _ hx ht hb _ _ ih => simpa using ih (.arm (.elseifCondition harms hi) hx ht hb)

/-- The nested conditional is the only statement in the alternative of the last arm. -/
theorem adds_long (h : Nests later alternative us vs) (harms : Derives .longest (.arms arms) ts) :
    Adds rule (conditional (arms ++ later) alternative) (ts ++ vs) := by
  induction h generalizing arms ts with
  | «end» he => simpa using adds_conditional (harms.runs rule) he
  | «else» hl hb he => simpa using adds_conditionalElse (harms.runs rule) hl (hb.runs rule) he
  | @elseif x o b _ later ts' us' _ long i l f t e _ hl hf hx ht hb _ he ih =>
    have hinner := ih (.arm (.ifCondition hf) hx ht hb)
    have hblock := runs_block (runs_statements runs_noStatements
      (runs_statement_of_end (o := false) hinner) (Juxtaposition.longest_closed _))
    have houter := adds_conditionalElse (harms.runs rule) hl hblock he
    rw [List.nil_append, List.nil_append, ← conditional_append] at houter
    simpa using houter

end Nests

theorem derives_nil (hn : n.kind = .keyword .nil) : Derives .longest (.expr .nil false) [n] := by
  have hvalue : n.literal? = some .nil := by simp [Token.literal?, hn]
  exact .expr (.formula (.unsigned (.literal hvalue)))

theorem Nils.derives {m : Nat} (h : Nils m ts) :
    Derives .longest (.exprs (List.replicate m .nil) false) ts := by
  induction h with
  | one hn => exact .exprList (derives_nil hn)
  | more _ hc hn ih =>
    rw [List.replicate_succ']
    exact .exprs ih hc (derives_nil hn)

/-- Parentheses make one operand of a formula, which stands wherever the formula does. -/
theorem Parenthesized.formula (h : Parenthesized ts us) {x : Formula} {o : Bool}
    (hx : Derives .longest (.formula x o) ts) : ∃ y o', Derives .longest (.formula y o') us ∧
      y.tree.expr = x.tree.expr ∧ ∀ k, x.tree.StandsIn k → y.tree.StandsIn k := by
  induction h with
  | bare => exact ⟨x, o, hx, rfl, fun _ hk => hk⟩
  | parens hl _ hr ih =>
    obtain ⟨y, o', hy, hexpr, -⟩ := ih
    have hparens := Derives.parens hl (.expr hy) hr
    rw [hexpr] at hparens
    exact ⟨_, true, .formula (.unsigned (.chainValue hparens)), rfl, fun k _ o ho => by cases ho⟩

theorem readsTo_formula {k : ExprContext} {x : Formula} {o : Bool}
    (hx : Derives .longest (.formula x o) ts) (hs : Opens rule s k) (hk : x.tree.StandsIn k) :
    ReadsTo rule s ts (EndsExpr true) (.operator x.tree.expr k) := by
  obtain ⟨s', hrun, hs'⟩ := hx.runs rule s k hs hk
  refine readsTo_of_settle hrun fun next hnext => ?_
  rw [settle_of_reached hs' fun _ => hnext.2 rfl, settle]
  simp only [settleOperator, hnext.1]
  rw [OperatorTree.reduce_spine x.tree.yields_zero]

/-- After the path of a function, with neither of the tokens that make it longer. -/
theorem readsTo_functionPath {isLocal : Bool} {p : String}
    (h : s.run rule ts = .ok (.functionPath isLocal p k)) :
    ReadsTo rule s ts (fun next => next ≠ some (.symbol .dot) ∧ next ≠ some (.symbol .colon))
      (.parameterList (.definition isLocal p k)) := by
  intro rest hrest
  rw [runToEnd_append h]
  cases rest with
  | nil => rfl
  | cons t rest =>
    have hfeed : feed rule (.functionPath isLocal p k) t =
        feed rule (.parameterList (.definition isLocal p k)) t := by
      obtain ⟨hdot, hcolon⟩ : t.kind ≠ .symbol .dot ∧ t.kind ≠ .symbol .colon := by
        simpa using hrest
      change shiftFunctionPath t isLocal p k = _
      unfold shiftFunctionPath
      split
      · exact absurd ‹_› hdot
      · exact absurd ‹_› hcolon
      · rfl
    rw [runToEnd, runToEnd, run_cons, run_cons, hfeed]

theorem Shorthand.readsTo (h : Shorthand rule s ts us allowed r) :
    ReadsTo rule s ts allowed r ∧ ReadsTo rule s us allowed r := by
  cases h with
  | @elseif k x o b alternative later ts us short long i t hs hi hx ht hb hrest =>
    have harms := Derives.arm (.ifCondition hi) hx ht hb
    have hshort : Adds rule (conditional (⟨x, b⟩ :: later) alternative)
        (i :: (ts ++ t :: (us ++ short))) := by simpa using hrest.adds_short harms
    have hlong : Adds rule (conditional (⟨x, b⟩ :: later) alternative)
        (i :: (ts ++ t :: (us ++ long))) := by simpa using hrest.adds_long harms
    exact ⟨readsTo_of_run (hshort s k hs), readsTo_of_run (hlong s k hs)⟩
  | @declaration k ns ts us l a hs hl hns ha hnils =>
    have hlen : ns.length = (List.replicate ns.length Expr.nil).length := by simp
    have hlong := Derives.localAssignment hl hns ha hnils.derives hlen
    rw [← List.map_const'] at hlong
    exact ⟨readsTo_statement (.declaration hl hns) hs, readsTo_statement hlong hs⟩
  | numericFor hs hf hn ha hstart hc hlimit hc' hone hd =>
    have hstep := (Derives.expr (.formula (.unsigned (.literal hone)))).runs rule
    have hshort := run_numericFor hs hf hn ha (hstart.runs rule) hc (hlimit.runs rule) hd
    have hlong := run_numericForStep hs hf hn ha (hstart.runs rule) hc (hlimit.runs rule) hc' hstep
      hd
    exact ⟨readsTo_of_run hshort, readsTo_of_run hlong⟩
  | @tableCall k c es ts us l r hs hc hes hl hr =>
    have htable := Derives.expr (.formula (.unsigned (.tableValue hes)))
    have hcall {vs : List Token} (h : Derives .longest (.arguments [.table es]) vs) :
        s.run rule (ts ++ vs) = .ok (.suffix (.call c.expr [.table es]) k) := by
      rw [run_append_ok (hc.runs rule s k hs)]
      exact h.runs rule c k
    exact ⟨readsTo_of_run (hcall (.tableArgument hes)),
      readsTo_of_run (hcall (.arguments hl (.exprList htable) hr))⟩
  | method hs hw hp hc hd hn =>
    have hshort := run_method (hw.runs rule) (hp.runs rule) hc hn hs
    have hlong := run_signature (hw.runs rule) ((Derives.path hp hd hn).runs rule) hs
    exact ⟨readsTo_of_run hshort, readsTo_functionPath hlong⟩
  | parentheses hs hk hx hparens =>
    obtain ⟨y, o', hy, hexpr, hstands⟩ := hparens.formula hx
    have hlong := readsTo_formula hy hs (hstands _ hk)
    rw [hexpr] at hlong
    exact ⟨readsTo_formula hx hs hk, hlong⟩

/-- The result of a parse is the same with the short and with the long form of a part, and is what
the parser reads from the state that holds the part. -/
theorem parse_shorthand {before : List Token} (rest : List Token)
    (hs : ParserState.start.run .equal before = .ok s) (h : Shorthand .equal s ts us allowed r)
    (hrest : allowed (rest.head?.map Token.kind)) :
    parse (before ++ (ts ++ rest)) = r.runToEnd .equal rest ∧
      parse (before ++ (us ++ rest)) = r.runToEnd .equal rest := by
  have hparse (vs : List Token) : parse (before ++ vs) = s.runToEnd .equal vs :=
    runToEnd_append hs vs
  obtain ⟨hshort, hlong⟩ := h.readsTo
  rw [hparse, hparse]
  exact ⟨hshort rest hrest, hlong rest hrest⟩

/-- A conditional with two arms, a loop with the step 1, and parentheses after a sign. -/
theorem parse_shorthand_elseif :
    (parse [.ofKeyword .if, .ofName "a", .ofKeyword .then, .ofKeyword .elseif, .ofName "b",
        .ofKeyword .then, .ofKeyword .break, .ofKeyword .end] =
        .ok [.if (.name "a") [] [.if (.name "b") [.break] []]] ∧
      parse [.ofKeyword .if, .ofName "a", .ofKeyword .then, .ofKeyword .else, .ofKeyword .if,
        .ofName "b", .ofKeyword .then, .ofKeyword .break, .ofKeyword .end, .ofKeyword .end] =
        .ok [.if (.name "a") [] [.if (.name "b") [.break] []]]) ∧
    (parse [.ofKeyword .for, .ofName "i", .ofSymbol .assign, .ofName "a", .ofSymbol .comma,
        .ofName "b", .ofKeyword .do, .ofKeyword .end] =
        .ok [ParserState.numericFor "i" (.name "a") (.name "b") (.number .one) []] ∧
      parse [.ofKeyword .for, .ofName "i", .ofSymbol .assign, .ofName "a", .ofSymbol .comma,
        .ofName "b", .ofSymbol .comma, ⟨.number (.int 1), "1", 1⟩, .ofKeyword .do,
        .ofKeyword .end] =
        .ok [ParserState.numericFor "i" (.name "a") (.name "b") (.number .one) []]) ∧
    parse [.ofKeyword .return, .ofSymbol .minus, .ofName "a"] = .ok [.return [.neg (.name "a")]] ∧
      parse [.ofKeyword .return, .ofSymbol .minus, .ofSymbol .openParen, .ofName "a",
        .ofSymbol .closeParen] = .ok [.return [.neg (.name "a")]] := by
  have hopens (w : Keyword) : OpensStatement .equal .start (.new .program) [.ofKeyword w] := by
    rintro _ ⟨⟩ -
    rfl
  have hstart : ParserState.start.run .equal [] = .ok .start := rfl
  have hcomma : (Token.ofSymbol .comma).kind = .symbol .comma := rfl
  have hbreak : Derives .longest (.block [.break]) [.ofKeyword .break] :=
    .block (.statements .noStatements (.break rfl) (Juxtaposition.longest_closed _))
  have hrest := Nests.elseif (i := .ofKeyword .elseif) rfl (l := .ofKeyword .else) rfl
    (f := .ofKeyword .if) rfl (.nameExpr .longest "b") (t := .ofKeyword .then) rfl hbreak
    (.end (e := .ofKeyword .end) rfl) (e := .ofKeyword .end) rfl
  have hif := Shorthand.elseif (hopens .if) rfl (.nameExpr .longest "a") (t := .ofKeyword .then) rfl
    (.block .noStatements) hrest
  have hone : (⟨.number (.int 1), "1", 1⟩ : Token).literal? = some (.number .one) := rfl
  have hfor := Shorthand.numericFor (hopens .for) rfl (n := .ofName "i") rfl
    (a := .ofSymbol .assign) rfl (.nameExpr .longest "a") hcomma (.nameExpr .longest "b") hcomma
    hone (d := .ofKeyword .do) rfl
  have hsign : ParserState.start.run .equal [.ofKeyword .return, .ofSymbol .minus] =
      .ok (.operand (.unary .minus (.returned [] (.new .program)))) := rfl
  have hname := Derives.formula (.nameOperand .longest "a")
  have hparens : Parenthesized [.ofName "a"] [.ofSymbol .openParen, .ofName "a",
      .ofSymbol .closeParen] := .parens rfl .bare rfl
  exact ⟨parse_shorthand [] hstart hif trivial,
    parse_shorthand [.ofKeyword .end] hstart hfor trivial,
    parse_shorthand [] hsign (.parentheses (opens_operand _) (by rintro _ ⟨⟩) hname hparens)
      ⟨rfl, fun _ => rfl⟩⟩

/-- The name of a function with `c` after the symbol, and one more member. -/
def memberOfMember (y : Symbol) : List Token :=
  [.ofKeyword .function, .ofName "a", .ofSymbol .dot, .ofName "b", .ofSymbol y, .ofName "c",
    .ofSymbol .dot, .ofName "d", .ofSymbol .openParen, .ofSymbol .closeParen, .ofKeyword .end]

/-- A method is the last part of a name: a member after it is an error, as it is not after a
member. -/
theorem parse_memberOfMethod :
    parse (memberOfMember .colon) = .error (.expected 1 "." (.symbol .openParen)) ∧
      parse (memberOfMember .dot) = .ok [.definition false "a.b.c.d" [] []] := ⟨rfl, rfl⟩

end LuaSyntax
