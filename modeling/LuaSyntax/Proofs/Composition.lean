import LuaSyntax.Proofs.Completion
import LuaSyntax.Proofs.Language
import LuaSyntax.Proofs.Relabeling

/-!
Programs compose. After a program and a semicolon the input is read as if it started there, unless
the program returns; and what is read as a program is read as the same statements where it is the
body of a statement or of a function.
-/
namespace LuaSyntax

open ParserState

/-- Only the statements of a program before it are added. -/
def Recasting.after (p : Program) : Recasting := ⟨⟨id, fun _ text => text⟩, p⟩

variable {p : Program} {ts us vs : List Token} {c : Token}

theorem map_relabel_after (p : Program) (ts : List Token) :
    ts.map (Token.relabel (Recasting.after p)) = ts := List.map_id ts

theorem recast_after (p : Program) (r : Parsing Program) :
    r.recast (.after p) = r.map (p ++ ·) := by
  cases r with
  | ok q => rfl
  | error e => cases e <;> rfl

theorem start_relabel_after (p : Program) :
    ParserState.start.relabel (.after p) = .statement (.block p .program) := by
  simp [ParserState.start, BlockContext.new, ParserState.relabel, BlockContext.relabel, Owner.front,
    Owner.relabel, Recasting.after]

theorem runToEnd_relabel {f : Recasting} (rule : ArityRule) (hts : ∀ t ∈ ts, t.Keeps f)
    (s : ParserState) : (s.relabel f).runToEnd rule (ts.map (Token.relabel f)) =
      Parsing.recast f (s.runToEnd rule ts) := by
  rw [runToEnd, runToEnd, run_relabel rule hts]
  cases s.run rule ts with
  | error e => rfl
  | ok s => exact finish_relabel rule s

/-- Where some statements of a program have been read, they come before what is read from there. -/
theorem runToEnd_statements (rule : ArityRule) (p : Program) (ts : List Token) :
    runToEnd rule (.statement (.block p .program)) ts = (parseWith rule ts).map (p ++ ·) := by
  have hkeeps : ∀ t ∈ ts, t.Keeps (Recasting.after p) := fun _ _ _ => rfl
  have hrun := runToEnd_relabel rule hkeeps .start
  rw [start_relabel_after, map_relabel_after, recast_after] at hrun
  exact hrun

/-- A statement follows a semicolon as it follows nothing. -/
theorem parse_semicolon (h : parse ts = .ok p) (hlast : ∀ es, p.getLast? ≠ some (.return es))
    (hc : c.kind = .symbol .semicolon) : parse (ts ++ c :: us) = (parse us).map (p ++ ·) := by
  cases parse_eq_ok_iff.mp h with
  | block hss =>
    obtain ⟨s, hrun, hs⟩ := hss.runs .equal .program
    have hfeed : s.feed .equal c = .ok (.statement (.block p .program)) := by
      rw [hs.feed (hc ▸ endsStatement_of_endsBlock rfl)]
      simp [shiftStatement, hc]
    change runToEnd .equal (.enter .program) (ts ++ c :: us) = _
    rw [runToEnd_append hrun, runToEnd_cons hfeed]
    exact runToEnd_statements .equal p us
  | returningBlock => simp at hlast
  | returningBlockSemicolon => simp at hlast

/-- What may come after the block of an arm, with the arms and the alternative in it. -/
inductive ConditionalRest : List Arm → List Stmt → List Token → Prop
  | end {e : Token} : e.kind = .keyword .end → ConditionalRest [] [] [e]
  | else {b : List Stmt} {ts : List Token} {l e : Token} :
      l.kind = .keyword .else → Derives .longest (.block b) ts → e.kind = .keyword .end →
      ConditionalRest [] b (l :: (ts ++ [e]))
  | elseif {arms : List Arm} {alternative b : List Stmt} {x : Expr} {o : Bool}
      {ts us vs : List Token} {i t : Token} :
      i.kind = .keyword .elseif → Derives .longest (.expr x o) ts → t.kind = .keyword .then →
      Derives .longest (.block b) us → ConditionalRest arms alternative vs →
      ConditionalRest (⟨x, b⟩ :: arms) alternative (i :: (ts ++ t :: (us ++ vs)))

theorem ConditionalRest.derives {arms later : List Arm} {alternative : List Stmt}
    (h : ConditionalRest later alternative us) (harms : Derives .longest (.arms arms) ts) :
    Derives .longest (.statement (conditional (arms ++ later) alternative) false) (ts ++ us) := by
  induction h generalizing arms ts with
  | «end» he => simpa using Derives.conditional harms he
  | «else» hl hb he => simpa using Derives.conditionalElse harms hl hb he
  | elseif hi hx ht hb _ ih => simpa using ih (.arm (.elseifCondition harms hi) hx ht hb)

/-- The tokens before and after a block that make a program of it, and the program. -/
inductive Encloses : List Token → List Token → (List Stmt → Program) → Prop
  | do {d e : Token} :
      d.kind = .keyword .do → e.kind = .keyword .end → Encloses [d] [e] fun b => [.block b]
  | while {x : Expr} {o : Bool} {ts : List Token} {w d e : Token} :
      w.kind = .keyword .while → Derives .longest (.expr x o) ts → d.kind = .keyword .do →
      e.kind = .keyword .end → Encloses (w :: (ts ++ [d])) [e] fun b => [.while x b]
  | repeat {x : Expr} {o : Bool} {ts : List Token} {r u : Token} :
      r.kind = .keyword .repeat → u.kind = .keyword .until → Derives .longest (.expr x o) ts →
      Encloses [r] (u :: ts) fun b => [.repeat b x]
  | thenPart {arms later : List Arm} {alternative : List Stmt} {x : Expr} {o : Bool}
      {ts us vs : List Token} {t : Token} :
      Derives .longest (.condition arms) ts → Derives .longest (.expr x o) us →
      t.kind = .keyword .then → ConditionalRest later alternative vs →
      Encloses (ts ++ (us ++ [t])) vs fun b => conditional (arms ++ ⟨x, b⟩ :: later) alternative
  | elsePart {arms : List Arm} {ts : List Token} {l e : Token} :
      Derives .longest (.arms arms) ts → l.kind = .keyword .else → e.kind = .keyword .end →
      Encloses (ts ++ [l]) [e] fun b => conditional arms b
  | numericFor {start limit : Expr} {o o' : Bool} {ts us : List Token} {f n a c d e : Token} :
      f.kind = .keyword .for → n.kind = .name → a.kind = .symbol .assign →
      Derives .longest (.expr start o) ts → c.kind = .symbol .comma →
      Derives .longest (.expr limit o') us → d.kind = .keyword .do → e.kind = .keyword .end →
      Encloses (f :: n :: a :: (ts ++ c :: (us ++ [d]))) [e] fun b =>
        [ParserState.numericFor n.text start limit (.number .one) b]
  | numericForStep {start limit step : Expr} {o o' o'' : Bool} {ts us vs : List Token}
      {f n a c c' d e : Token} :
      f.kind = .keyword .for → n.kind = .name → a.kind = .symbol .assign →
      Derives .longest (.expr start o) ts → c.kind = .symbol .comma →
      Derives .longest (.expr limit o') us → c'.kind = .symbol .comma →
      Derives .longest (.expr step o'') vs → d.kind = .keyword .do → e.kind = .keyword .end →
      Encloses (f :: n :: a :: (ts ++ c :: (us ++ c' :: (vs ++ [d])))) [e] fun b =>
        [ParserState.numericFor n.text start limit step b]
  | genericFor {ns : List String} {es : List Expr} {o : Bool} {ts us : List Token}
      {f i d e : Token} :
      f.kind = .keyword .for → Derives .longest (.names ns) ts → i.kind = .keyword .in →
      Derives .longest (.exprs es o) us → d.kind = .keyword .do → e.kind = .keyword .end →
      Encloses (f :: (ts ++ i :: (us ++ [d]))) [e] fun b => [.genericFor ns es b]
  | definition {isLocal : Bool} {path : String} {ps : List String} {ts us : List Token}
      {e : Token} :
      Derives .longest (.signature isLocal path) ts → Derives .longest (.parameters ps) us →
      e.kind = .keyword .end →
      Encloses (ts ++ us) [e] fun b => [.definition isLocal path ps b]
  | anonymous {ps : List String} {ts : List Token} {r f e : Token} :
      r.kind = .keyword .return → f.kind = .keyword .function →
      Derives .longest (.parameters ps) ts → e.kind = .keyword .end →
      Encloses (r :: f :: ts) [e] fun b => [.return [.function ps b]]

theorem Derives.of_eq {q : Phrase} (h : Derives .longest q ts) (heq : ts = us) :
    Derives .longest q us := heq ▸ h

theorem Derives.single {added : List Stmt} {o : Bool}
    (h : Derives .longest (.statement added o) ts) : Derives .longest (.block added) ts :=
  .block (.statements .noStatements h (Juxtaposition.longest_closed ts))

theorem Encloses.derives {f : List Stmt → Program} (h : Encloses us vs f)
    (hb : Derives .longest (.block p) ts) : Derives .longest (.block (f p)) (us ++ (ts ++ vs)) := by
  cases h with
  | «do» hd he => exact (Derives.do hd hb he).single.of_eq (by simp)
  | «while» hw hx hd he => exact (Derives.while hw hx hd hb he).single.of_eq (by simp)
  | «repeat» hr hu hx => exact (Derives.repeat hr hb hu hx).single.of_eq (by simp)
  | thenPart harms hx ht hrest =>
    have hall := hrest.derives (.arm harms hx ht hb)
    simpa using hall.single
  | elsePart harms hl he => exact (Derives.conditionalElse harms hl hb he).single.of_eq (by simp)
  | numericFor hf hn ha hstart hc hlimit hd he =>
    exact (Derives.numericFor hf hn ha hstart hc hlimit hd hb he).single.of_eq (by simp)
  | numericForStep hf hn ha hstart hc hlimit hc' hstep hd he =>
    have hfor := Derives.numericForStep hf hn ha hstart hc hlimit hc' hstep hd hb he
    exact hfor.single.of_eq (by simp)
  | genericFor hf hns hi hes hd he =>
    exact (Derives.genericFor hf hns hi hes hd hb he).single.of_eq (by simp)
  | definition hsig hps he =>
    exact (Derives.definition hsig (.function hps hb he)).single.of_eq (by simp)
  | anonymous hr hf hps he =>
    have hvalue := Derives.expr (.formula (.unsigned (.anonymous hf (.function hps hb he))))
    have hreturn := Derives.returningBlock .noStatements (.returnValues hr (.exprList hvalue))
    exact hreturn.of_eq (by simp)

/-- In whatever a block belongs to, the tokens of a program are read as its statements. -/
theorem run_enter (h : parse ts = .ok p) (w : Owner) (hc : c.kind.closesBlock = true) :
    run .equal (.enter w) (ts ++ [c]) = closeBlock c (.block p w) := by
  obtain ⟨s, hrun, hs⟩ := (parse_eq_ok_iff.mp h).runs .equal w
  rw [run_append_ok hrun, run_single, hs.close c hc]

/-- Two programs are read one after the other with a semicolon between them, and a program is read
in place of a block: in every statement with a block in it, and in every block that the parser has
entered. -/
theorem parse_composes :
    (∀ (ts us : List Token) (c : Token) (p : Program), parse ts = .ok p →
      (∀ es, p.getLast? ≠ some (.return es)) → c.kind = .symbol .semicolon →
      parse (ts ++ c :: us) = (parse us).map (p ++ ·)) ∧
    (∀ (ts before after : List Token) (p : Program) (f : List Stmt → Program), parse ts = .ok p →
      Encloses before after f → parse (before ++ (ts ++ after)) = .ok (f p)) ∧
    ∀ (ts : List Token) (c : Token) (p : Program) (w : Owner), parse ts = .ok p →
      c.kind.closesBlock = true →
      run .equal (.enter w) (ts ++ [c]) = closeBlock c (.block p w) := by
  refine ⟨?semicolon, ?encloses, ?entered⟩
  case semicolon =>
    intro ts us c p h hlast hc
    exact parse_semicolon h hlast hc
  case encloses =>
    intro ts before after p f h hf
    exact (hf.derives (parse_eq_ok_iff.mp h)).parse
  case entered =>
    intro ts c p w h hc
    exact run_enter h w hc

/-- A call, a semicolon and a declaration that fails; and a program that returns, in a function. -/
theorem parse_composes_call :
    parse ([.ofName "f", .ofSymbol .openParen, .ofSymbol .closeParen] ++ .ofSymbol .semicolon ::
        [.ofKeyword .local, .ofName "a", .ofSymbol .assign, .ofKeyword .nil, .ofSymbol .comma,
          .ofKeyword .nil]) = .error (.arity 1 1 2) ∧
      parse ([.ofKeyword .local, .ofKeyword .function, .ofName "f", .ofSymbol .openParen,
        .ofSymbol .closeParen] ++ ([.ofKeyword .break, .ofKeyword .return, .ofSymbol .semicolon] ++
          [.ofKeyword .end])) = .ok [.definition true "f" [] [.break, .return []]] := by
  have hcall : parse [.ofName "f", .ofSymbol .openParen, .ofSymbol .closeParen] =
      .ok [.call (.name "f") []] := rfl
  have hbody : parse [.ofKeyword .break, .ofKeyword .return, .ofSymbol .semicolon] =
      .ok [.break, .return []] := rfl
  have hname : Derives .longest (.signature true "f") [.ofKeyword .local, .ofKeyword .function,
      .ofName "f"] := .signature (.localFunction rfl rfl) (.pathName (n := .ofName "f") rfl)
  have hparameters : Derives .longest (.parameters []) [.ofSymbol .openParen,
      .ofSymbol .closeParen] := .noParameters rfl rfl
  have hfunction := Encloses.definition hname hparameters (e := .ofKeyword .end) rfl
  have hparse := parse_composes.2.1 _ _ _ _ _ hbody hfunction
  exact ⟨parse_composes.1 _ _ _ _ hcall (by simp) rfl, hparse⟩

end LuaSyntax
