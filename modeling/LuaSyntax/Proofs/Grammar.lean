import LuaSyntax.Parser.Shift
import LuaSyntax.Proofs.OperatorTree

/-!
The grammar. A derivation relates a phrase to the tokens that spell it; a phrase carries the tree
that it stands for, so that a derivation also says what the tokens mean. An open phrase ends in a chain,
which a parenthesis directly after it would make longer.
-/
namespace LuaSyntax

/-- When a statement may stand directly after another phrase that is open or not. -/
abbrev Juxtaposition := Bool → List Token → Prop

namespace Juxtaposition

/-- Any statement may follow any other. -/
def free : Juxtaposition := fun _ _ => True

/-- A statement that starts with a parenthesis does not follow an open one: the parenthesis belongs
to the chain before it. -/
def longest : Juxtaposition := fun isOpen ts =>
  isOpen = true → ∀ t ∈ ts.head?, t.kind ≠ .symbol .openParen

end Juxtaposition

def UnaryOp.ofToken? : TokenKind → Option UnaryOp
  | .symbol .minus => some .minus
  | .keyword .not => some .not
  | _ => none

/-- The expression that is a single token. -/
def Token.literal? (t : Token) : Option Expr :=
  match t.kind with
  | .keyword .nil => some .nil
  | .keyword .true => some (.boolean true)
  | .keyword .false => some (.boolean false)
  | .number n => some (.number n.toBinary64)
  | .string => some (.string (StringLiteral.value t.text))
  | _ => none

inductive Phrase
  | names (ns : List String)
  | primary (e : Expr) (isOpen : Bool)
  | operand (a : Operand) (isOpen : Bool)
  | formula (f : Formula) (isOpen : Bool)
  | expr (e : Expr) (isOpen : Bool)
  | exprs (es : List Expr) (isOpen : Bool)
  | chain (c : Chain)
  | arguments (es : List Expr)
  | field (entry : Entry)
  | fields (entries : List Entry)
  | table (entries : List Entry)
  | parameters (ns : List String)
  | function (params : List String) (body : List Stmt)
  | functionKeyword (isLocal : Bool)
  | path (path : String)
  | signature (isLocal : Bool) (path : String)
  | targets (es : List Expr)
  | condition (arms : List Arm)
  | arms (arms : List Arm)
  | statement (added : List Stmt) (isOpen : Bool)
  | statements (ss : List Stmt) (isOpen : Bool)
  | returned (es : List Expr)
  | block (ss : List Stmt)

/-- The productions. The value of a formula is that of its one grouped tree; a statement is given as
what it adds to its block. -/
inductive Derives (beside : Juxtaposition) : Phrase → List Token → Prop
  | name {n : Token} : n.kind = .name → Derives beside (.names [n.text]) [n]
  | names {ns : List String} {ts : List Token} {c n : Token} :
      Derives beside (.names ns) ts → c.kind = .symbol .comma → n.kind = .name →
      Derives beside (.names (ns ++ [n.text])) (ts ++ [c, n])
  | literal {e : Expr} {t : Token} : t.literal? = some e → Derives beside (.primary e false) [t]
  | anonymous {ps : List String} {b : List Stmt} {ts : List Token} {f : Token} :
      f.kind = .keyword .function → Derives beside (.function ps b) ts →
      Derives beside (.primary (.function ps b) false) (f :: ts)
  | tableValue {es : List Entry} {ts : List Token} :
      Derives beside (.table es) ts → Derives beside (.primary (.table es) false) ts
  | chainValue {c : Chain} {ts : List Token} :
      Derives beside (.chain c) ts → Derives beside (.primary c.expr true) ts
  | unsigned {e : Expr} {o : Bool} {ts : List Token} :
      Derives beside (.primary e o) ts → Derives beside (.operand ⟨[], e⟩ o) ts
  | signed {op : UnaryOp} {a : Operand} {o : Bool} {ts : List Token} {t : Token} :
      UnaryOp.ofToken? t.kind = some op → Derives beside (.operand a o) ts →
      Derives beside (.operand (a.sign op) o) (t :: ts)
  | formula {a : Operand} {o : Bool} {ts : List Token} :
      Derives beside (.operand a o) ts → Derives beside (.formula (.single a) o) ts
  | operator {f : Formula} {o o' : Bool} {ts us : List Token} {op : BinaryOp} {a : Operand}
      {t : Token} :
      Derives beside (.formula f o) ts → BinaryOp.ofToken? t.kind = some op →
      Derives beside (.operand a o') us →
      Derives beside (.formula (f.append op a) o') (ts ++ t :: us)
  | expr {f : Formula} {o : Bool} {ts : List Token} :
      Derives beside (.formula f o) ts → Derives beside (.expr f.tree.expr o) ts
  | exprList {e : Expr} {o : Bool} {ts : List Token} :
      Derives beside (.expr e o) ts → Derives beside (.exprs [e] o) ts
  | exprs {es : List Expr} {o o' : Bool} {ts us : List Token} {e : Expr} {c : Token} :
      Derives beside (.exprs es o) ts → c.kind = .symbol .comma → Derives beside (.expr e o') us →
      Derives beside (.exprs (es ++ [e]) o') (ts ++ c :: us)
  | variable {n : Token} : n.kind = .name → Derives beside (.chain (.place (.name n.text))) [n]
  | parens {e : Expr} {o : Bool} {ts : List Token} {l r : Token} :
      l.kind = .symbol .openParen → Derives beside (.expr e o) ts → r.kind = .symbol .closeParen →
      Derives beside (.chain (.parens e)) (l :: (ts ++ [r]))
  | member {c : Chain} {ts : List Token} {d n : Token} :
      Derives beside (.chain c) ts → d.kind = .symbol .dot → n.kind = .name →
      Derives beside (.chain (c.member n.text)) (ts ++ [d, n])
  | subscript {c : Chain} {ts us : List Token} {e : Expr} {o : Bool} {l r : Token} :
      Derives beside (.chain c) ts → l.kind = .symbol .openBracket → Derives beside (.expr e o) us →
      r.kind = .symbol .closeBracket →
      Derives beside (.chain (.place (.index c.expr e))) (ts ++ l :: (us ++ [r]))
  | call {c : Chain} {ts us : List Token} {es : List Expr} :
      Derives beside (.chain c) ts → Derives beside (.arguments es) us →
      Derives beside (.chain (.call c.expr es)) (ts ++ us)
  | noArguments {l r : Token} :
      l.kind = .symbol .openParen → r.kind = .symbol .closeParen →
      Derives beside (.arguments []) [l, r]
  | arguments {es : List Expr} {o : Bool} {ts : List Token} {l r : Token} :
      l.kind = .symbol .openParen → Derives beside (.exprs es o) ts → r.kind = .symbol .closeParen →
      Derives beside (.arguments es) (l :: (ts ++ [r]))
  | tableArgument {es : List Entry} {ts : List Token} :
      Derives beside (.table es) ts → Derives beside (.arguments [.table es]) ts
  | namedField {e : Expr} {o : Bool} {ts : List Token} {n a : Token} :
      n.kind = .name → a.kind = .symbol .assign → Derives beside (.expr e o) ts →
      Derives beside (.field (.entry (.name n.text) e)) (n :: a :: ts)
  | keyedField {k e : Expr} {o o' : Bool} {ts us : List Token} {l r a : Token} :
      l.kind = .symbol .openBracket → Derives beside (.expr k o) ts →
      r.kind = .symbol .closeBracket → a.kind = .symbol .assign → Derives beside (.expr e o') us →
      Derives beside (.field (.entry k e)) (l :: (ts ++ r :: a :: us))
  | fieldList {e : Entry} {ts : List Token} :
      Derives beside (.field e) ts → Derives beside (.fields [e]) ts
  | fields {es : List Entry} {ts us : List Token} {e : Entry} {c : Token} :
      Derives beside (.fields es) ts → c.kind = .symbol .comma → Derives beside (.field e) us →
      Derives beside (.fields (es ++ [e])) (ts ++ c :: us)
  | emptyTable {l r : Token} :
      l.kind = .symbol .openBrace → r.kind = .symbol .closeBrace → Derives beside (.table []) [l, r]
  | table {es : List Entry} {ts : List Token} {l r : Token} :
      l.kind = .symbol .openBrace → Derives beside (.fields es) ts → r.kind = .symbol .closeBrace →
      Derives beside (.table es) (l :: (ts ++ [r]))
  | tableComma {es : List Entry} {ts : List Token} {l c r : Token} :
      l.kind = .symbol .openBrace → Derives beside (.fields es) ts → c.kind = .symbol .comma →
      r.kind = .symbol .closeBrace → Derives beside (.table es) (l :: (ts ++ [c, r]))
  | noParameters {l r : Token} :
      l.kind = .symbol .openParen → r.kind = .symbol .closeParen →
      Derives beside (.parameters []) [l, r]
  | parameters {ns : List String} {ts : List Token} {l r : Token} :
      l.kind = .symbol .openParen → Derives beside (.names ns) ts → r.kind = .symbol .closeParen →
      Derives beside (.parameters ns) (l :: (ts ++ [r]))
  | function {ps : List String} {ts us : List Token} {b : List Stmt} {e : Token} :
      Derives beside (.parameters ps) ts → Derives beside (.block b) us → e.kind = .keyword .end →
      Derives beside (.function ps b) (ts ++ (us ++ [e]))
  | globalFunction {f : Token} :
      f.kind = .keyword .function → Derives beside (.functionKeyword false) [f]
  | localFunction {l f : Token} :
      l.kind = .keyword .local → f.kind = .keyword .function →
      Derives beside (.functionKeyword true) [l, f]
  | pathName {n : Token} : n.kind = .name → Derives beside (.path n.text) [n]
  | path {p : String} {ts : List Token} {d n : Token} :
      Derives beside (.path p) ts → d.kind = .symbol .dot → n.kind = .name →
      Derives beside (.path (extendPath p n.text)) (ts ++ [d, n])
  | signature {isLocal : Bool} {ts us : List Token} {p : String} :
      Derives beside (.functionKeyword isLocal) ts → Derives beside (.path p) us →
      Derives beside (.signature isLocal p) (ts ++ us)
  | method {isLocal : Bool} {ts us : List Token} {p : String} {c n : Token} :
      Derives beside (.functionKeyword isLocal) ts → Derives beside (.path p) us →
      c.kind = .symbol .colon → n.kind = .name →
      Derives beside (.signature isLocal (extendPath p n.text)) (ts ++ (us ++ [c, n]))
  | target {c : Chain} {ts : List Token} {e : Expr} :
      Derives beside (.chain c) ts → c.target? = some e → Derives beside (.targets [e]) ts
  | targets {es : List Expr} {ts us : List Token} {d : Chain} {e : Expr} {c : Token} :
      Derives beside (.targets es) ts → c.kind = .symbol .comma → Derives beside (.chain d) us →
      d.target? = some e → Derives beside (.targets (es ++ [e])) (ts ++ c :: us)
  | ifCondition {i : Token} : i.kind = .keyword .if → Derives beside (.condition []) [i]
  | elseifCondition {arms : List Arm} {ts : List Token} {i : Token} :
      Derives beside (.arms arms) ts → i.kind = .keyword .elseif →
      Derives beside (.condition arms) (ts ++ [i])
  | arm {arms : List Arm} {ts us vs : List Token} {e : Expr} {o : Bool} {b : List Stmt}
      {t : Token} :
      Derives beside (.condition arms) ts → Derives beside (.expr e o) us →
      t.kind = .keyword .then → Derives beside (.block b) vs →
      Derives beside (.arms (arms ++ [⟨e, b⟩])) (ts ++ (us ++ t :: vs))
  | break {b : Token} : b.kind = .keyword .break → Derives beside (.statement [.break] false) [b]
  | do {b : List Stmt} {ts : List Token} {d e : Token} :
      d.kind = .keyword .do → Derives beside (.block b) ts → e.kind = .keyword .end →
      Derives beside (.statement [.block b] false) (d :: (ts ++ [e]))
  | while {c : Expr} {o : Bool} {ts us : List Token} {b : List Stmt} {w d e : Token} :
      w.kind = .keyword .while → Derives beside (.expr c o) ts → d.kind = .keyword .do →
      Derives beside (.block b) us → e.kind = .keyword .end →
      Derives beside (.statement [.while c b] false) (w :: (ts ++ d :: (us ++ [e])))
  | repeat {b : List Stmt} {ts us : List Token} {c : Expr} {o : Bool} {r u : Token} :
      r.kind = .keyword .repeat → Derives beside (.block b) ts → u.kind = .keyword .until →
      Derives beside (.expr c o) us →
      Derives beside (.statement [.repeat b c] o) (r :: (ts ++ u :: us))
  | conditional {arms : List Arm} {ts : List Token} {e : Token} :
      Derives beside (.arms arms) ts → e.kind = .keyword .end →
      Derives beside (.statement (conditional arms []) false) (ts ++ [e])
  | conditionalElse {arms : List Arm} {ts us : List Token} {b : List Stmt} {l e : Token} :
      Derives beside (.arms arms) ts → l.kind = .keyword .else → Derives beside (.block b) us →
      e.kind = .keyword .end →
      Derives beside (.statement (conditional arms b) false) (ts ++ l :: (us ++ [e]))
  | numericFor {start limit : Expr} {o o' : Bool} {ts us vs : List Token} {b : List Stmt}
      {f n a c d e : Token} :
      f.kind = .keyword .for → n.kind = .name → a.kind = .symbol .assign →
      Derives beside (.expr start o) ts → c.kind = .symbol .comma →
      Derives beside (.expr limit o') us → d.kind = .keyword .do → Derives beside (.block b) vs →
      e.kind = .keyword .end →
      Derives beside (.statement [ParserState.numericFor n.text start limit (.number .one) b]
        false) (f :: n :: a :: (ts ++ c :: (us ++ d :: (vs ++ [e]))))
  | numericForStep {start limit step : Expr} {o o' o'' : Bool} {ts us vs ws : List Token}
      {b : List Stmt} {f n a c c' d e : Token} :
      f.kind = .keyword .for → n.kind = .name → a.kind = .symbol .assign →
      Derives beside (.expr start o) ts → c.kind = .symbol .comma →
      Derives beside (.expr limit o') us → c'.kind = .symbol .comma →
      Derives beside (.expr step o'') vs → d.kind = .keyword .do → Derives beside (.block b) ws →
      e.kind = .keyword .end →
      Derives beside (.statement [ParserState.numericFor n.text start limit step b] false) (f :: n
        :: a :: (ts ++ c :: (us ++ c' :: (vs ++ d :: (ws ++ [e])))))
  | genericFor {ns : List String} {ts us vs : List Token} {es : List Expr} {o : Bool}
      {b : List Stmt} {f i d e : Token} :
      f.kind = .keyword .for → Derives beside (.names ns) ts → i.kind = .keyword .in →
      Derives beside (.exprs es o) us → d.kind = .keyword .do → Derives beside (.block b) vs →
      e.kind = .keyword .end →
      Derives beside (.statement [.genericFor ns es b] false) (f ::
        (ts ++ i :: (us ++ d :: (vs ++ [e]))))
  | definition {isLocal : Bool} {p : String} {ts us : List Token} {ps : List String}
      {b : List Stmt} :
      Derives beside (.signature isLocal p) ts → Derives beside (.function ps b) us →
      Derives beside (.statement [.definition isLocal p ps b] false) (ts ++ us)
  | declaration {ns : List String} {ts : List Token} {l : Token} :
      l.kind = .keyword .local → Derives beside (.names ns) ts →
      Derives beside (.statement [.assign (.assignment true (ns.map .var) (ns.map fun _ => .nil))]
        false) (l :: ts)
  | localAssignment {ns : List String} {ts us : List Token} {es : List Expr} {o : Bool}
      {l a : Token} :
      l.kind = .keyword .local → Derives beside (.names ns) ts → a.kind = .symbol .assign →
      Derives beside (.exprs es o) us → ns.length = es.length →
      Derives beside (.statement [.assign (.assignment true (ns.map .var) es)] o) (l ::
        (ts ++ a :: us))
  | assignment {xs es : List Expr} {ts us : List Token} {o : Bool} {a : Token} :
      Derives beside (.targets xs) ts → a.kind = .symbol .assign → Derives beside (.exprs es o) us →
      xs.length = es.length →
      Derives beside (.statement [.assign (.assignment false xs es)] o) (ts ++ a :: us)
  | callStatement {f : Expr} {es : List Expr} {ts : List Token} :
      Derives beside (.chain (.call f es)) ts → Derives beside (.statement [.call f es] true) ts
  | noStatements : Derives beside (.statements [] false) []
  | semicolon {ss : List Stmt} {o : Bool} {ts : List Token} {s : Token} :
      Derives beside (.statements ss o) ts → s.kind = .symbol .semicolon →
      Derives beside (.statements ss false) (ts ++ [s])
  | statements {ss added : List Stmt} {o o' : Bool} {ts us : List Token} :
      Derives beside (.statements ss o) ts → Derives beside (.statement added o') us → beside o us →
      Derives beside (.statements (ss ++ added) o') (ts ++ us)
  | returnNothing {r : Token} : r.kind = .keyword .return → Derives beside (.returned []) [r]
  | returnValues {es : List Expr} {o : Bool} {ts : List Token} {r : Token} :
      r.kind = .keyword .return → Derives beside (.exprs es o) ts →
      Derives beside (.returned es) (r :: ts)
  | block {ss : List Stmt} {o : Bool} {ts : List Token} :
      Derives beside (.statements ss o) ts → Derives beside (.block ss) ts
  | returningBlock {ss : List Stmt} {o : Bool} {ts us : List Token} {es : List Expr} :
      Derives beside (.statements ss o) ts → Derives beside (.returned es) us →
      Derives beside (.block (ss ++ [.return es])) (ts ++ us)
  | returningBlockSemicolon {ss : List Stmt} {o : Bool} {ts us : List Token} {es : List Expr}
      {s : Token} :
      Derives beside (.statements ss o) ts → Derives beside (.returned es) us →
      s.kind = .symbol .semicolon → Derives beside (.block (ss ++ [.return es])) (ts ++ (us ++ [s]))

namespace Token

/-- Tokens by their spelling alone, all on one line. -/
def ofKeyword (w : Keyword) : Token := ⟨.keyword w, w.spelling, 1⟩

def ofSymbol (y : Symbol) : Token := ⟨.symbol y, String.ofList y.chars, 1⟩

def ofName (x : String) : Token := ⟨.name, x, 1⟩

end Token

theorem Derives.ofName (beside : Juxtaposition) (x : String) :
    Derives beside (.chain (.place (.name x))) [.ofName x] := .variable (n := .ofName x) rfl

theorem Derives.nameOperand (beside : Juxtaposition) (x : String) :
    Derives beside (.operand ⟨[], .name x⟩ true) [.ofName x] :=
  .unsigned (.chainValue (.ofName beside x))

theorem Derives.nameExpr (beside : Juxtaposition) (x : String) :
    Derives beside (.expr (.name x) true) [.ofName x] := .expr (.formula (.nameOperand beside x))

end LuaSyntax
