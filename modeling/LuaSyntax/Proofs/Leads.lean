import LuaSyntax.Parse
import LuaSyntax.Proofs.Grammar
import LuaSyntax.Proofs.Spine

/-!
Which tokens lead to a state. Whatever a state remembers was derived from the tokens read before it:
each part of its context from a part of them, in their order. A line that it remembers is that of
the sign, or of the first token of the chain, that it is about.
-/
namespace LuaSyntax

namespace Juxtaposition

theorem longest_closed (ts : List Token) : longest false ts := by simp [longest]

theorem longest_cons {o : Bool} {t : Token} {ts : List Token} (h : t.kind ≠ .symbol .openParen) :
    longest o (t :: ts) := by
  intro _ u hu
  obtain rfl : t = u := by simpa using hu
  exact h

end Juxtaposition

/-- Blocks, and the statements in them, may have no tokens. -/
def Phrase.MayBeEmpty : Phrase → Prop
  | .statements _ _ | .block _ => True
  | _ => False

theorem Derives.ne_nil {beside : Juxtaposition} {p : Phrase} {ts : List Token}
    (h : Derives beside p ts) : p.MayBeEmpty ∨ ts ≠ [] := by
  induction h <;> simp_all [Phrase.MayBeEmpty]

/-- A statement starts as its first phrase does. -/
theorem Derives.longest_append {beside : Juxtaposition} {p : Phrase} {o : Bool} {ts : List Token}
    (h : Derives beside p ts) (hp : ¬p.MayBeEmpty) (hl : Juxtaposition.longest o ts)
    (us : List Token) : Juxtaposition.longest o (ts ++ us) := by
  have hne := h.ne_nil.resolve_left hp
  intro ho t ht
  exact hl ho t (by cases ts <;> simp_all)

/-- Elements that another one follows: none, or some with a comma after them. -/
inductive Listed {α : Type} (derives : List α → List Token → Prop) : List α → List Token → Prop
  | none : Listed derives [] []
  | some {xs : List α} {ts : List Token} {c : Token} :
      derives xs ts → c.kind = .symbol .comma → Listed derives xs (ts ++ [c])

abbrev ListedExprs : List Expr → List Token → Prop :=
  Listed fun es ts => ∃ o, Derives .longest (.exprs es o) ts

abbrev ListedFields : List Entry → List Token → Prop :=
  Listed fun es ts => Derives .longest (.fields es) ts

theorem Listed.exprs {es : List Expr} {e : Expr} {o : Bool} {ts us : List Token}
    (hes : ListedExprs es ts) (he : Derives .longest (.expr e o) us) :
    Derives .longest (.exprs (es ++ [e]) o) (ts ++ us) := by
  cases hes with
  | none => exact .exprList he
  | some hes hc =>
    obtain ⟨o', hes⟩ := hes
    simpa using Derives.exprs hes hc he

theorem Listed.fields {es : List Entry} {e : Entry} {ts us : List Token}
    (hes : ListedFields es ts) (he : Derives .longest (.field e) us) :
    Derives .longest (.fields (es ++ [e])) (ts ++ us) := by
  cases hes with
  | none => exact .fieldList he
  | some hes hc => simpa using Derives.fields hes hc he

/-- The line on which the chain starts, where the context records it. -/
def ChainContext.line? : ChainContext → Option Nat
  | .operand _ => none
  | .statement line _ | .target _ line _ => some line

/-- A chain in the context may start with these tokens. -/
structure StartsChain (k : ChainContext) (isOpen : Bool) (ts : List Token) : Prop where
  longest : Juxtaposition.longest isOpen ts
  line : ∀ t ∈ ts.head?, ∀ line ∈ k.line?, t.line = line

theorem StartsChain.append {k : ChainContext} {o : Bool} {c : Chain} {ts : List Token}
    (h : StartsChain k o ts) (hc : Derives .longest (.chain c) ts) (us : List Token) :
    StartsChain k o (ts ++ us) where
  longest := hc.longest_append id h.longest us
  line t ht := by
    have hne : ts ≠ [] := hc.ne_nil.resolve_left id
    exact h.line t (by cases ts <;> simp_all)

/-- A state of a parser, or a place in the construct around one. -/
inductive Place
  | state (s : ParserState)
  | owner (w : Owner)
  | block (k : BlockContext) (isOpen : Bool)
  | chain (k : ChainContext) (isOpen : Bool)
  | table (k : TableContext)

/-- The tokens lead to the place. A block is open if its last statement is, and a chain starts after
an open phrase only where a statement may. -/
inductive Leads : Place → List Token → Prop
  | program : Leads (.owner .program) []
  | doBlock {k : BlockContext} {o : Bool} {ts : List Token} {d : Token} :
      Leads (.block k o) ts → d.kind = .keyword .do → Leads (.owner (.block k)) (ts ++ [d])
  | whileBlock {k : BlockContext} {o o' : Bool} {ts us : List Token} {e : Expr} {w d : Token} :
      Leads (.block k o) ts → w.kind = .keyword .while → Derives .longest (.expr e o') us →
      d.kind = .keyword .do → Leads (.owner (.while e k)) (ts ++ w :: (us ++ [d]))
  | repeatBlock {k : BlockContext} {o : Bool} {ts : List Token} {r : Token} :
      Leads (.block k o) ts → r.kind = .keyword .repeat → Leads (.owner (.repeat k)) (ts ++ [r])
  | thenBlock {k : BlockContext} {o o' : Bool} {ts us vs : List Token} {arms : List Arm}
      {e : Expr} {t : Token} :
      Leads (.block k o) ts → Derives .longest (.condition arms) us → Juxtaposition.longest o us →
      Derives .longest (.expr e o') vs → t.kind = .keyword .then →
      Leads (.owner (.thenPart arms e k)) (ts ++ (us ++ (vs ++ [t])))
  | elseBlock {k : BlockContext} {o : Bool} {ts us : List Token} {arms : List Arm} {l : Token} :
      Leads (.block k o) ts → Derives .longest (.arms arms) us → Juxtaposition.longest o us →
      l.kind = .keyword .else → Leads (.owner (.elsePart arms k)) (ts ++ (us ++ [l]))
  | numericForBlock {k : BlockContext} {o o' o'' : Bool} {ts us vs : List Token}
      {start limit : Expr} {f n a c d : Token} :
      Leads (.block k o) ts → f.kind = .keyword .for → n.kind = .name → a.kind = .symbol .assign →
      Derives .longest (.expr start o') us → c.kind = .symbol .comma →
      Derives .longest (.expr limit o'') vs → d.kind = .keyword .do →
      Leads (.owner (.numericFor n.text start limit (.number .one) k)) (ts ++ f :: n :: a ::
        (us ++ c :: (vs ++ [d])))
  | numericForStepBlock {k : BlockContext} {o o₁ o₂ o₃ : Bool} {ts us vs ws : List Token}
      {start limit step : Expr} {f n a c c' d : Token} :
      Leads (.block k o) ts → f.kind = .keyword .for → n.kind = .name → a.kind = .symbol .assign →
      Derives .longest (.expr start o₁) us → c.kind = .symbol .comma →
      Derives .longest (.expr limit o₂) vs → c'.kind = .symbol .comma →
      Derives .longest (.expr step o₃) ws → d.kind = .keyword .do →
      Leads (.owner (.numericFor n.text start limit step k)) (ts ++ f :: n :: a ::
        (us ++ c :: (vs ++ c' :: (ws ++ [d]))))
  | genericForBlock {k : BlockContext} {o o' : Bool} {ts us vs : List Token} {ns : List String}
      {es : List Expr} {f i d : Token} :
      Leads (.block k o) ts → f.kind = .keyword .for → Derives .longest (.names ns) us →
      i.kind = .keyword .in → Derives .longest (.exprs es o') vs → d.kind = .keyword .do →
      Leads (.owner (.genericFor ns es k)) (ts ++ f :: (us ++ i :: (vs ++ [d])))
  | functionBlock {h : FunctionHead} {ts us : List Token} {ps : List String} :
      Leads (.state (.parameterList h)) ts → Derives .longest (.parameters ps) us →
      Leads (.owner (.function h ps)) (ts ++ us)
  | block {w : Owner} {ts us : List Token} {ss : List Stmt} {o : Bool} :
      Leads (.owner w) ts → Derives .longest (.statements ss o) us →
      Leads (.block (.block ss w) o) (ts ++ us)
  | statement {k : BlockContext} {ts : List Token} :
      Leads (.block k false) ts → Leads (.state (.statement k)) ts
  | returning {k : BlockContext} {o : Bool} {ts : List Token} {r : Token} :
      Leads (.block k o) ts → r.kind = .keyword .return → Leads (.state (.returning k)) (ts ++ [r])
  | returned {w : Owner} {ts us vs : List Token} {ss : List Stmt} {o : Bool} {es : List Expr} :
      Leads (.owner w) ts → Derives .longest (.statements ss o) us →
      Derives .longest (.returned es) vs →
      Leads (.state (.returned (.block (ss ++ [.return es]) w))) (ts ++ (us ++ vs))
  | closed {w : Owner} {ts us : List Token} {b : List Stmt} :
      Leads (.owner w) ts → Derives .longest (.block b) us →
      Leads (.state (.closed (.block b w))) (ts ++ us)
  | unary {k : ExprContext} {ts : List Token} {op : UnaryOp} {t : Token} :
      Leads (.state (.operand k)) ts → UnaryOp.ofToken? t.kind = some op →
      Leads (.state (.operand (.unary op k))) (ts ++ [t])
  | binary {k k' : ExprContext} {ts us : List Token} {f : Formula} {o : Bool} {op : BinaryOp}
      {e : Expr} {t : Token} :
      k.isOperator = false → Leads (.state (.operand k)) ts → Derives .longest (.formula f o) us →
      BinaryOp.ofToken? t.kind = some op →
      reduce op.leftPriority (f.tree.spine k).1 (f.tree.spine k).2 = (e, k') →
      Leads (.state (.operand (.binary e op k'))) (ts ++ (us ++ [t]))
  | parens {k : ChainContext} {o : Bool} {ts : List Token} {l : Token} :
      Leads (.chain k o) ts → l.kind = .symbol .openParen → StartsChain k o [l] →
      Leads (.state (.operand (.parens k))) (ts ++ [l])
  | subscript {c : Chain} {k : ChainContext} {ts : List Token} {l : Token} :
      Leads (.state (.suffix c k)) ts → l.kind = .symbol .openBracket →
      Leads (.state (.operand (.subscript c.expr k))) (ts ++ [l])
  | argument {c : Chain} {k : ChainContext} {ts us : List Token} {es : List Expr} {l : Token} :
      Leads (.state (.suffix c k)) ts → l.kind = .symbol .openParen → ListedExprs es us →
      Leads (.state (.operand (.argument c.expr es k))) (ts ++ l :: us)
  | entryKey {es : List Entry} {k : TableContext} {ts : List Token} {l : Token} :
      Leads (.state (.entry es k)) ts → l.kind = .symbol .openBracket →
      Leads (.state (.operand (.entryKey es k))) (ts ++ [l])
  | entryValue {es : List Entry} {key : Expr} {k : TableContext} {ts : List Token} {a : Token} :
      Leads (.state (.entryAssign es key k)) ts → a.kind = .symbol .assign →
      Leads (.state (.operand (.entryValue es key k))) (ts ++ [a])
  | whileCond {k : BlockContext} {o : Bool} {ts : List Token} {w : Token} :
      Leads (.block k o) ts → w.kind = .keyword .while →
      Leads (.state (.operand (.whileCond k))) (ts ++ [w])
  | untilCond {k : BlockContext} {o : Bool} {ts us : List Token} {b : List Stmt} {r u : Token} :
      Leads (.block k o) ts → r.kind = .keyword .repeat → Derives .longest (.block b) us →
      u.kind = .keyword .until → Leads (.state (.operand (.untilCond b k))) (ts ++ r :: (us ++ [u]))
  | ifCond {k : BlockContext} {o : Bool} {ts us : List Token} {arms : List Arm} :
      Leads (.block k o) ts → Derives .longest (.condition arms) us → Juxtaposition.longest o us →
      Leads (.state (.operand (.ifCond arms k))) (ts ++ us)
  | forStart {k : BlockContext} {o : Bool} {ts : List Token} {f n a : Token} :
      Leads (.block k o) ts → f.kind = .keyword .for → n.kind = .name → a.kind = .symbol .assign →
      Leads (.state (.operand (.forStart n.text k))) (ts ++ [f, n, a])
  | forLimit {k : BlockContext} {o o' : Bool} {ts us : List Token} {start : Expr}
      {f n a c : Token} :
      Leads (.block k o) ts → f.kind = .keyword .for → n.kind = .name → a.kind = .symbol .assign →
      Derives .longest (.expr start o') us → c.kind = .symbol .comma →
      Leads (.state (.operand (.forLimit n.text start k))) (ts ++ f :: n :: a :: (us ++ [c]))
  | forStep {k : BlockContext} {o o' o'' : Bool} {ts us vs : List Token} {start limit : Expr}
      {f n a c c' : Token} :
      Leads (.block k o) ts → f.kind = .keyword .for → n.kind = .name → a.kind = .symbol .assign →
      Derives .longest (.expr start o') us → c.kind = .symbol .comma →
      Derives .longest (.expr limit o'') vs → c'.kind = .symbol .comma →
      Leads (.state (.operand (.forStep n.text start limit k))) (ts ++ f :: n :: a ::
        (us ++ c :: (vs ++ [c'])))
  | forValue {k : BlockContext} {o : Bool} {ts us vs : List Token} {ns : List String}
      {es : List Expr} {f i : Token} :
      Leads (.block k o) ts → f.kind = .keyword .for → Derives .longest (.names ns) us →
      i.kind = .keyword .in → ListedExprs es vs →
      Leads (.state (.operand (.forValue ns es k))) (ts ++ f :: (us ++ i :: vs))
  | returnValue {k : BlockContext} {o : Bool} {ts us : List Token} {es : List Expr} {r : Token} :
      Leads (.block k o) ts → r.kind = .keyword .return → ListedExprs es us →
      Leads (.state (.operand (.returned es k))) (ts ++ r :: us)
  | assigned {xs es : List Expr} {k : BlockContext} {ts us : List Token} {a : Token} :
      Leads (.state (.afterTarget xs k)) ts → a.kind = .symbol .assign → ListedExprs es us →
      Leads (.state (.operand (.assigned false xs a.line es k))) (ts ++ a :: us)
  | localAssigned {ns : List String} {k : BlockContext} {ts us : List Token} {es : List Expr}
      {a : Token} :
      Leads (.state (.afterLocal ns k)) ts → a.kind = .symbol .assign → ListedExprs es us →
      Leads (.state (.operand (.assigned true (ns.map .var) a.line es k))) (ts ++ a :: us)
  | operator {k : ExprContext} {ts us : List Token} {e : Expr} :
      Leads (.state (.operand k)) ts → Derives .longest (.primary e false) us →
      Leads (.state (.operator e k)) (ts ++ us)
  | operandChain {k : ExprContext} {ts : List Token} :
      Leads (.state (.operand k)) ts → Leads (.chain (.operand k) false) ts
  | statementChain {k : BlockContext} {o : Bool} {ts : List Token} {line : Nat} :
      Leads (.block k o) ts → Leads (.chain (.statement line k) o) ts
  | targetChain {xs : List Expr} {k : BlockContext} {ts : List Token} {line : Nat} :
      Leads (.state (.nextTarget xs k)) ts → Leads (.chain (.target xs line k) false) ts
  | suffix {k : ChainContext} {o : Bool} {ts us : List Token} {c : Chain} :
      Leads (.chain k o) ts → Derives .longest (.chain c) us → StartsChain k o us →
      Leads (.state (.suffix c k)) (ts ++ us)
  | member {c : Chain} {k : ChainContext} {ts : List Token} {d : Token} :
      Leads (.state (.suffix c k)) ts → d.kind = .symbol .dot →
      Leads (.state (.member c k)) (ts ++ [d])
  | firstArgument {c : Chain} {k : ChainContext} {ts : List Token} {l : Token} :
      Leads (.state (.suffix c k)) ts → l.kind = .symbol .openParen →
      Leads (.state (.firstArgument c.expr k)) (ts ++ [l])
  | afterTarget {k : BlockContext} {o : Bool} {ts us : List Token} {xs : List Expr} :
      Leads (.block k o) ts → Derives .longest (.targets xs) us → Juxtaposition.longest o us →
      Leads (.state (.afterTarget xs k)) (ts ++ us)
  | nextTarget {xs : List Expr} {k : BlockContext} {ts : List Token} {c : Token} :
      Leads (.state (.afterTarget xs k)) ts → c.kind = .symbol .comma →
      Leads (.state (.nextTarget xs k)) (ts ++ [c])
  | operandTable {k : ExprContext} {ts : List Token} :
      Leads (.state (.operand k)) ts → Leads (.table (.operand k)) ts
  | argumentTable {c : Chain} {k : ChainContext} {ts : List Token} :
      Leads (.state (.suffix c k)) ts → Leads (.table (.argument c.expr k)) ts
  | entry {k : TableContext} {ts us : List Token} {es : List Entry} {l : Token} :
      Leads (.table k) ts → l.kind = .symbol .openBrace → ListedFields es us →
      Leads (.state (.entry es k)) (ts ++ l :: us)
  | entryName {es : List Entry} {k : TableContext} {ts : List Token} {n : Token} :
      Leads (.state (.entry es k)) ts → n.kind = .name →
      Leads (.state (.entryAssign es (.name n.text) k)) (ts ++ [n])
  | entryExpr {es : List Entry} {k : TableContext} {ts us : List Token} {e : Expr} {o : Bool}
      {l r : Token} :
      Leads (.state (.entry es k)) ts → l.kind = .symbol .openBracket →
      Derives .longest (.expr e o) us → r.kind = .symbol .closeBracket →
      Leads (.state (.entryAssign es e k)) (ts ++ l :: (us ++ [r]))
  | firstLocal {k : BlockContext} {o : Bool} {ts : List Token} {l : Token} :
      Leads (.block k o) ts → l.kind = .keyword .local → Leads (.state (.firstLocal k)) (ts ++ [l])
  | afterLocal {k : BlockContext} {ts us : List Token} {ns : List String} :
      Leads (.state (.firstLocal k)) ts → Derives .longest (.names ns) us →
      Leads (.state (.afterLocal ns k)) (ts ++ us)
  | nextLocal {ns : List String} {k : BlockContext} {ts : List Token} {c : Token} :
      Leads (.state (.afterLocal ns k)) ts → c.kind = .symbol .comma →
      Leads (.state (.nextLocal ns k)) (ts ++ [c])
  | forVariable {k : BlockContext} {o : Bool} {ts : List Token} {f : Token} :
      Leads (.block k o) ts → f.kind = .keyword .for → Leads (.state (.forVariable k)) (ts ++ [f])
  | afterForVariable {k : BlockContext} {ts : List Token} {n : Token} :
      Leads (.state (.forVariable k)) ts → n.kind = .name →
      Leads (.state (.afterForVariable n.text k)) (ts ++ [n])
  | afterForName {k : BlockContext} {ts us : List Token} {ns : List String} :
      Leads (.state (.forVariable k)) ts → Derives .longest (.names ns) us →
      Leads (.state (.afterForName ns k)) (ts ++ us)
  | nextForName {ns : List String} {k : BlockContext} {ts : List Token} {c : Token} :
      Leads (.state (.afterForName ns k)) ts → c.kind = .symbol .comma →
      Leads (.state (.nextForName ns k)) (ts ++ [c])
  | functionName {k : BlockContext} {o isLocal : Bool} {ts us : List Token} :
      Leads (.block k o) ts → Derives .longest (.functionKeyword isLocal) us →
      Juxtaposition.longest o us → Leads (.state (.functionName isLocal k)) (ts ++ us)
  | functionPath {isLocal : Bool} {k : BlockContext} {ts us : List Token} {p : String} :
      Leads (.state (.functionName isLocal k)) ts → Derives .longest (.path p) us →
      Leads (.state (.functionPath isLocal p k)) (ts ++ us)
  | functionMember {isLocal : Bool} {p : String} {k : BlockContext} {ts : List Token} {d : Token} :
      Leads (.state (.functionPath isLocal p k)) ts → d.kind = .symbol .dot →
      Leads (.state (.functionMember isLocal p k)) (ts ++ [d])
  | functionMethod {isLocal : Bool} {p : String} {k : BlockContext} {ts : List Token} {c : Token} :
      Leads (.state (.functionPath isLocal p k)) ts → c.kind = .symbol .colon →
      Leads (.state (.functionMethod isLocal p k)) (ts ++ [c])
  | definition {k : BlockContext} {o isLocal : Bool} {ts us : List Token} {p : String} :
      Leads (.block k o) ts → Derives .longest (.signature isLocal p) us →
      Juxtaposition.longest o us →
      Leads (.state (.parameterList (.definition isLocal p k))) (ts ++ us)
  | anonymous {k : ExprContext} {ts : List Token} {f : Token} :
      Leads (.state (.operand k)) ts → f.kind = .keyword .function →
      Leads (.state (.parameterList (.anonymous k))) (ts ++ [f])
  | firstParameter {h : FunctionHead} {ts : List Token} {l : Token} :
      Leads (.state (.parameterList h)) ts → l.kind = .symbol .openParen →
      Leads (.state (.firstParameter h)) (ts ++ [l])
  | afterParameter {h : FunctionHead} {ts us : List Token} {ps : List String} :
      Leads (.state (.firstParameter h)) ts → Derives .longest (.names ps) us →
      Leads (.state (.afterParameter h ps)) (ts ++ us)
  | nextParameter {h : FunctionHead} {ps : List String} {ts : List Token} {c : Token} :
      Leads (.state (.afterParameter h ps)) ts → c.kind = .symbol .comma →
      Leads (.state (.nextParameter h ps)) (ts ++ [c])

theorem Leads.of_eq {p : Place} {ts us : List Token} (h : Leads p ts) (heq : ts = us) :
    Leads p us := heq ▸ h

end LuaSyntax
