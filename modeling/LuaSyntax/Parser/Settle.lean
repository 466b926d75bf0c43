import LuaSyntax.Parser.State
import LuaSyntax.SyntaxError

/-!
What the next token, or the end of input, decides before it is read: which operators are complete,
and whether an expression, a chain or a statement ends here.
-/
namespace LuaSyntax

abbrev Parsing := Except SyntaxError

/-- How many values an assignment may give to its targets. -/
inductive ArityRule
  | equal | any
deriving DecidableEq

def ArityRule.allows : ArityRule → Nat → Nat → Bool
  | equal, targets, values => targets = values
  | any, _, _ => true

def TokenKind.extendsChain : TokenKind → Bool
  | .symbol .dot | .symbol .openBracket | .symbol .openParen | .symbol .openBrace => true
  | _ => false

/-- Whether a `return` has no values when this token follows. -/
def endsBlock : Option TokenKind → Bool
  | none => true
  | some (.symbol .semicolon) => true
  | some kind => kind.closesBlock

def isComma (next : Option TokenKind) : Bool := next = some (.symbol .comma)

def isAssign (next : Option TokenKind) : Bool := next = some (.symbol .assign)

/-- Completes the operators that do not leave their operand to one of the given left priority. -/
def reduce (priority : Nat) (e : Expr) : ExprContext → Expr × ExprContext
  | .unary op k =>
    if UnaryOp.priority < priority then (e, .unary op k) else reduce priority (op.apply e) k
  | .binary left op k =>
    if op.rightPriority < priority then (e, .binary left op k)
    else reduce priority (.binary left op e) k
  | k => (e, k)

namespace ParserState

def assign (rule : ArityRule) (isLocal : Bool) (targets : List Expr) (line : Nat)
    (values : List Expr) (k : BlockContext) : Parsing ParserState :=
  if rule.allows targets.length values.length then
    .ok (.statement (k.push (.assign (.assignment isLocal targets values))))
  else .error (.arity line targets.length values.length)

/-- A complete expression ends the statement that it is the last part of. -/
def endExpression (rule : ArityRule) (next : Option TokenKind) (e : Expr) :
    ExprContext → Parsing ParserState
  | .untilCond body k => .ok (.statement (k.push (.repeat body e)))
  | .returned values k =>
    if isComma next then .ok (.operator e (.returned values k))
    else .ok (.returned (k.push (.return (values ++ [e]))))
  | .assigned isLocal targets line values k =>
    if isComma next then .ok (.operator e (.assigned isLocal targets line values k))
    else assign rule isLocal targets line (values ++ [e]) k
  | k => .ok (.operator e k)

/-- An operator that follows takes the operand from all looser ones; otherwise all are complete. -/
def settleOperator (rule : ArityRule) (next : Option TokenKind) (e : Expr) (k : ExprContext) :
    Parsing ParserState :=
  match next.bind BinaryOp.ofToken? with
  | some op =>
    let (e, k) := reduce op.leftPriority e k
    .ok (.operator e k)
  | none =>
    let (e, k) := reduce 0 e k
    endExpression rule next e k

def addTarget (c : Chain) (targets : List Expr) (line : Nat) (k : BlockContext) :
    Parsing ParserState :=
  match c.target? with
  | some e => .ok (.afterTarget (targets ++ [e]) k)
  | none => .error (.invalidTarget line)

/-- A call is a statement of its own unless it is followed as a target would be. -/
def endChain (rule : ArityRule) (next : Option TokenKind) (c : Chain) :
    ChainContext → Parsing ParserState
  | .operand k => settleOperator rule next c.expr k
  | .statement line k =>
    match c with
    | .call f as =>
      if isAssign next || isComma next then .error (.invalidTarget line)
      else .ok (.statement (k.push (.call f as)))
    | c => addTarget c [] line k
  | .target targets line k => addTarget c targets line k

/-- Names declared without values are set to nil. -/
def declare (names : List String) (k : BlockContext) : ParserState :=
  .statement (k.push (.assign (.assignment true (names.map .var) (names.map fun _ => .nil))))

def settle (rule : ArityRule) (next : Option TokenKind) : ParserState → Parsing ParserState
  | .suffix c k =>
    if next.any TokenKind.extendsChain then .ok (.suffix c k) else endChain rule next c k
  | .operator e k => settleOperator rule next e k
  | .returning k =>
    if endsBlock next then .ok (.returned (k.push (.return []))) else .ok (.operand (.returned [] k))
  | .afterLocal names k =>
    if isComma next || isAssign next then .ok (.afterLocal names k) else .ok (declare names k)
  | s => .ok s

end ParserState

end LuaSyntax
