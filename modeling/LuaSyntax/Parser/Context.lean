import LuaSyntax.Parser.Operators

/-!
What surrounds the place that a parser has reached: everything read so far that is not yet part of a
finished tree. Each kind of context says what has to come for the construct around it to end.
-/
namespace LuaSyntax

/-- A name or a parenthesized expression with the suffixes after it. Only a place can be assigned
to. -/
inductive Chain
  | place (e : Expr)
  | call (callee : Expr) (args : List Expr)
  | parens (e : Expr)

namespace Chain

def expr : Chain → Expr
  | place e => e
  | call f as => .call f as
  | parens e => e

def target? : Chain → Option Expr
  | place (.name path) => some (.var path)
  | place e => some e
  | _ => none

/-- A name grows by one segment, in parentheses too; any other expression is indexed by a string. -/
def member (c : Chain) (name : String) : Chain :=
  match c.expr with
  | .name path => .place (.name (extendPath path name))
  | e => .place (.index e (.string name))

end Chain

/-- A condition with the block that it guards. -/
structure Arm where
  cond : Expr
  body : List Stmt

/-- A conditional with several arms, each but the first alone in the alternative of the one before. -/
def conditional (arms : List Arm) (alternative : List Stmt) : List Stmt :=
  arms.foldr (fun arm rest => [.if arm.cond arm.body rest]) alternative

mutual

/-- The context of an expression. -/
inductive ExprContext
  | unary (op : UnaryOp) (k : ExprContext)
  | binary (left : Expr) (op : BinaryOp) (k : ExprContext)
  | parens (k : ChainContext)
  | subscript (table : Expr) (k : ChainContext)
  | argument (callee : Expr) (args : List Expr) (k : ChainContext)
  | entryKey (entries : List Entry) (k : TableContext)
  | entryValue (entries : List Entry) (key : Expr) (k : TableContext)
  | whileCond (k : BlockContext)
  | untilCond (body : List Stmt) (k : BlockContext)
  | ifCond (arms : List Arm) (k : BlockContext)
  | forStart (name : String) (k : BlockContext)
  | forLimit (name : String) (start : Expr) (k : BlockContext)
  | forStep (name : String) (start limit : Expr) (k : BlockContext)
  | forValue (names : List String) (values : List Expr) (k : BlockContext)
  | returned (values : List Expr) (k : BlockContext)
  | assigned (isLocal : Bool) (targets : List Expr) (line : Nat) (values : List Expr)
      (k : BlockContext)

/-- The context of a chain. A line is that of the token the chain starts with. -/
inductive ChainContext
  | operand (k : ExprContext)
  | statement (line : Nat) (k : BlockContext)
  | target (targets : List Expr) (line : Nat) (k : BlockContext)

/-- The context of a table. -/
inductive TableContext
  | operand (k : ExprContext)
  | argument (callee : Expr) (k : ChainContext)

/-- The statements of a block so far, and what the block belongs to. -/
inductive BlockContext
  | block (statements : List Stmt) (owner : Owner)

inductive Owner
  | program
  | block (k : BlockContext)
  | while (cond : Expr) (k : BlockContext)
  | repeat (k : BlockContext)
  | thenPart (arms : List Arm) (cond : Expr) (k : BlockContext)
  | elsePart (arms : List Arm) (k : BlockContext)
  | numericFor (name : String) (start limit step : Expr) (k : BlockContext)
  | genericFor (names : List String) (values : List Expr) (k : BlockContext)
  | function (head : FunctionHead) (params : List String)

/-- A function is a statement if it has a path, and an expression otherwise. -/
inductive FunctionHead
  | definition (isLocal : Bool) (path : String) (k : BlockContext)
  | anonymous (k : ExprContext)

end

namespace BlockContext

def new (owner : Owner) : BlockContext := .block [] owner

def append (more : List Stmt) : BlockContext → BlockContext
  | .block statements owner => .block (statements ++ more) owner

def push (s : Stmt) (k : BlockContext) : BlockContext := k.append [s]

end BlockContext

end LuaSyntax
