import LuaSyntax.Token

/-!
Programs as trees. A tree holds what a program says and not how it is laid out: no lines, no
parentheses, and numbers already as doubles.
-/
namespace LuaSyntax

inductive BinaryOp
  | or | and
  | less | greater | lessEqual | greaterEqual | notEqual | equal
  | concat
  | add | sub | mul | div | mod | pow
deriving DecidableEq

namespace BinaryOp

def all : List BinaryOp :=
  [.or, .and, .less, .greater, .lessEqual, .greaterEqual, .notEqual, .equal, .concat,
   .add, .sub, .mul, .div, .mod, .pow]

def spelling : BinaryOp → String
  | .or => "or"
  | .and => "and"
  | .less => "<"
  | .greater => ">"
  | .lessEqual => "<="
  | .greaterEqual => ">="
  | .notEqual => "~="
  | .equal => "=="
  | .concat => ".."
  | .add => "+"
  | .sub => "-"
  | .mul => "*"
  | .div => "/"
  | .mod => "%"
  | .pow => "^"

def ofToken? : TokenKind → Option BinaryOp
  | .keyword .or => some .or
  | .keyword .and => some .and
  | .symbol .less => some .less
  | .symbol .greater => some .greater
  | .symbol .lessEqual => some .lessEqual
  | .symbol .greaterEqual => some .greaterEqual
  | .symbol .notEqual => some .notEqual
  | .symbol .equal => some .equal
  | .symbol .concat => some .concat
  | .symbol .plus => some .add
  | .symbol .minus => some .sub
  | .symbol .star => some .mul
  | .symbol .slash => some .div
  | .symbol .percent => some .mod
  | .symbol .caret => some .pow
  | _ => none

end BinaryOp

mutual

/-- A `var` is a name in the place of a target. A path is one name, or several joined by dots. -/
inductive Expr
  | nil
  | boolean (value : Bool)
  | number (value : Binary64)
  | string (value : String)
  | name (path : String)
  | var (path : String)
  | not (operand : Expr)
  | neg (operand : Expr)
  | binary (left : Expr) (op : BinaryOp) (right : Expr)
  | table (entries : List Entry)
  | index (table key : Expr)
  | call (callee : Expr) (args : List Expr)
  | function (params : List String) (body : List Stmt)

inductive Entry
  | entry (key value : Expr)

/-- Targets and values are matched by position. -/
inductive Assignment
  | assignment (isLocal : Bool) (targets values : List Expr)

/-- An `elseif` is a conditional that stands alone in an alternative. -/
inductive Stmt
  | assign (assignment : Assignment)
  | call (callee : Expr) (args : List Expr)
  | block (body : List Stmt)
  | while (cond : Expr) (body : List Stmt)
  | repeat (body : List Stmt) (cond : Expr)
  | if (cond : Expr) (body alternative : List Stmt)
  | numericFor (start : Assignment) (limit step : Expr) (body : List Stmt)
  | genericFor (names : List String) (values : List Expr) (body : List Stmt)
  | definition (isLocal : Bool) (path : String) (params : List String) (body : List Stmt)
  | return (values : List Expr)
  | break

end

/-- A program is a block. -/
abbrev Program := List Stmt

/-- A path made longer by one name. -/
def extendPath (path name : String) : String := path ++ "." ++ name

end LuaSyntax
