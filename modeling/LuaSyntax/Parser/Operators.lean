import LuaSyntax.Tree

/-!
How operators bind. Each binary operator has a priority for its left and one for its right operand;
an operator takes an operand from another one if its left priority is the greater.
-/
namespace LuaSyntax

inductive UnaryOp
  | not | minus
deriving DecidableEq

namespace UnaryOp

/-- Looser than the two operators that group to the right, tighter than all others. -/
def priority : Nat := 12

/-- The negative of a number is that number, any other negation is kept. -/
def apply : UnaryOp → Expr → Expr
  | minus, .number x => .number x.neg
  | minus, e => .neg e
  | not, e => .not e

end UnaryOp

namespace BinaryOp

def leftPriority : BinaryOp → Nat
  | .or => 2
  | .and => 4
  | .less | .greater | .lessEqual | .greaterEqual | .notEqual | .equal => 6
  | .add | .sub => 8
  | .mul | .div | .mod => 10
  | .concat => 14
  | .pow => 16

def groupsRight : BinaryOp → Bool
  | .concat | .pow => true
  | _ => false

def rightPriority (op : BinaryOp) : Nat :=
  if op.groupsRight then op.leftPriority - 1 else op.leftPriority

end BinaryOp

end LuaSyntax
