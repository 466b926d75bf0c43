import LuaSyntax.Tree

/-!
Equality of trees, with numbers compared as numbers: a tree that holds a NaN differs from itself.
-/
namespace LuaSyntax

mutual

def Expr.same : Expr → Expr → Bool
  | .nil, .nil => true
  | .boolean a, .boolean b => a = b
  | .number x, .number y => x.same y
  | .string a, .string b => a = b
  | .name a, .name b => a = b
  | .var a, .var b => a = b
  | .not a, .not b => a.same b
  | .neg a, .neg b => a.same b
  | .binary a o c, .binary b p d => a.same b && o = p && c.same d
  | .table a, .table b => sameEntries a b
  | .index a c, .index b d => a.same b && c.same d
  | .call a c, .call b d => a.same b && sameExprs c d
  | .function a c, .function b d => a = b && sameStmts c d
  | _, _ => false

def sameExprs : List Expr → List Expr → Bool
  | [], [] => true
  | a :: as, b :: bs => a.same b && sameExprs as bs
  | _, _ => false

def Entry.same : Entry → Entry → Bool
  | .entry a c, .entry b d => a.same b && c.same d

def sameEntries : List Entry → List Entry → Bool
  | [], [] => true
  | a :: as, b :: bs => a.same b && sameEntries as bs
  | _, _ => false

def Assignment.same : Assignment → Assignment → Bool
  | .assignment k a c, .assignment l b d => k = l && sameExprs a b && sameExprs c d

def Stmt.same : Stmt → Stmt → Bool
  | .assign a, .assign b => a.same b
  | .call a c, .call b d => a.same b && sameExprs c d
  | .block a, .block b => sameStmts a b
  | .while a c, .while b d => a.same b && sameStmts c d
  | .repeat a c, .repeat b d => sameStmts a b && c.same d
  | .if a c e, .if b d f => a.same b && sameStmts c d && sameStmts e f
  | .numericFor a c e g, .numericFor b d f h =>
    a.same b && c.same d && e.same f && sameStmts g h
  | .genericFor a c e, .genericFor b d f => a = b && sameExprs c d && sameStmts e f
  | .definition k a c e, .definition l b d f => k = l && a = b && c = d && sameStmts e f
  | .return a, .return b => sameExprs a b
  | .break, .break => true
  | _, _ => false

def sameStmts : List Stmt → List Stmt → Bool
  | [], [] => true
  | a :: as, b :: bs => a.same b && sameStmts as bs
  | _, _ => false

end

def Program.same (p q : Program) : Bool := sameStmts p q

end LuaSyntax
