import LuaSyntax.Proofs.OperatorTree
import LuaSyntax.Parser.Context
import LuaSyntax.Source.StringLiteral

/-!
Leaves: the names, strings and numbers of a tree, in the order of its source, and those of a token
list. The names in a path are leaves of their own, and a number counts without its sign. A numeric
loop has a step in its tree also where none is written; for such a loop the tokens have a one at the
end of its head.
-/
namespace LuaSyntax

inductive Leaf
  | text (s : String)
  | number (x : Binary64)
deriving DecidableEq

def Binary64.abs : Binary64 → Binary64
  | nan => nan
  | signed _ x => .ofMagnitude x

def pathLeaves (path : String) : List Leaf :=
  (path.toList.splitOn '.').map fun s => .text (String.ofList s)

mutual

def Expr.leaves : Expr → List Leaf
  | .nil | .boolean _ => []
  | .number x => [.number x.abs]
  | .string s => [.text s]
  | .name path | .var path => pathLeaves path
  | .not e | .neg e => e.leaves
  | .binary l _ r => l.leaves ++ r.leaves
  | .table es => entryLeaves es
  | .index t k => t.leaves ++ k.leaves
  | .call f es => f.leaves ++ exprLeaves es
  | .function params body => params.flatMap pathLeaves ++ blockLeaves body

def exprLeaves : List Expr → List Leaf
  | [] => []
  | e :: es => e.leaves ++ exprLeaves es

def Entry.leaves : Entry → List Leaf
  | .entry k v => k.leaves ++ v.leaves

def entryLeaves : List Entry → List Leaf
  | [] => []
  | e :: es => e.leaves ++ entryLeaves es

def Assignment.leaves : Assignment → List Leaf
  | .assignment _ targets values => exprLeaves targets ++ exprLeaves values

def Stmt.leaves : Stmt → List Leaf
  | .assign a => a.leaves
  | .call f es => f.leaves ++ exprLeaves es
  | .block body => blockLeaves body
  | .while cond body => cond.leaves ++ blockLeaves body
  | .repeat body cond => blockLeaves body ++ cond.leaves
  | .if cond body alternative => cond.leaves ++ blockLeaves body ++ blockLeaves alternative
  | .numericFor start limit step body =>
    start.leaves ++ limit.leaves ++ step.leaves ++ blockLeaves body
  | .genericFor names values body =>
    names.flatMap pathLeaves ++ exprLeaves values ++ blockLeaves body
  | .definition _ path params body =>
    pathLeaves path ++ params.flatMap pathLeaves ++ blockLeaves body
  | .return values => exprLeaves values
  | .break => []

def blockLeaves : List Stmt → List Leaf
  | [] => []
  | s :: ss => s.leaves ++ blockLeaves ss

end

/-- Something that has been opened and not closed: the head of a loop, from its keyword up to `do`,
with the number of expressions begun since its equals sign, or else a block or brackets. -/
inductive Opened
  | head (parts : Nat)
  | body
deriving DecidableEq

/-- What is open at some place among tokens, the innermost first. -/
abbrev Nesting := List Opened

namespace Nesting

def after (k : Nesting) : TokenKind → Nesting
  | .symbol .openParen | .symbol .openBrace | .symbol .openBracket => .body :: k
  | .symbol .closeParen | .symbol .closeBrace | .symbol .closeBracket => k.tail
  | .symbol .assign =>
    match k with
    | .head 0 :: k => .head 1 :: k
    | k => k
  | .symbol .comma =>
    match k with
    | .head (n + 1) :: k => .head (n + 2) :: k
    | k => k
  | .keyword .function | .keyword .if | .keyword .repeat => .body :: k
  | .keyword .end | .keyword .until => k.tail
  | .keyword .while | .keyword .for => .head 0 :: k
  | .keyword .do =>
    match k with
    | .head _ :: k => .body :: k
    | k => .body :: k
  | _ => k

def through (k : Nesting) (ts : List Token) : Nesting := ts.foldl (fun k t => k.after t.kind) k

/-- No head of a loop is the innermost. -/
def InBody (k : Nesting) : Prop := ∀ n, k.head? ≠ some (.head n)

variable {k : Nesting}

theorem inBody_nil : InBody [] := fun _ h => nomatch h

theorem inBody_body (k : Nesting) : InBody (.body :: k) := fun _ h => nomatch h

theorem InBody.eq_nil_or_body (h : k.InBody) : k = [] ∨ ∃ l, k = .body :: l := by
  cases k with
  | nil => exact .inl rfl
  | cons o l =>
    cases o with
    | head n => exact absurd rfl (h n)
    | body => exact .inr ⟨l, rfl⟩

theorem InBody.after_assign (h : k.InBody) : k.after (.symbol .assign) = k := by
  obtain rfl | ⟨l, rfl⟩ := h.eq_nil_or_body <;> rfl

theorem InBody.after_comma (h : k.InBody) : k.after (.symbol .comma) = k := by
  obtain rfl | ⟨l, rfl⟩ := h.eq_nil_or_body <;> rfl

theorem InBody.after_do (h : k.InBody) : k.after (.keyword .do) = .body :: k := by
  obtain rfl | ⟨l, rfl⟩ := h.eq_nil_or_body <;> rfl

end Nesting

/-- The leaves of one token. The `do` that ends the head of a loop with two expressions gives the
step that is not written. -/
def Token.leaves (k : Nesting) (t : Token) : List Leaf :=
  match t.kind with
  | .name => [.text t.text]
  | .string => [.text (StringLiteral.value t.text)]
  | .number n => [.number n.toBinary64]
  | .keyword .do => if k.head? = some (.head 2) then [.number .one] else []
  | _ => []

def tokenLeaves : Nesting → List Token → List Leaf
  | _, [] => []
  | k, t :: ts => t.leaves k ++ tokenLeaves (k.after t.kind) ts

theorem tokenLeaves_append (k : Nesting) (ts us : List Token) :
    tokenLeaves k (ts ++ us) = tokenLeaves k ts ++ tokenLeaves (k.through ts) us := by
  induction ts generalizing k with
  | nil => rfl
  | cons t ts ih => rw [List.cons_append, tokenLeaves, tokenLeaves, ih, List.append_assoc]; rfl

theorem exprLeaves_append (es fs : List Expr) :
    exprLeaves (es ++ fs) = exprLeaves es ++ exprLeaves fs := by
  induction es with
  | nil => rfl
  | cons e es ih => rw [List.cons_append, exprLeaves, exprLeaves, ih, List.append_assoc]

theorem exprLeaves_single (e : Expr) : exprLeaves [e] = e.leaves := List.append_nil _

theorem entryLeaves_append (es fs : List Entry) :
    entryLeaves (es ++ fs) = entryLeaves es ++ entryLeaves fs := by
  induction es with
  | nil => rfl
  | cons e es ih => rw [List.cons_append, entryLeaves, entryLeaves, ih, List.append_assoc]

theorem entryLeaves_single (e : Entry) : entryLeaves [e] = e.leaves := List.append_nil _

theorem blockLeaves_append (ss rs : List Stmt) :
    blockLeaves (ss ++ rs) = blockLeaves ss ++ blockLeaves rs := by
  induction ss with
  | nil => rfl
  | cons s ss ih => rw [List.cons_append, blockLeaves, blockLeaves, ih, List.append_assoc]

theorem blockLeaves_single (s : Stmt) : blockLeaves [s] = s.leaves := List.append_nil _

theorem exprLeaves_vars (ns : List String) : exprLeaves (ns.map .var) = ns.flatMap pathLeaves := by
  induction ns with
  | nil => rfl
  | cons n ns ih => rw [List.map_cons, exprLeaves, ih, List.flatMap_cons, Expr.leaves]

theorem exprLeaves_nils (ns : List String) : exprLeaves (ns.map fun _ => .nil) = [] := by
  induction ns with
  | nil => rfl
  | cons n ns ih => rw [List.map_cons, exprLeaves, ih, Expr.leaves, List.append_nil]

theorem pathLeaves_extendPath (path name : String) :
    pathLeaves (extendPath path name) = pathLeaves path ++ pathLeaves name := by
  have hlist : (extendPath path name).toList = path.toList ++ '.' :: name.toList := by
    simp [extendPath]
  rw [pathLeaves, hlist, List.splitOn_append_cons_self, List.map_append]
  rfl

theorem pathLeaves_name {name : String} (h : '.' ∉ name.toList) :
    pathLeaves name = [.text name] := by
  rw [pathLeaves, List.splitOn_eq_singleton h, List.map_singleton, String.ofList_toList]

/-- A target has the leaves of the chain that it is made from. -/
theorem Chain.leaves_target {c : Chain} {e : Expr} (h : c.target? = some e) :
    e.leaves = c.expr.leaves := by
  unfold target? at h
  split at h
  · obtain rfl := Option.some.inj h
    rfl
  · obtain rfl := Option.some.inj h
    rfl
  · cases h

/-- A chain grows by the leaf of a name, which becomes part of a path or a key. -/
theorem Chain.leaves_member {name : String} (h : '.' ∉ name.toList) (c : Chain) :
    (c.member name).expr.leaves = c.expr.leaves ++ pathLeaves name := by
  unfold member
  split
  · rename_i path hpath
    rw [hpath]
    exact pathLeaves_extendPath path name
  · rw [pathLeaves_name h]
    rfl

theorem Binary64.abs_neg (x : Binary64) : x.neg.abs = x.abs := by cases x <;> rfl

/-- A sign adds no leaf, also where it changes a number. -/
theorem UnaryOp.leaves_apply (op : UnaryOp) (e : Expr) : (op.apply e).leaves = e.leaves := by
  cases op with
  | not => rfl
  | minus =>
    cases e with
    | number x => rw [apply, Expr.leaves, Expr.leaves, Binary64.abs_neg]
    | _ => rfl

def Formula.leaves (f : Formula) : List Leaf :=
  f.first.primary.leaves ++ f.rest.flatMap fun x => x.2.primary.leaves

theorem Formula.leaves_single (a : Operand) : (single a).leaves = a.primary.leaves :=
  List.append_nil _

theorem Formula.leaves_append (f : Formula) (op : BinaryOp) (a : Operand) :
    (f.append op a).leaves = f.leaves ++ a.primary.leaves := by
  simp [leaves, append]

theorem OperatorTree.leaves_expr (t : OperatorTree) : t.expr.leaves = t.formula.leaves := by
  induction t with
  | primary e => exact (List.append_nil _).symm
  | unary op t ih => exact (op.leaves_apply _).trans ih
  | binary l op r ihl ihr => simp [expr, Expr.leaves, formula, Formula.leaves, ihl, ihr]

/-- Operators join the leaves of the operands, however they are grouped. -/
theorem Formula.leaves_tree (f : Formula) : f.tree.expr.leaves = f.leaves := by
  rw [OperatorTree.leaves_expr, f.formula_tree]

def Arm.leaves (a : Arm) : List Leaf := a.cond.leaves ++ blockLeaves a.body

theorem blockLeaves_conditional (arms : List Arm) (alternative : List Stmt) :
    blockLeaves (conditional arms alternative) =
      arms.flatMap Arm.leaves ++ blockLeaves alternative := by
  induction arms with
  | nil => rfl
  | cons a arms ih =>
    have hrest : blockLeaves (conditional (a :: arms) alternative) =
        Arm.leaves a ++ blockLeaves (conditional arms alternative) := List.append_nil _
    rw [hrest, ih, List.flatMap_cons, List.append_assoc]

end LuaSyntax
