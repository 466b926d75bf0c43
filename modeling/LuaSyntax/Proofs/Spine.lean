import LuaSyntax.Parser.Settle
import LuaSyntax.Proofs.OperatorTree

/-!
Where a parser stands after reading an operator tree: at its last leaf, with the operators on the
way down to it still open. Completing those that do not leave their operand to the next operator gives
the place after the tree that the next operator extends.
-/
namespace LuaSyntax

/-- Contexts that an operator has opened. In any other one an expression stands as a whole. -/
def ExprContext.isOperator : ExprContext → Bool
  | .unary _ _ | .binary _ _ _ => true
  | _ => false

/-- The priority that an operator has to exceed to extend an expression in this context. -/
def ExprContext.limit : ExprContext → Nat
  | .unary _ _ => UnaryOp.priority
  | .binary _ op _ => op.rightPriority
  | _ => 0

/-- No operator around the tree takes an operand from it. -/
def OperatorTree.StandsIn (t : OperatorTree) (k : ExprContext) : Prop :=
  ∀ o ∈ t.top?, k.limit < o.leftPriority

/-- The last leaf of a tree, with the context that it is read in. -/
def OperatorTree.spine : OperatorTree → ExprContext → Expr × ExprContext
  | primary e, k => (e, k)
  | unary op t, k => t.spine (.unary op k)
  | binary l op r, k => r.spine (.binary l.expr op k)

theorem reduce_of_not_isOperator {k : ExprContext} (hk : k.isOperator = false) (p : Nat)
    (e : Expr) : reduce p e k = (e, k) := by
  cases k <;> first | rfl | cases hk

theorem reduce_unary {p : Nat} (hp : p ≤ UnaryOp.priority) (e : Expr) (op : UnaryOp)
    (k : ExprContext) : reduce p e (.unary op k) = reduce p (op.apply e) k := by
  rw [reduce, if_neg (Nat.not_lt.mpr hp)]

theorem reduce_binary {p : Nat} {op : BinaryOp} (hp : p ≤ op.rightPriority) (l e : Expr)
    (k : ExprContext) : reduce p e (.binary l op k) = reduce p (.binary l op e) k := by
  rw [reduce, if_neg (Nat.not_lt.mpr hp)]

theorem reduce_of_limit_lt {k : ExprContext} {p : Nat} (hp : k.limit < p) (e : Expr) :
    reduce p e k = (e, k) := by
  cases k <;> simp_all [ExprContext.limit, reduce]

theorem ExprContext.limit_lt {k : ExprContext} (hk : k.isOperator = false) (op : BinaryOp) :
    k.limit < op.leftPriority := by
  have hlimit : k.limit = 0 := by cases k <;> first | rfl | cases hk
  rw [hlimit]
  cases op <;> decide

namespace OperatorTree

theorem standsIn_of_not_isOperator {k : ExprContext} (hk : k.isOperator = false)
    (t : OperatorTree) : t.StandsIn k := fun o _ => k.limit_lt hk o

/-- What a tree is extended to stands only where the tree does, and where the tree yields to the
operator or the context leaves its operand to it. -/
theorem StandsIn.of_extend {t a : OperatorTree} {op : BinaryOp} {k : ExprContext}
    (h : (t.extend op a).StandsIn k) :
    t.StandsIn k ∧ (t.yields op.leftPriority = true ∨ k.limit < op.leftPriority) := by
  cases hy : t.yields op.leftPriority with
  | true =>
    refine ⟨?_, .inl rfl⟩
    cases t with
    | primary e => cases hy
    | unary u t => simp [StandsIn, top?]
    | binary l o r => simpa [StandsIn, extend, hy, top?] using h
  | false =>
    rw [extend_of_not_yields hy] at h
    have hop : k.limit < op.leftPriority := h op rfl
    refine ⟨?_, .inr hop⟩
    cases t with
    | primary e => simp [StandsIn, top?]
    | unary u t => simp [StandsIn, top?]
    | binary l o r =>
      rintro _ ⟨⟩
      simp only [yields, Bool.or_eq_false_iff, decide_eq_false_iff_not, Nat.not_lt] at hy
      have hfits : o.FitsLeft op := (BinaryOp.leftPriority_le_rightPriority o op).mp hy.1
      exact Nat.lt_of_lt_of_le hop hfits.leftPriority_le

/-- A tree that does not yield is completed as a whole. -/
theorem reduce_spine {t : OperatorTree} {p : Nat} (h : t.yields p = false) (k : ExprContext) :
    reduce p (t.spine k).1 (t.spine k).2 = reduce p t.expr k := by
  induction t generalizing k with
  | primary e => rfl
  | unary op t ih =>
    simp only [yields, Bool.or_eq_false_iff, decide_eq_false_iff_not, Nat.not_lt] at h
    rw [spine, ih h.2, reduce_unary h.1, expr]
  | binary l op r ihl ihr =>
    simp only [yields, Bool.or_eq_false_iff, decide_eq_false_iff_not, Nat.not_lt] at h
    rw [spine, ihr h.2, reduce_binary h.1, expr]

theorem yields_zero (t : OperatorTree) : t.yields 0 = false := by
  induction t with
  | primary e => rfl
  | unary op t ih => simp [yields, ih]
  | binary l op r ihl ihr => simp [yields, ihr]

theorem reduce_zero_spine (t : OperatorTree) {k : ExprContext} (hk : k.isOperator = false) :
    reduce 0 (t.spine k).1 (t.spine k).2 = (t.expr, k) := by
  rw [reduce_spine t.yields_zero, reduce_of_not_isOperator hk]

/-- Reading one more operator and operand after a tree. The context keeps its operand from the
operator, or some operator in the tree yields before the context is reached. -/
theorem spine_extend {t : OperatorTree} {op : BinaryOp} (a : OperatorTree) {k : ExprContext}
    (h : t.yields op.leftPriority = true ∨ ∀ e, reduce op.leftPriority e k = (e, k)) :
    (t.extend op a).spine k =
      let r := reduce op.leftPriority (t.spine k).1 (t.spine k).2
      a.spine (.binary r.1 op r.2) := by
  have hwhole : ∀ {t : OperatorTree} {k : ExprContext}, t.yields op.leftPriority = false →
      (∀ e, reduce op.leftPriority e k = (e, k)) → (t.extend op a).spine k =
        let r := reduce op.leftPriority (t.spine k).1 (t.spine k).2
        a.spine (.binary r.1 op r.2) := by
    intro t k hy hk
    rw [extend_of_not_yields hy, reduce_spine hy, hk]
    rfl
  induction t generalizing k with
  | primary e => exact hwhole rfl (by simpa [yields] using h)
  | unary u t ih =>
    cases hy : (unary u t).yields op.leftPriority with
    | false => exact hwhole hy (by simpa [hy] using h)
    | true =>
      simp only [extend, hy, if_true, spine]
      refine ih ?_
      simp only [yields, Bool.or_eq_true, decide_eq_true_eq] at hy
      exact hy.symm.imp_right fun hp e => by rw [reduce, if_pos hp]
  | binary l o r ihl ihr =>
    cases hy : (binary l o r).yields op.leftPriority with
    | false => exact hwhole hy (by simpa [hy] using h)
    | true =>
      simp only [extend, hy, if_true, spine]
      refine ihr ?_
      simp only [yields, Bool.or_eq_true, decide_eq_true_eq] at hy
      exact hy.symm.imp_right fun hp e => by rw [reduce, if_pos hp]

end OperatorTree

/-- Reading one more operator and operand after a formula. -/
theorem Formula.spine_append (f : Formula) (op : BinaryOp) (a : Operand) {k : ExprContext}
    (h : f.tree.yields op.leftPriority = true ∨ k.limit < op.leftPriority) :
    (f.append op a).tree.spine k =
      let r := reduce op.leftPriority (f.tree.spine k).1 (f.tree.spine k).2
      a.tree.spine (.binary r.1 op r.2) := by
  rw [tree_append]
  exact OperatorTree.spine_extend a.tree (h.imp_right reduce_of_limit_lt)

end LuaSyntax
