import LuaSyntax.Parser.Operators

/-!
Operator trees. An expression without its parentheses is a formula: operands with binary operators
between them. Each formula is the reading of exactly one tree in which every operator stands where
its level allows; `Formula.tree` builds that tree from the left.
-/
namespace LuaSyntax

/-- A primary expression with the unary operators in front of it. -/
structure Operand where
  signs : List UnaryOp
  primary : Expr

def Operand.sign (op : UnaryOp) (a : Operand) : Operand := ⟨op :: a.signs, a.primary⟩

/-- Operands from left to right, each but the first after the operator that joins it. -/
structure Formula where
  first : Operand
  rest : List (BinaryOp × Operand)

namespace Formula

def single (a : Operand) : Formula := ⟨a, []⟩

def append (f : Formula) (op : BinaryOp) (a : Operand) : Formula := ⟨f.first, f.rest ++ [(op, a)]⟩

end Formula

/-- The place of a binary operator in the list of levels, from the loosest to the tightest. -/
def BinaryOp.level : BinaryOp → Nat
  | .or => 1
  | .and => 2
  | .less | .greater | .lessEqual | .greaterEqual | .notEqual | .equal => 3
  | .add | .sub => 4
  | .mul | .div | .mod => 5
  | .concat => 7
  | .pow => 8

def UnaryOp.level : Nat := 6

namespace BinaryOp

/-- Whether an operator stands without parentheses in the left operand of another one. -/
def FitsLeft (inner outer : BinaryOp) : Prop :=
  outer.level < inner.level ∨ outer.level = inner.level ∧ outer.groupsRight = false

def FitsRight (inner outer : BinaryOp) : Prop :=
  outer.level < inner.level ∨ outer.level = inner.level ∧ outer.groupsRight = true

end BinaryOp

/-- A primary may be a parenthesized expression, which is then a leaf. -/
inductive OperatorTree
  | primary (e : Expr)
  | unary (op : UnaryOp) (operand : OperatorTree)
  | binary (left : OperatorTree) (op : BinaryOp) (right : OperatorTree)

namespace OperatorTree

/-- The expression without parentheses, the negative of a number being a number. -/
def expr : OperatorTree → Expr
  | primary e => e
  | unary op t => op.apply t.expr
  | binary l op r => .binary l.expr op r.expr

/-- The leaves and operators from left to right. -/
def formula : OperatorTree → Formula
  | primary e => .single ⟨[], e⟩
  | unary op t => ⟨t.formula.first.sign op, t.formula.rest⟩
  | binary l op r => ⟨l.formula.first, l.formula.rest ++ (op, r.formula.first) :: r.formula.rest⟩

def top? : OperatorTree → Option BinaryOp
  | binary _ op _ => some op
  | _ => none

/-- Whether a unary operator reaches the right end of the tree. -/
def endsUnary : OperatorTree → Bool
  | primary _ => false
  | unary _ _ => true
  | binary _ _ r => r.endsUnary

/-- Every operator stands where its level allows. An operator tighter than the unary ones never
follows one that could take it into its operand. -/
def Grouped : OperatorTree → Prop
  | primary _ => True
  | unary _ t => t.Grouped ∧ ∀ o ∈ t.top?, UnaryOp.level < o.level
  | binary l op r =>
    l.Grouped ∧ r.Grouped ∧ (∀ o ∈ l.top?, o.FitsLeft op) ∧ (∀ o ∈ r.top?, o.FitsRight op) ∧
      (UnaryOp.level < op.level → l.endsUnary = false)

/-- Whether an operator of this left priority, put after the tree, takes the last operand from an
operator in it. -/
def yields (p : Nat) : OperatorTree → Bool
  | primary _ => false
  | unary _ t => UnaryOp.priority < p || t.yields p
  | binary _ op r => op.rightPriority < p || r.yields p

/-- The tree with one more operator and operand after it. -/
def extend : OperatorTree → BinaryOp → OperatorTree → OperatorTree
  | primary e, op, a => binary (primary e) op a
  | unary u t, op, a =>
    if (unary u t).yields op.leftPriority then unary u (t.extend op a)
    else binary (unary u t) op a
  | binary l o r, op, a =>
    if (binary l o r).yields op.leftPriority then binary l o (r.extend op a)
    else binary (binary l o r) op a

end OperatorTree

def Operand.tree (a : Operand) : OperatorTree := a.signs.foldr .unary (.primary a.primary)

/-- A tree with operators and operands put after it one by one. -/
def OperatorTree.extendAll (t : OperatorTree) (rest : List (BinaryOp × Operand)) : OperatorTree :=
  rest.foldl (fun t x => t.extend x.1 x.2.tree) t

def Formula.tree (f : Formula) : OperatorTree := f.first.tree.extendAll f.rest

namespace BinaryOp

theorem rightPriority_lt_leftPriority (o op : BinaryOp) :
    o.rightPriority < op.leftPriority ↔ op.FitsRight o := by
  cases o <;> cases op <;> simp [rightPriority, leftPriority, groupsRight, FitsRight, level]

theorem leftPriority_le_rightPriority (o op : BinaryOp) :
    op.leftPriority ≤ o.rightPriority ↔ o.FitsLeft op := by
  cases o <;> cases op <;> simp [rightPriority, leftPriority, groupsRight, FitsLeft, level]

theorem unaryPriority_lt_leftPriority (op : BinaryOp) :
    UnaryOp.priority < op.leftPriority ↔ UnaryOp.level < op.level := by
  cases op <;> simp [UnaryOp.priority, leftPriority, UnaryOp.level, level]

theorem unaryPriority_lt_rightPriority (op : BinaryOp) :
    UnaryOp.priority < op.rightPriority ↔ UnaryOp.level < op.level := by
  cases op <;>
    simp [UnaryOp.priority, rightPriority, leftPriority, groupsRight, UnaryOp.level, level]

theorem FitsLeft.leftPriority_le {inner outer : BinaryOp} (h : inner.FitsLeft outer) :
    outer.leftPriority ≤ inner.leftPriority := by
  revert h
  cases inner <;> cases outer <;> simp [leftPriority, groupsRight, FitsLeft, level]

theorem FitsRight.rightPriority_le {inner outer : BinaryOp} (h : inner.FitsRight outer) :
    outer.rightPriority ≤ inner.rightPriority := by
  revert h
  cases inner <;> cases outer <;> simp [rightPriority, leftPriority, groupsRight, FitsRight, level]

end BinaryOp

namespace OperatorTree

theorem yields_of_endsUnary {t : OperatorTree} {p : Nat} (h : t.endsUnary = true)
    (hp : UnaryOp.priority < p) : t.yields p = true := by
  induction t with
  | primary e => simp [endsUnary] at h
  | unary op t ih => simp [yields, hp]
  | binary l op r ihl ihr => simp [yields, ihr h]

theorem top_of_not_yields {t : OperatorTree} {op : BinaryOp}
    (h : t.yields op.leftPriority = false) : ∀ o ∈ t.top?, o.FitsLeft op := by
  intro o ho
  cases t with
  | primary e => simp [top?] at ho
  | unary u t => simp [top?] at ho
  | binary l o' r =>
    obtain rfl : o' = o := by simpa [top?] using ho
    simp only [yields, Bool.or_eq_false_iff, decide_eq_false_iff_not, Nat.not_lt] at h
    exact (BinaryOp.leftPriority_le_rightPriority o' op).mp h.1

/-- In a grouped tree only the topmost operator and a unary one at the right end can yield. -/
theorem Grouped.not_yields {t : OperatorTree} {p : Nat} (h : t.Grouped)
    (htop : ∀ o ∈ t.top?, p ≤ o.rightPriority)
    (hend : t.endsUnary = true → p ≤ UnaryOp.priority) : t.yields p = false := by
  induction t with
  | primary e => rfl
  | unary u t ih =>
    have hp : p ≤ UnaryOp.priority := hend rfl
    have ht : t.yields p = false := by
      refine ih h.1 (fun o ho => ?_) (fun _ => hp)
      have hlt := (BinaryOp.unaryPriority_lt_rightPriority o).mpr (h.2 o ho)
      omega
    simp [yields, ht, hp]
  | binary l op r ihl ihr =>
    have hp : p ≤ op.rightPriority := htop op rfl
    have hr : r.yields p = false := by
      refine ihr h.2.1 (fun o ho => ?_) hend
      exact Nat.le_trans hp (h.2.2.2.1 o ho).rightPriority_le
    simp [yields, hr, hp]

theorem Grouped.left_not_yields {l r : OperatorTree} {op : BinaryOp}
    (h : (binary l op r).Grouped) : l.yields op.leftPriority = false := by
  refine h.1.not_yields (fun o ho => ?_) (fun hend => ?_)
  · exact (BinaryOp.leftPriority_le_rightPriority o op).mpr (h.2.2.1 o ho)
  · refine Nat.not_lt.mp fun hp => ?_
    have hlevel := (BinaryOp.unaryPriority_lt_leftPriority op).mp hp
    simp [h.2.2.2.2 hlevel] at hend

theorem extend_of_not_yields {t a : OperatorTree} {op : BinaryOp}
    (h : t.yields op.leftPriority = false) : t.extend op a = .binary t op a := by
  cases t <;> simp [extend, h]

theorem top?_extend {t a : OperatorTree} {op : BinaryOp} :
    ∀ o ∈ (t.extend op a).top?, (t.yields op.leftPriority = false ∧ o = op) ∨ o ∈ t.top? := by
  intro o ho
  cases hy : t.yields op.leftPriority with
  | false =>
    obtain rfl : op = o := by simpa [extend_of_not_yields hy, top?] using ho
    exact Or.inl ⟨rfl, rfl⟩
  | true =>
    cases t with
    | primary e => simp [yields] at hy
    | unary u t => simp [extend, hy, top?] at ho
    | binary l o' r => simpa [extend, hy, top?] using ho

theorem Grouped.extend {t a : OperatorTree} {op : BinaryOp} (ht : t.Grouped) (ha : a.Grouped)
    (htop : a.top? = none) : (t.extend op a).Grouped := by
  have hnew : ∀ t : OperatorTree, t.Grouped → t.yields op.leftPriority = false →
      (binary t op a).Grouped := by
    intro t ht hy
    refine ⟨ht, ha, top_of_not_yields hy, by simp [htop], fun hlevel => ?_⟩
    refine Bool.eq_false_iff.mpr fun hend => ?_
    have hp := (BinaryOp.unaryPriority_lt_leftPriority op).mpr hlevel
    simp [yields_of_endsUnary hend hp] at hy
  induction t with
  | primary e => exact hnew _ ht rfl
  | unary u t ih =>
    simp only [OperatorTree.extend]
    split
    · rename_i hy
      refine ⟨ih ht.1, fun o ho => ?_⟩
      rcases top?_extend o ho with ⟨hn, rfl⟩ | hold
      · simp only [yields, hn, Bool.or_false, decide_eq_true_eq] at hy
        exact (BinaryOp.unaryPriority_lt_leftPriority o).mp hy
      · exact ht.2 o hold
    · rename_i hy
      exact hnew _ ht (by simpa using hy)
  | binary l o r ihl ihr =>
    simp only [OperatorTree.extend]
    split
    · rename_i hy
      refine ⟨ht.1, ihr ht.2.1, ht.2.2.1, fun o' ho => ?_, ht.2.2.2.2⟩
      rcases top?_extend o' ho with ⟨hn, rfl⟩ | hold
      · simp only [yields, hn, Bool.or_false, decide_eq_true_eq] at hy
        exact (BinaryOp.rightPriority_lt_leftPriority o o').mp hy
      · exact ht.2.2.2.1 o' hold
    · rename_i hy
      exact hnew _ ht (by simpa using hy)

theorem formula_extend (t : OperatorTree) (op : BinaryOp) (a : OperatorTree) :
    (t.extend op a).formula = (binary t op a).formula := by
  induction t with
  | primary e => rfl
  | unary u t ih =>
    simp only [OperatorTree.extend]
    split
    · simp [formula, ih]
    · rfl
  | binary l o r ihl ihr =>
    simp only [OperatorTree.extend]
    split
    · simp [formula, ihr]
    · rfl

theorem extendAll_cons (t : OperatorTree) (x : BinaryOp × Operand)
    (rest : List (BinaryOp × Operand)) :
    t.extendAll (x :: rest) = (t.extend x.1 x.2.tree).extendAll rest := rfl

theorem extendAll_append (t : OperatorTree) (xs ys : List (BinaryOp × Operand)) :
    t.extendAll (xs ++ ys) = (t.extendAll xs).extendAll ys := by
  simp [extendAll]

end OperatorTree

namespace Operand

theorem sign_tree (op : UnaryOp) (a : Operand) : (a.sign op).tree = .unary op a.tree := rfl

theorem formula_tree (a : Operand) : a.tree.formula = .single a := by
  obtain ⟨signs, e⟩ := a
  induction signs with
  | nil => rfl
  | cons u signs ih =>
    change OperatorTree.formula (.unary u (Operand.tree ⟨signs, e⟩)) = _
    simp [OperatorTree.formula, ih, Formula.single, sign]

theorem top?_tree (a : Operand) : a.tree.top? = none := by
  obtain ⟨signs, e⟩ := a
  cases signs <;> rfl

theorem grouped_tree (a : Operand) : a.tree.Grouped := by
  obtain ⟨signs, e⟩ := a
  induction signs with
  | nil => trivial
  | cons u signs ih =>
    refine ⟨ih, fun o ho => ?_⟩
    cases (top?_tree ⟨signs, e⟩).symm.trans ho

end Operand

namespace OperatorTree

theorem Grouped.extendAll {t : OperatorTree} (ht : t.Grouped) (rest : List (BinaryOp × Operand)) :
    (t.extendAll rest).Grouped := by
  induction rest generalizing t with
  | nil => exact ht
  | cons x rest ih => exact ih (ht.extend x.2.grouped_tree x.2.top?_tree)

theorem formula_extendAll (t : OperatorTree) (rest : List (BinaryOp × Operand)) :
    (t.extendAll rest).formula = ⟨t.formula.first, t.formula.rest ++ rest⟩ := by
  induction rest generalizing t with
  | nil => simp [OperatorTree.extendAll]
  | cons x rest ih =>
    rw [extendAll_cons, ih, formula_extend]
    simp [formula, Operand.formula_tree, Formula.single]

/-- Whether a tree, with operators and operands put after it one by one, yields to each of them
within an operand that gives way to priorities above the given one. -/
def Takes (p : Nat) : OperatorTree → List (BinaryOp × Operand) → Prop
  | _, [] => True
  | t, (op, a) :: rest =>
    (p < op.leftPriority ∨ t.yields op.leftPriority = true) ∧ Takes p (t.extend op a.tree) rest

theorem takes_append {p : Nat} {t : OperatorTree} {xs ys : List (BinaryOp × Operand)} :
    t.Takes p (xs ++ ys) ↔ t.Takes p xs ∧ (t.extendAll xs).Takes p ys := by
  induction xs generalizing t with
  | nil => simp [Takes, OperatorTree.extendAll]
  | cons x xs ih => simp [Takes, ih, extendAll_cons, and_assoc]

theorem Takes.unary {t : OperatorTree} {rest : List (BinaryOp × Operand)}
    (h : t.Takes UnaryOp.priority rest) (u : UnaryOp) :
    (OperatorTree.unary u t).extendAll rest = .unary u (t.extendAll rest) ∧
      ∀ p, (OperatorTree.unary u t).Takes p rest := by
  induction rest generalizing t with
  | nil => exact ⟨rfl, fun _ => trivial⟩
  | cons x rest ih =>
    have hy : (OperatorTree.unary u t).yields x.1.leftPriority = true := by
      rcases h.1 with hp | hy <;> simp [yields, *]
    have hx : (OperatorTree.unary u t).extend x.1 x.2.tree = .unary u (t.extend x.1 x.2.tree) := by
      simp [OperatorTree.extend, hy]
    obtain ⟨hall, htakes⟩ := ih h.2
    refine ⟨?_, fun p => ⟨Or.inr hy, ?_⟩⟩
    · simpa [extendAll_cons, hx] using hall
    · simpa [hx] using htakes p

theorem Takes.binary {t : OperatorTree} {op : BinaryOp} {rest : List (BinaryOp × Operand)}
    (h : t.Takes op.rightPriority rest) (l : OperatorTree) :
    (OperatorTree.binary l op t).extendAll rest = .binary l op (t.extendAll rest) ∧
      ∀ p, (OperatorTree.binary l op t).Takes p rest := by
  induction rest generalizing t with
  | nil => exact ⟨rfl, fun _ => trivial⟩
  | cons x rest ih =>
    have hy : (OperatorTree.binary l op t).yields x.1.leftPriority = true := by
      rcases h.1 with hp | hy <;> simp [yields, *]
    have hx : (OperatorTree.binary l op t).extend x.1 x.2.tree =
        .binary l op (t.extend x.1 x.2.tree) := by
      simp [OperatorTree.extend, hy]
    obtain ⟨hall, htakes⟩ := ih h.2
    refine ⟨?_, fun p => ⟨Or.inr hy, ?_⟩⟩
    · simpa [extendAll_cons, hx] using hall
    · simpa [hx] using htakes p

/-- A grouped tree is built back from its reading, and all of the reading after its first operand
is taken by any operator looser than the topmost one. -/
theorem Grouped.tree_formula {t : OperatorTree} (h : t.Grouped) :
    t.formula.tree = t ∧ ∀ p, (∀ o ∈ t.top?, p < o.leftPriority) →
      t.formula.first.tree.Takes p t.formula.rest := by
  induction t with
  | primary e => exact ⟨rfl, fun _ _ => trivial⟩
  | unary u t ih =>
    obtain ⟨hbuilt, htakes⟩ := ih h.1
    have ht := htakes UnaryOp.priority fun o ho =>
      (BinaryOp.unaryPriority_lt_leftPriority o).mpr (h.2 o ho)
    obtain ⟨hall, hany⟩ := ht.unary u
    refine ⟨?_, fun p _ => hany p⟩
    exact hall.trans (congrArg (OperatorTree.unary u) hbuilt)
  | binary l op r ihl ihr =>
    obtain ⟨hl, hltakes⟩ := ihl h.1
    obtain ⟨hr, hrtakes⟩ := ihr h.2.1
    have hleft := extend_of_not_yields (a := r.formula.first.tree) h.left_not_yields
    have hright := hrtakes op.rightPriority fun o ho =>
      (BinaryOp.rightPriority_lt_leftPriority op o).mpr (h.2.2.2.1 o ho)
    obtain ⟨hall, hany⟩ := hright.binary l
    have hstart : l.formula.first.tree.extendAll l.formula.rest = l := hl
    constructor
    · change l.formula.first.tree.extendAll (l.formula.rest ++ _ :: _) = _
      rw [extendAll_append, hstart, extendAll_cons, hleft, hall]
      exact congrArg (OperatorTree.binary l op) hr
    · intro p hp
      refine takes_append.mpr ⟨hltakes p fun o ho => ?_, ?_⟩
      · exact Nat.lt_of_lt_of_le (hp op rfl) (h.2.2.1 o ho).leftPriority_le
      · change (l.formula.first.tree.extendAll l.formula.rest).Takes p _
        rw [hstart]
        refine ⟨Or.inl (hp op rfl), ?_⟩
        rw [hleft]
        exact hany p

end OperatorTree

namespace Formula

theorem grouped_tree (f : Formula) : f.tree.Grouped := f.first.grouped_tree.extendAll f.rest

theorem formula_tree (f : Formula) : f.tree.formula = f := by
  rw [tree, OperatorTree.formula_extendAll, Operand.formula_tree]
  rfl

theorem tree_append (f : Formula) (op : BinaryOp) (a : Operand) :
    (f.append op a).tree = f.tree.extend op a.tree := by
  simp [tree, append, OperatorTree.extendAll]

/-- A formula has one grouped tree. -/
theorem eq_tree_of_grouped {f : Formula} {t : OperatorTree} (ht : t.Grouped) (hf : t.formula = f) :
    t = f.tree := by
  rw [← hf, ht.tree_formula.1]

end Formula

end LuaSyntax
