import LuaSyntax.Proofs.Image
import LuaSyntax.Proofs.Rebuild
import LuaSyntax.Source.Reading

/-!
The picture of a program shows all of it. Every node of the tree has a box, below the box of the
node it belongs to. Only an assignment could lose something, a target without a value or a value
without a target, and a program that has been parsed has none like that.
-/
namespace LuaSyntax

/-- A node of a tree, an expression with its role. The start of a numeric loop is an assignment like
others, and the names of a function and its parameters are expressions. -/
inductive Part
  | program (p : Program)
  | stmt (s : Stmt)
  | expr (role : Role) (e : Expr)
  | entry (e : Entry)
  | function (path : String) (params : List String) (body : List Stmt)

namespace Part

def names (role : Role) (ns : List String) : List Part := ns.map fun n => expr role (.name n)

/-- What a node consists of, in source order. -/
def children : Part → List Part
  | program p => p.map stmt
  | entry (.entry k v) => [expr .none k, expr .none v]
  | function path ps b => [expr .func (.name path), expr .none (.function ps b)]
  | expr _ .nil | expr _ (.boolean _) | expr _ (.number _) | expr _ (.string _)
  | expr _ (.name _) | expr _ (.var _) => []
  | expr _ (.not a) | expr _ (.neg a) => [expr .none a]
  | expr _ (.binary a _ b) => [expr .none a, expr .none b]
  | expr _ (.table es) => es.map entry
  | expr _ (.index a k) => [expr .table a, expr .field k]
  | expr _ (.call f as) | stmt (.call f as) => expr .call f :: as.map (expr .arg)
  | expr _ (.function ps b) => names .param ps ++ b.map stmt
  | stmt (.assign (.assignment _ ts vs)) => ts.map (expr .none) ++ vs.map (expr .none)
  | stmt (.block b) => b.map stmt
  | stmt (.while c b) => expr .cond c :: b.map stmt
  | stmt (.repeat b c) => b.map stmt ++ [expr .cond c]
  | stmt (.if c b e) => expr .cond c :: b.map stmt ++ e.map stmt
  | stmt (.numericFor s l t b) => stmt (.assign s) :: expr .none l :: expr .none t :: b.map stmt
  | stmt (.genericFor ns vs b) => names .none ns ++ vs.map (expr .none) ++ b.map stmt
  | stmt (.definition _ path ps b) => [function path ps b]
  | stmt (.return vs) => vs.map (expr .none)
  | stmt .break => []

/-- What a node consists of, in the order of the picture. Each target of an assignment stands right
before the value that it receives. -/
def shown : Part → List Part
  | expr _ (.index a k) => [expr .field k, expr .table a]
  | stmt (.assign (.assignment _ ts vs)) =>
    interleave (ts.map (expr .none)) (vs.map (expr .none))
  | stmt (.if c b e) => b.map stmt ++ expr .cond c :: e.map stmt
  | stmt (.numericFor s l t b) => expr .none l :: expr .none t :: stmt (.assign s) :: b.map stmt
  | x => x.children

def box : Part → Box
  | program _ => .program
  | stmt s => s.box .none
  | expr role e => e.box role
  | entry _ => .entry
  | function _ _ _ => .function

def outline : Part → Outline
  | program p => Program.outline p
  | stmt s => s.outline
  | expr role e => e.outline role
  | entry e => e.outline
  | function _ ps b => .node ⟨.function, .none⟩
    [.leaf ⟨.name, .func⟩, (Expr.function ps b).outline .none]

def drawing : Part → Drawing
  | program p => Program.drawing p
  | stmt s => s.drawing .none
  | expr role e => e.drawing role
  | entry e => e.drawing
  | function path ps b => .node .function
    [Drawing.name .func path, (Expr.function ps b).drawing .none]

def WellFormed : Part → Prop
  | program p => WellFormedBlock p
  | stmt s => s.WellFormed
  | expr _ e => e.WellFormed ∨ ∃ isLocal, e.WellFormedTarget isLocal
  | entry e => e.WellFormed
  | function _ _ b => WellFormedBlock b

end Part

mutual

/-- A box of the node, and below it all that the node consists of. -/
def Depicts : Drawing → Part → Prop
  | .node box ds, x => box = x.box ∧ x.shown.Perm x.children ∧ DepictAll ds x.shown

def DepictAll : List Drawing → List Part → Prop
  | [], [] => True
  | d :: ds, x :: xs => Depicts d x ∧ DepictAll ds xs
  | _, _ => False

end

section

variable {α β : Type}

end

namespace Part

theorem exprOutlines_eq (role : Role) (es : List Expr) :
    exprOutlines role es = es.map (Expr.outline role) := by
  induction es with
  | nil => rfl
  | cons e es ih => exact congrArg (e.outline role :: ·) ih

theorem stmtOutlines_eq (ss : List Stmt) : stmtOutlines ss = ss.map Stmt.outline := by
  induction ss with
  | nil => rfl
  | cons s ss ih => exact congrArg (s.outline :: ·) ih

theorem entryOutlines_eq (es : List Entry) : entryOutlines es = es.map Entry.outline := by
  induction es with
  | nil => rfl
  | cons e es ih => exact congrArg (e.outline :: ·) ih

/-- The outline of a node has the outlines of what it consists of. -/
theorem outline_eq (x : Part) : x.outline = .node x.outline.label (x.children.map outline) := by
  cases x with
  | program p =>
    simp [outline, children, Program.outline, Rose.label, stmtOutlines_eq, Function.comp_def]
  | stmt s =>
    cases s with
    | assign a =>
      cases a
      simp [outline, children, Stmt.outline, Assignment.outline, Rose.label, exprOutlines_eq,
        Function.comp_def]
    | _ =>
      simp [outline, children, names, Outline.names, Stmt.outline, Expr.outline, Rose.label,
        Rose.leaf, exprOutlines_eq, stmtOutlines_eq, Function.comp_def]
  | expr role e =>
    cases e <;>
      simp [outline, children, names, Outline.names, Expr.outline, Rose.label, Rose.leaf,
        exprOutlines_eq, stmtOutlines_eq, entryOutlines_eq, Function.comp_def]
  | entry e =>
    cases e
    rfl
  | function path ps b => rfl

theorem size_outline (x : Part) :
    x.outline.size = Rose.sizes (x.children.map outline) + 1 := by
  rw [outline_eq, Rose.size]

end Part

mutual

/-- A picture has as many boxes as there are nodes. -/
theorem Depicts.size_eq : (d : Drawing) → (x : Part) → Depicts d x → d.size = x.outline.size
  | .node box ds, x, ⟨_, hperm, hall⟩ => by
    rw [x.size_outline, Rose.size, DepictAll.sizes_eq ds x.shown hall,
      Rose.sizes_perm (hperm.map Part.outline)]

theorem DepictAll.sizes_eq : (ds : List Drawing) → (xs : List Part) → DepictAll ds xs →
    Rose.sizes ds = Rose.sizes (xs.map Part.outline)
  | [], [], _ => rfl
  | d :: ds, x :: xs, ⟨hd, hds⟩ => by
    rw [Rose.sizes, Depicts.size_eq d x hd, DepictAll.sizes_eq ds xs hds]
    rfl

end

end LuaSyntax
