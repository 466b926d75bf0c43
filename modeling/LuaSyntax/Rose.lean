/-!
Trees with a label at every node and any number of children.
-/
namespace LuaSyntax

inductive Rose (α : Type)
  | node (label : α) (children : List (Rose α))

namespace Rose

variable {α : Type}

def leaf (label : α) : Rose α := .node label []

def label : Rose α → α
  | node a _ => a

mutual

def size : Rose α → Nat
  | node _ ts => sizes ts + 1

def sizes : List (Rose α) → Nat
  | [] => 0
  | t :: ts => size t + sizes ts

end

mutual

/-- Every label with its depth, a node before its children. -/
def preorder (depth : Nat) : Rose α → List (Nat × α)
  | node a ts => (depth, a) :: preorders (depth + 1) ts

def preorders (depth : Nat) : List (Rose α) → List (Nat × α)
  | [] => []
  | t :: ts => preorder depth t ++ preorders depth ts

end

theorem sizes_append (ts us : List (Rose α)) : sizes (ts ++ us) = sizes ts + sizes us := by
  induction ts with
  | nil => simp [sizes]
  | cons t ts ih =>
    simp only [List.cons_append, sizes, ih]
    omega

theorem sizes_perm {ts us : List (Rose α)} (h : ts.Perm us) : sizes ts = sizes us := by
  induction h with
  | nil => rfl
  | cons t _ ih => simp only [sizes, ih]
  | swap t u ts =>
    simp only [sizes]
    omega
  | trans _ _ ih₁ ih₂ => exact ih₁.trans ih₂

end Rose

end LuaSyntax
