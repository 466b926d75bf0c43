import LuaSyntax.Proofs.Visits
import Mathlib.Data.List.Nodup

/-!
The graph of a canvas is a forest. The boxes are numbered in the order they are drawn, without a
gap; an edge goes to a later box, and every box has just one that leads to it, apart from those that
the visits give. A drawing adds such a tree to what is there, and so do any number of them.
-/
namespace LuaSyntax

open scoped List

namespace GraphLine

def id? : GraphLine → Option Nat
  | node id _ => some id
  | edge _ _ => none

def edge? : GraphLine → Option (Nat × Nat)
  | node _ _ => none
  | edge source target => some (source, target)

end GraphLine

/-- The numbers of the boxes that are declared, in this order. -/
def declaredIn (lines : List GraphLine) : List Nat := lines.filterMap GraphLine.id?

def edgesIn (lines : List GraphLine) : List (Nat × Nat) := lines.filterMap GraphLine.edge?

/-- The boxes that edges lead to. -/
def targetsIn (lines : List GraphLine) : List Nat := (edgesIn lines).map Prod.snd

section

variable (xs ys : List GraphLine)

theorem declaredIn_append : declaredIn (xs ++ ys) = declaredIn xs ++ declaredIn ys :=
  List.filterMap_append

theorem edgesIn_append : edgesIn (xs ++ ys) = edgesIn xs ++ edgesIn ys := List.filterMap_append

theorem targetsIn_append : targetsIn (xs ++ ys) = targetsIn xs ++ targetsIn ys := by
  simp [targetsIn, edgesIn_append]

end

namespace Drawing

theorem size_pos (d : Drawing) : 0 < d.size := by
  cases d
  exact Nat.succ_pos _

mutual

theorem declaredIn_lines (n : Nat) :
    (d : Drawing) → declaredIn (d.lines n) = List.range' (n + 1) d.size
  | .node box ds => by
    have hrest := declaredIn_childLines (n + 1) (n + 1) ds
    rw [lines, Rose.size, List.range'_succ, ← hrest]
    rfl

theorem declaredIn_childLines (parent n : Nat) : (ds : List Drawing) →
    declaredIn (childLines parent n ds) = List.range' (n + 1) (Rose.sizes ds)
  | [] => rfl
  | d :: ds => by
    have hfirst := declaredIn_lines n d
    have hrest := declaredIn_childLines parent (n + d.size) ds
    have hsplit : List.range' (n + 1) (d.size + Rose.sizes ds) =
        List.range' (n + 1) d.size ++ List.range' (n + d.size + 1) (Rose.sizes ds) := by
      rw [Nat.add_right_comm, List.range'_append_1]
    rw [childLines, Rose.sizes, declaredIn_append, hfirst, hsplit, ← hrest]
    rfl

end

mutual

/-- Every box but the first is led to once. -/
theorem targetsIn_lines (n : Nat) :
    (d : Drawing) → ((n + 1) :: targetsIn (d.lines n)).Perm (List.range' (n + 1) d.size)
  | .node box ds => by
    rw [Rose.size, List.range'_succ]
    exact (targetsIn_childLines (n + 1) (n + 1) ds).cons (n + 1)

theorem targetsIn_childLines (parent n : Nat) : (ds : List Drawing) →
    (targetsIn (childLines parent n ds)).Perm (List.range' (n + 1) (Rose.sizes ds))
  | [] => .nil
  | d :: ds => by
    have hfirst := targetsIn_lines n d
    have hrest := targetsIn_childLines parent (n + d.size) ds
    rw [childLines, Rose.sizes, targetsIn_append, ← List.range'_append_1]
    calc targetsIn (d.lines n) ++ (n + 1) :: targetsIn (childLines parent (n + d.size) ds)
        ~ ((n + 1) :: targetsIn (d.lines n)) ++ targetsIn (childLines parent (n + d.size) ds) :=
          List.perm_middle
      _ ~ List.range' (n + 1) d.size ++ List.range' (n + 1 + d.size) (Rose.sizes ds) := by
          rw [Nat.add_right_comm]
          exact hfirst.append hrest

end

mutual

theorem forward_lines (n : Nat) : (d : Drawing) → ∀ e ∈ edgesIn (d.lines n),
    n + 1 ≤ e.1 ∧ e.1 < e.2 ∧ e.2 ≤ n + d.size
  | .node box ds => by
    intro e he
    have h := forward_childLines (Nat.le_refl (n + 1)) ds e he
    rw [Rose.size]
    omega

theorem forward_childLines {parent n : Nat} (hparent : parent ≤ n) : (ds : List Drawing) →
    ∀ e ∈ edgesIn (childLines parent n ds), parent ≤ e.1 ∧ e.1 < e.2 ∧ e.2 ≤ n + Rose.sizes ds
  | [] => nofun
  | d :: ds => by
    intro e he
    have hpos : 0 < d.size := d.size_pos
    rw [childLines, edgesIn_append, List.mem_append] at he
    rw [Rose.sizes]
    rcases he with he | he
    · have h := forward_lines n d e he
      omega
    rcases List.mem_cons.mp he with rfl | he
    · simp only
      omega
    · have h := forward_childLines (Nat.le_trans hparent (Nat.le_add_right n d.size)) ds e he
      omega

end

end Drawing

/-- The boxes are numbered without a gap, and an earlier one leads to each but the roots, once. -/
structure Canvas.IsForest (c : Canvas) (roots : List Nat) : Prop where
  declared : declaredIn c.lines = List.range' 1 c.size
  targets : (targetsIn c.lines ++ roots).Perm (List.range' 1 c.size)
  forward : ∀ e ∈ edgesIn c.lines, 1 ≤ e.1 ∧ e.1 < e.2 ∧ e.2 ≤ c.size

namespace Canvas

variable {c : Canvas} {rs : List Nat}

theorem IsForest.add (h : c.IsForest rs) (d : Drawing) : (c.add d).IsForest (rs ++ [c.next]) where
  declared := by
    rw [Canvas.add, declaredIn_append, h.declared, d.declaredIn_lines, ← List.range'_append_1,
      Nat.add_comm 1]
  targets := by
    have htree := d.targetsIn_lines c.size
    rw [Canvas.add, targetsIn_append, ← List.range'_append_1, Nat.add_comm 1]
    calc (targetsIn c.lines ++ targetsIn (d.lines c.size)) ++ (rs ++ [c.next])
        ~ (targetsIn c.lines ++ rs) ++ (c.next :: targetsIn (d.lines c.size)) := by
          grind
      _ ~ List.range' 1 c.size ++ List.range' (c.size + 1) d.size := h.targets.append htree
  forward := by
    intro e he
    rw [Canvas.add, edgesIn_append, List.mem_append] at he
    rcases he with he | he
    · have hold := h.forward e he
      simp only [Canvas.add]
      omega
    · have hnew := d.forward_lines c.size e he
      simp only [Canvas.add]
      omega

end Canvas

namespace Canvas.IsForest

variable {c : Canvas} {rs : List Nat}

end Canvas.IsForest

/-- The number can be read off the name. -/
theorem ofDigitChars_nodeName (id : Nat) :
    Nat.ofDigitChars 10 (nodeName id).toList.tail 0 = id := by
  have hread : Nat.ofDigitChars 10 (Nat.toDigits 10 id) 0 = id := Nat.ofDigitChars_ten_toDigits
  by_cases hid : id < 10
  · have hname : (nodeName id).toList.tail = '0' :: Nat.toDigits 10 id := by simp [nodeName, hid]
    rw [hname, Nat.ofDigitChars_cons]
    exact hread
  · have hname : (nodeName id).toList.tail = Nat.toDigits 10 id := by simp [nodeName, hid]
    rw [hname, hread]

example : (List.range' 8 3).map nodeName = ["n08", "n09", "n10"] := by decide

end LuaSyntax
