import LuaSyntax.Tree

/-!
Well-formed trees. A target stands only on the left of an assignment, which has a value for each of
its targets; a `return` ends its block; a negated number is a number.
-/
namespace LuaSyntax

def Expr.isNumber : Expr → Bool
  | .number _ => true
  | _ => false

def Stmt.isReturn : Stmt → Bool
  | .return _ => true
  | _ => false

/-- The start of a numeric loop sets one local variable. -/
def Assignment.startsLoop : Assignment → Bool
  | .assignment true [.var _] [_] => true
  | _ => false

mutual

def Expr.WellFormed : Expr → Prop
  | .nil | .boolean _ | .number _ | .string _ | .name _ => True
  | .var _ => False
  | .not e => e.WellFormed
  | .neg e => e.isNumber = false ∧ e.WellFormed
  | .binary l _ r => l.WellFormed ∧ r.WellFormed
  | .table es => WellFormedEntries es
  | .index t k => t.WellFormed ∧ k.WellFormed
  | .call f es => f.WellFormed ∧ WellFormedExprs es
  | .function _ body => WellFormedBlock body

def WellFormedExprs : List Expr → Prop
  | [] => True
  | e :: es => e.WellFormed ∧ WellFormedExprs es

def Entry.WellFormed : Entry → Prop
  | .entry k v => k.WellFormed ∧ v.WellFormed

def WellFormedEntries : List Entry → Prop
  | [] => True
  | e :: es => e.WellFormed ∧ WellFormedEntries es

/-- A local variable is a name, any other target may also be an element of a table. -/
def Expr.WellFormedTarget (isLocal : Bool) : Expr → Prop
  | .var _ => True
  | .index t k => isLocal = false ∧ t.WellFormed ∧ k.WellFormed
  | _ => False

def WellFormedTargets (isLocal : Bool) : List Expr → Prop
  | [] => True
  | e :: es => e.WellFormedTarget isLocal ∧ WellFormedTargets isLocal es

def Assignment.WellFormed : Assignment → Prop
  | .assignment isLocal targets values =>
    targets ≠ [] ∧ targets.length = values.length ∧ WellFormedTargets isLocal targets ∧
      WellFormedExprs values

def Stmt.WellFormed : Stmt → Prop
  | .assign a => a.WellFormed
  | .call f es => f.WellFormed ∧ WellFormedExprs es
  | .block body => WellFormedBlock body
  | .while cond body => cond.WellFormed ∧ WellFormedBlock body
  | .repeat body cond => WellFormedBlock body ∧ cond.WellFormed
  | .if cond body alternative =>
    cond.WellFormed ∧ WellFormedBlock body ∧ WellFormedBlock alternative
  | .numericFor start limit step body =>
    start.startsLoop = true ∧ start.WellFormed ∧ limit.WellFormed ∧ step.WellFormed ∧
      WellFormedBlock body
  | .genericFor names values body =>
    names ≠ [] ∧ values ≠ [] ∧ WellFormedExprs values ∧ WellFormedBlock body
  | .definition _ _ _ body => WellFormedBlock body
  | .return values => WellFormedExprs values
  | .break => True

def WellFormedBlock : List Stmt → Prop
  | [] => True
  | s :: ss => s.WellFormed ∧ (s.isReturn = true → ss = []) ∧ WellFormedBlock ss

end

/-- Statements that more may follow. -/
def WellFormedStmts (ss : List Stmt) : Prop := ∀ s ∈ ss, s.WellFormed ∧ s.isReturn = false

theorem wellFormedExprs_append {es fs : List Expr} :
    WellFormedExprs (es ++ fs) ↔ WellFormedExprs es ∧ WellFormedExprs fs := by
  induction es with
  | nil => simp [WellFormedExprs]
  | cons e es ih => simp [WellFormedExprs, ih, and_assoc]

theorem wellFormedEntries_append {es fs : List Entry} :
    WellFormedEntries (es ++ fs) ↔ WellFormedEntries es ∧ WellFormedEntries fs := by
  induction es with
  | nil => simp [WellFormedEntries]
  | cons e es ih => simp [WellFormedEntries, ih, and_assoc]

theorem wellFormedTargets_append {isLocal : Bool} {es fs : List Expr} :
    WellFormedTargets isLocal (es ++ fs) ↔
      WellFormedTargets isLocal es ∧ WellFormedTargets isLocal fs := by
  induction es with
  | nil => simp [WellFormedTargets]
  | cons e es ih => simp [WellFormedTargets, ih, and_assoc]

theorem wellFormedTargets_names (ns : List String) : WellFormedTargets true (ns.map .var) := by
  induction ns with
  | nil => trivial
  | cons n ns ih => exact ⟨trivial, ih⟩

/-- Local targets are the names of variables. -/
theorem WellFormedTargets.exists_names {xs : List Expr} (h : WellFormedTargets true xs) :
    ∃ ns : List String, xs = ns.map .var := by
  induction xs with
  | nil => exact ⟨[], rfl⟩
  | cons x xs ih =>
    obtain ⟨hx, hxs⟩ := h
    obtain ⟨ns, rfl⟩ := ih hxs
    cases x with
    | var n => exact ⟨n :: ns, rfl⟩
    | index t k => exact absurd hx.1 (by simp)
    | _ => exact hx.elim

namespace WellFormedStmts

theorem nil : WellFormedStmts [] := by simp [WellFormedStmts]

theorem single {s : Stmt} (h : s.WellFormed) (hr : s.isReturn = false) : WellFormedStmts [s] := by
  simp [WellFormedStmts, h, hr]

theorem append {ss rs : List Stmt} (h : WellFormedStmts ss) (hr : WellFormedStmts rs) :
    WellFormedStmts (ss ++ rs) := by
  intro s hs
  exact (List.mem_append.mp hs).elim (h s) (hr s)

/-- Such statements stand before any block. -/
theorem block_append {ss rs : List Stmt} (h : WellFormedStmts ss) (hr : WellFormedBlock rs) :
    WellFormedBlock (ss ++ rs) := by
  induction ss with
  | nil => exact hr
  | cons s ss ih =>
    have hs := h s (by simp)
    have hss : WellFormedStmts ss := fun x hx => h x (by simp [hx])
    exact ⟨hs.1, fun hret => absurd hret (by simp [hs.2]), ih hss⟩

theorem block {ss : List Stmt} (h : WellFormedStmts ss) : WellFormedBlock ss := by
  have hb : WellFormedBlock (ss ++ []) := h.block_append trivial
  simpa using hb

end WellFormedStmts

end LuaSyntax
