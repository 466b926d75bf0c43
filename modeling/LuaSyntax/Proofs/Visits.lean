import LuaSyntax.Dot.Visit
import Mathlib.Data.List.Forall2

/-!
What visits draw. A visit adds the drawing of its node to the canvas, whatever is there already, and
gives the number that the drawing starts with. Visits that are made one after the other add their
drawings one after the other.
-/
namespace LuaSyntax

/-- The canvas with drawings added that hang from a box. -/
def Canvas.hang (parent : Nat) (c : Canvas) (ds : List Drawing) : Canvas :=
  ⟨c.size + Rose.sizes ds, c.lines ++ Drawing.childLines parent c.size ds⟩

/-- Whatever the canvas, the drawing is added and its first number given. -/
def Draws (m : Draw) (d : Drawing) : Prop := ∀ c : Canvas, m c = (c.next, c.add d)

/-- Whatever the canvas, the drawings are hung from a box, and then the value is given. -/
def Hangs {α : Type} (m : StateM Canvas α) (parent : Nat) (ds : List Drawing) (a : α) : Prop :=
  ∀ c : Canvas, m c = (a, c.hang parent ds)

theorem Drawing.childLines_append (parent n : Nat) (ds es : List Drawing) :
    childLines parent n (ds ++ es) =
      childLines parent n ds ++ childLines parent (n + Rose.sizes ds) es := by
  induction ds generalizing n with
  | nil => simp [childLines, Rose.sizes]
  | cons d ds ih => simp [childLines, Rose.sizes, ih, Nat.add_assoc]

namespace Canvas

variable (parent : Nat) (c : Canvas)

theorem hang_nil : c.hang parent [] = c := by
  simp [hang, Rose.sizes, Drawing.childLines]

theorem hang_append (ds es : List Drawing) :
    c.hang parent (ds ++ es) = (c.hang parent ds).hang parent es := by
  simp [hang, Rose.sizes_append, Drawing.childLines_append, Nat.add_assoc]

/-- A drawing is its box and what hangs from it. -/
theorem add_node (box : Box) (ds : List Drawing) : c.add (.node box ds) =
    Canvas.hang c.next ⟨c.next, c.lines ++ [.node c.next box]⟩ ds := by
  simp [add, hang, next, Rose.size, Drawing.lines, Nat.add_assoc, Nat.add_comm]

theorem hang_single (d : Drawing) : c.hang parent [d] =
    ⟨(c.add d).size, (c.add d).lines ++ [.edge parent c.next]⟩ := by
  simp [add, hang, next, Rose.sizes, Drawing.childLines]

end Canvas

section

variable {α : Type} {a : α} {parent : Nat} {d : Drawing} {ds es : List Drawing} {box : Box}

theorem hangs_pure : Hangs (pure a) parent [] a := by
  intro c
  rw [Canvas.hang_nil]
  rfl

theorem Hangs.bind {m : StateM Canvas Unit} {n : StateM Canvas α} (hm : Hangs m parent ds ())
    (hn : Hangs n parent es a) : Hangs (m >>= fun _ => n) parent (ds ++ es) a := by
  intro c
  calc (m >>= fun _ => n) c
      = n (m c).2 := rfl
    _ = (a, (c.hang parent ds).hang parent es) := by rw [hm c, hn]
    _ = (a, c.hang parent (ds ++ es)) := by rw [Canvas.hang_append]

theorem Hangs.last {m : StateM Canvas Unit} (hm : Hangs m parent ds ()) :
    Hangs (m >>= fun _ => pure a) parent ds a := by
  simpa using hm.bind (hangs_pure (a := a))

theorem hangs_child {m : Draw} (h : Draws m d) : Hangs (Canvas.child parent m) parent [d] () := by
  intro c
  calc Canvas.child parent m c
      = Canvas.link parent (m c).1 (m c).2 := rfl
    _ = Canvas.link parent c.next (c.add d) := by rw [h c]
    _ = ((), c.hang parent [d]) := by
      rw [Canvas.hang_single]
      rfl

theorem hangs_children {ms : List Draw} (h : List.Forall₂ Draws ms ds) :
    Hangs (Canvas.children parent ms) parent ds () := by
  induction h with
  | nil => exact hangs_pure
  | cons hm _ ih => exact (hangs_child hm).bind ih

theorem hangs_pairs {ms ns : List Draw} (hm : List.Forall₂ Draws ms ds)
    (hn : List.Forall₂ Draws ns es) :
    Hangs (Canvas.pairs parent ms ns) parent (interleave ds es) () := by
  induction hm generalizing ns es with
  | nil => exact hangs_pure
  | cons ht _ ih =>
    cases hn with
    | nil => exact hangs_pure
    | cons hv hn => exact ((hangs_child ht).bind (hangs_child hv)).bind (ih hn)

theorem draws_place : Draws (Canvas.place box) (.leaf box) := fun _ => rfl

theorem draws_node {f : Nat → Draw} (h : ∀ id, Hangs (f id) id ds id) :
    Draws (Canvas.place box >>= f) (.node box ds) := by
  intro c
  calc (Canvas.place box >>= f) c
      = f c.next ⟨c.next, c.lines ++ [.node c.next box]⟩ := rfl
    _ = (c.next, c.add (.node box ds)) := by rw [h, Canvas.add_node]

theorem draws_name (role : Role) (path : String) :
    Draws (Draw.name role path) (Drawing.name role path) := draws_place

theorem draws_names (role : Role) (paths : List String) :
    List.Forall₂ Draws (paths.map (Draw.name role)) (paths.map (Drawing.name role)) := by
  induction paths with
  | nil => exact .nil
  | cons path paths ih => exact .cons (draws_name role path) ih

theorem draws_call {role : Role} {callee : Draw} {args : List Draw} (hcallee : Draws callee d)
    (hargs : List.Forall₂ Draws args ds) :
    Draws (Draw.call role callee args) (Drawing.call role d ds) :=
  draws_node fun _ => (hangs_child hcallee).bind (hangs_children hargs).last

theorem draws_functionBody {role : Role} {params : List String} {body : List Draw}
    (hbody : List.Forall₂ Draws body ds) :
    Draws (Draw.functionBody role params body) (Drawing.functionBody role params ds) :=
  draws_node fun _ => (hangs_children (draws_names _ _)).bind (hangs_children hbody).last

end

mutual

theorem Expr.draws (role : Role) : (e : Expr) → Draws (e.draw role) (e.drawing role)
  | .nil | .boolean _ | .number _ | .string _ | .name _ | .var _ => draws_place
  | .not a | .neg a => draws_node fun _ => (hangs_child (a.draws .none)).last
  | .binary a _ b =>
    draws_node fun _ => (hangs_child (a.draws .none)).bind (hangs_child (b.draws .none)).last
  | .table es => draws_node fun _ => (hangs_children (entries_draw es)).last
  | .index a k =>
    draws_node fun _ => (hangs_child (k.draws .field)).bind (hangs_child (a.draws .table)).last
  | .call f as => draws_call (f.draws .call) (exprs_draw .arg as)
  | .function _ b => draws_functionBody (stmts_draw b)

theorem exprs_draw (role : Role) :
    (as : List Expr) → List.Forall₂ Draws (exprDraws role as) (exprDrawings role as)
  | [] => .nil
  | a :: as => .cons (a.draws role) (exprs_draw role as)

theorem Entry.draws : (e : Entry) → Draws e.draw e.drawing
  | .entry k v =>
    draws_node fun _ => (hangs_child (k.draws .none)).bind (hangs_child (v.draws .none)).last

theorem entries_draw : (es : List Entry) → List.Forall₂ Draws (entryDraws es) (entryDrawings es)
  | [] => .nil
  | e :: es => .cons e.draws (entries_draw es)

theorem Assignment.draws : (a : Assignment) → Draws a.draw a.drawing
  | .assignment _ ts vs =>
    draws_node fun _ => (hangs_pairs (exprs_draw .none ts) (exprs_draw .none vs)).last

theorem Stmt.draws (role : Role) : (s : Stmt) → Draws (s.draw role) (s.drawing role)
  | .assign a => a.draws
  | .call f as => draws_call (f.draws .call) (exprs_draw .arg as)
  | .block b => draws_node fun _ => (hangs_children (stmts_draw b)).last
  | .while c b =>
    draws_node fun _ => (hangs_child (c.draws .cond)).bind (hangs_children (stmts_draw b)).last
  | .repeat b c =>
    draws_node fun _ => (hangs_children (stmts_draw b)).bind (hangs_child (c.draws .cond)).last
  | .if c b e =>
    draws_node fun _ => (hangs_children (stmts_draw b)).bind <|
      (hangs_child (c.draws .cond)).bind (hangs_children (stmts_draw e)).last
  | .numericFor s l t b =>
    draws_node fun _ => (hangs_child (l.draws .none)).bind <|
      (hangs_child (t.draws .none)).bind <|
        (hangs_child s.draws).bind (hangs_children (stmts_draw b)).last
  | .genericFor ns vs b => by
    rw [Stmt.drawing, List.append_assoc]
    exact draws_node fun _ => (hangs_children (draws_names .none ns)).bind <|
      (hangs_children (exprs_draw .none vs)).bind (hangs_children (stmts_draw b)).last
  | .definition _ path _ b =>
    draws_node fun _ => (hangs_child (draws_node fun _ =>
      (hangs_child (draws_name .func path)).bind
        (hangs_child (draws_functionBody (stmts_draw b))).last)).last
  | .return vs => draws_node fun _ => (hangs_children (exprs_draw .none vs)).last
  | .break => draws_place

theorem stmts_draw : (ss : List Stmt) → List.Forall₂ Draws (stmtDraws ss) (stmtDrawings ss)
  | [] => .nil
  | s :: ss => .cons (s.draws .none) (stmts_draw ss)

end

theorem Program.draws (role : Role) (p : Program) :
    Draws (Program.draw role p) (Program.drawing p) :=
  draws_node fun _ => (hangs_children (stmts_draw p)).last

def Visit.drawing : Visit → Drawing
  | program _ p => Program.drawing p
  | stmt role s => s.drawing role
  | expr role e => e.drawing role
  | kind k role => .ofKind k role

theorem Visit.draws : (v : Visit) → Draws v.draw v.drawing
  | program role p => Program.draws role p
  | stmt role s => s.draws role
  | expr role e => e.draws role
  | kind _ _ => draws_place

theorem Program.canvas_eq (p : Program) : Program.canvas p = Canvas.empty.add (Program.drawing p) :=
  congrArg Prod.snd (Program.draws .none p .empty)

end LuaSyntax
