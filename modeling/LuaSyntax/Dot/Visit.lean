import LuaSyntax.Dot.Graph

/-!
Drawing a tree by visiting it. A visit puts the box of a node on the canvas, then visits what the
node is made of, and gives the number of the box to whoever asked for it, to be tied to its parent.
-/
namespace LuaSyntax

/-- Draws something on the canvas, and gives the number of its box. -/
abbrev Draw := StateM Canvas Nat

namespace Canvas

def place (box : Box) : Draw :=
  modifyGet fun c => (c.next, ⟨c.next, c.lines ++ [.node c.next box]⟩)

def link (source target : Nat) : StateM Canvas Unit :=
  modify fun c => { c with lines := c.lines ++ [.edge source target] }

/-- The edge is not drawn before all of the child is. -/
def child (parent : Nat) (draw : Draw) : StateM Canvas Unit := do
  let id ← draw
  link parent id

def children (parent : Nat) (draws : List Draw) : StateM Canvas Unit := draws.forM (child parent)

/-- Draws each target with the value it receives. -/
def pairs (parent : Nat) (targets values : List Draw) : StateM Canvas Unit :=
  (targets.zip values).forM fun (target, value) => do
    child parent target
    child parent value

end Canvas

open Canvas

namespace Draw

def name (role : Role) (path : String) : Draw := place (.name role path)

def call (role : Role) (callee : Draw) (args : List Draw) : Draw := do
  let id ← place (.call role)
  child id callee
  children id args
  return id

def functionBody (role : Role) (params : List String) (body : List Draw) : Draw := do
  let id ← place (.functionBody role)
  children id (params.map (name .param))
  children id body
  return id

def function (path : String) (body : Draw) : Draw := do
  let id ← place .function
  child id (name .func path)
  child id body
  return id

end Draw

mutual

def Expr.draw (role : Role) : Expr → Draw
  | .nil => place (Expr.nil.box role)
  | .boolean b => place ((Expr.boolean b).box role)
  | .number x => place ((Expr.number x).box role)
  | .string s => place ((Expr.string s).box role)
  | .name s => Draw.name role s
  | .var s => place ((Expr.var s).box role)
  | .not a => do
    let id ← place (a.not.box role)
    child id (a.draw .none)
    return id
  | .neg a => do
    let id ← place (a.neg.box role)
    child id (a.draw .none)
    return id
  | .binary a op b => do
    let id ← place ((a.binary op b).box role)
    child id (a.draw .none)
    child id (b.draw .none)
    return id
  | .table es => do
    let id ← place ((Expr.table es).box role)
    children id (entryDraws es)
    return id
  | .index a k => do
    let id ← place ((a.index k).box role)
    child id (k.draw .field)
    child id (a.draw .table)
    return id
  | .call f as => Draw.call role (f.draw .call) (exprDraws .arg as)
  | .function ps b => Draw.functionBody role ps (stmtDraws b)

def exprDraws (role : Role) : List Expr → List Draw
  | [] => []
  | a :: as => a.draw role :: exprDraws role as

def Entry.draw : Entry → Draw
  | .entry k v => do
    let id ← place .entry
    child id (k.draw .none)
    child id (v.draw .none)
    return id

def entryDraws : List Entry → List Draw
  | [] => []
  | e :: es => e.draw :: entryDraws es

def Assignment.draw : Assignment → Draw
  | .assignment isLocal ts vs => do
    let id ← place (Assignment.assignment isLocal ts vs).box
    pairs id (exprDraws .none ts) (exprDraws .none vs)
    return id

def Stmt.draw (role : Role) : Stmt → Draw
  | .assign a => a.draw
  | .call f as => Draw.call role (f.draw .call) (exprDraws .arg as)
  | .block b => do
    let id ← place ((Stmt.block b).box role)
    children id (stmtDraws b)
    return id
  | .while c b => do
    let id ← place ((Stmt.while c b).box role)
    child id (c.draw .cond)
    children id (stmtDraws b)
    return id
  | .repeat b c => do
    let id ← place ((Stmt.repeat b c).box role)
    children id (stmtDraws b)
    child id (c.draw .cond)
    return id
  | .if c b e => do
    let id ← place ((Stmt.if c b e).box role)
    children id (stmtDraws b)
    child id (c.draw .cond)
    children id (stmtDraws e)
    return id
  | .numericFor s l t b => do
    let id ← place ((Stmt.numericFor s l t b).box role)
    child id (l.draw .none)
    child id (t.draw .none)
    child id s.draw
    children id (stmtDraws b)
    return id
  | .genericFor ns vs b => do
    let id ← place ((Stmt.genericFor ns vs b).box role)
    children id (ns.map (Draw.name .none))
    children id (exprDraws .none vs)
    children id (stmtDraws b)
    return id
  | .definition isLocal path ps b => do
    let id ← place ((Stmt.definition isLocal path ps b).box role)
    child id (Draw.function path (Draw.functionBody .none ps (stmtDraws b)))
    return id
  | .return vs => do
    let id ← place ((Stmt.return vs).box role)
    children id (exprDraws .none vs)
    return id
  | .break => place (Stmt.break.box role)

def stmtDraws : List Stmt → List Draw
  | [] => []
  | s :: ss => s.draw .none :: stmtDraws ss

end

/-- A program is drawn without its role. -/
def Program.draw (_role : Role) (p : Program) : Draw := do
  let id ← place .program
  children id (stmtDraws p)
  return id

/-- What a canvas can be asked to draw. -/
inductive Visit
  | program (role : Role) (p : Program)
  | stmt (role : Role) (s : Stmt)
  | expr (role : Role) (e : Expr)
  | kind (kind : NodeKind) (role : Role)

def Visit.draw : Visit → Draw
  | program role p => Program.draw role p
  | stmt role s => s.draw role
  | expr role e => e.draw role
  | kind k role => place (.ofKind k role)

/-- Makes one visit after the other, and gives the numbers of their boxes. -/
def visitAll (visits : List Visit) : StateM Canvas (List Nat) := visits.mapM Visit.draw

def Program.canvas (p : Program) : Canvas := ((Program.draw .none p).run .empty).2

def Program.dot (p : Program) : String := (Program.canvas p).text

end LuaSyntax
