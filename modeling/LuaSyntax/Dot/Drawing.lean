import LuaSyntax.Number.Layout
import LuaSyntax.Tree.Outline

/-!
Drawings of trees: a labelled box for every node. The order of the boxes is that of the picture: a
block comes before the condition of an `if`, a key before its table, and each target of an
assignment is followed by its value.
-/
namespace LuaSyntax

inductive Color
  | green | orange | yellow | cyan | olive | coral | lightblue | limegreen | pink
deriving DecidableEq

def Color.text : Color → String
  | .green => "green"
  | .orange => "orange"
  | .yellow => "yellow"
  | .cyan => "cyan3"
  | .olive => "darkolivegreen3"
  | .coral => "coral"
  | .lightblue => "lightblue"
  | .limegreen => "limegreen"
  | .pink => "pink"

structure Box where
  label : String
  color : Color
deriving DecidableEq

/-- The role in front of a label, on a line of its own. -/
def Role.caption : Role → String
  | .none => ""
  | .cond => "cond:\n"
  | role => role.text ++ "\n"

/-- A box whose label starts with the role. -/
def Role.box (role : Role) (label : String) (color : Color) : Box :=
  ⟨role.caption ++ label, color⟩

namespace Box

/-- The box of a node of which only the kind is known. -/
def ofKind (kind : NodeKind) (role : Role) : Box := role.box kind.text .orange

def name (role : Role) (path : String) : Box := role.box ("name: " ++ path) .cyan

def call (role : Role) : Box := role.box "CallFunction" .limegreen

def functionBody (role : Role) : Box := role.box "Function\nbody:" .orange

/-- The box of a function with a name. -/
def function : Box := ⟨"Function", .lightblue⟩

def entry : Box := ⟨"Data", .orange⟩

def program : Box := ⟨"Program", .green⟩

end Box

def Expr.box (role : Role) : Expr → Box
  | .nil => role.box "Nil" .orange
  | .boolean b => role.box (if b then "true" else "false") .orange
  | .number x => role.box ("constant\nvalue: " ++ NumberLayout.plain.text x) .orange
  | .string s => role.box ("string: " ++ s) .yellow
  | .name s => .name role s
  | .var s => role.box ("variable\nname: " ++ s) .olive
  | .not _ => role.box "Not" .coral
  | .neg _ => role.box "Neg" .coral
  | .binary _ op _ => role.box ("binop\nop: " ++ op.spelling) .lightblue
  | .table _ => role.box "Table" .lightblue
  | .index _ _ => role.box "CallTable" .limegreen
  | .call _ _ => .call role
  | .function _ _ => .functionBody role

def Assignment.box : Assignment → Box
  | .assignment isLocal _ _ => ⟨if isLocal then "Local assign" else "assign", .lightblue⟩

/-- The role shows on a call only: no other statement is drawn with one. -/
def Stmt.box (role : Role) : Stmt → Box
  | .assign a => a.box
  | .call _ _ => .call role
  | .block _ => ⟨"Do", .lightblue⟩
  | .while _ _ => ⟨"While", .lightblue⟩
  | .repeat _ _ => ⟨"Repeat", .lightblue⟩
  | .if _ _ _ => ⟨"If\nthen, cond, else:", .lightblue⟩
  | .numericFor _ _ _ _ => ⟨"For", .lightblue⟩
  | .genericFor _ _ _ => ⟨"Forin", .lightblue⟩
  | .definition isLocal _ _ _ =>
    ⟨if isLocal then "DefLocalFunction" else "DefFunction", .limegreen⟩
  | .return _ => ⟨"Return", .pink⟩
  | .break => ⟨"Break", .pink⟩

abbrev Drawing := Rose Box

/-- The first elements of two lists, the second elements, and so on while both have one. -/
def interleave {α : Type} : List α → List α → List α
  | a :: as, b :: bs => a :: b :: interleave as bs
  | _, _ => []

namespace Drawing

def ofKind (kind : NodeKind) (role : Role) : Drawing := .leaf (.ofKind kind role)

def name (role : Role) (path : String) : Drawing := .leaf (.name role path)

def call (role : Role) (callee : Drawing) (args : List Drawing) : Drawing :=
  .node (.call role) (callee :: args)

def functionBody (role : Role) (params : List String) (body : List Drawing) : Drawing :=
  .node (.functionBody role) (params.map (name .param) ++ body)

end Drawing

mutual

def Expr.drawing (role : Role) : Expr → Drawing
  | .nil => .leaf (Expr.nil.box role)
  | .boolean b => .leaf ((Expr.boolean b).box role)
  | .number x => .leaf ((Expr.number x).box role)
  | .string s => .leaf ((Expr.string s).box role)
  | .name s => .name role s
  | .var s => .leaf ((Expr.var s).box role)
  | .not a => .node (a.not.box role) [a.drawing .none]
  | .neg a => .node (a.neg.box role) [a.drawing .none]
  | .binary a op b => .node ((a.binary op b).box role) [a.drawing .none, b.drawing .none]
  | .table es => .node ((Expr.table es).box role) (entryDrawings es)
  | .index a k => .node ((a.index k).box role) [k.drawing .field, a.drawing .table]
  | .call f as => .call role (f.drawing .call) (exprDrawings .arg as)
  | .function ps b => .functionBody role ps (stmtDrawings b)

def exprDrawings (role : Role) : List Expr → List Drawing
  | [] => []
  | a :: as => a.drawing role :: exprDrawings role as

def Entry.drawing : Entry → Drawing
  | .entry k v => .node .entry [k.drawing .none, v.drawing .none]

def entryDrawings : List Entry → List Drawing
  | [] => []
  | e :: es => e.drawing :: entryDrawings es

def Assignment.drawing : Assignment → Drawing
  | .assignment isLocal ts vs =>
    .node (Assignment.assignment isLocal ts vs).box
      (interleave (exprDrawings .none ts) (exprDrawings .none vs))

def Stmt.drawing (role : Role) : Stmt → Drawing
  | .assign a => a.drawing
  | .call f as => .call role (f.drawing .call) (exprDrawings .arg as)
  | .block b => .node ((Stmt.block b).box role) (stmtDrawings b)
  | .while c b => .node ((Stmt.while c b).box role) (c.drawing .cond :: stmtDrawings b)
  | .repeat b c => .node ((Stmt.repeat b c).box role) (stmtDrawings b ++ [c.drawing .cond])
  | .if c b e =>
    .node ((Stmt.if c b e).box role) (stmtDrawings b ++ c.drawing .cond :: stmtDrawings e)
  | .numericFor s l t b =>
    .node ((Stmt.numericFor s l t b).box role)
      (l.drawing .none :: t.drawing .none :: s.drawing :: stmtDrawings b)
  | .genericFor ns vs b =>
    .node ((Stmt.genericFor ns vs b).box role)
      (ns.map (Drawing.name .none) ++ exprDrawings .none vs ++ stmtDrawings b)
  | .definition isLocal path ps b =>
    .node ((Stmt.definition isLocal path ps b).box role)
      [.node .function
        [Drawing.name .func path, Drawing.functionBody .none ps (stmtDrawings b)]]
  | .return vs => .node ((Stmt.return vs).box role) (exprDrawings .none vs)
  | .break => .leaf (Stmt.break.box role)

def stmtDrawings : List Stmt → List Drawing
  | [] => []
  | s :: ss => s.drawing .none :: stmtDrawings ss

end

def Program.drawing (p : Program) : Drawing := .node .program (stmtDrawings p)

end LuaSyntax
