import LuaSyntax.Number.Layout
import LuaSyntax.Text.Quoted
import LuaSyntax.Text.Shape
import LuaSyntax.Tree

/-!
The structure of a tree as a shape, with every node and field named.
-/
namespace LuaSyntax

def BinaryOp.text : BinaryOp → String
  | .or => "Or"
  | .and => "And"
  | .less => "Less"
  | .greater => "Greater"
  | .lessEqual => "LessEqual"
  | .greaterEqual => "GreaterEqual"
  | .notEqual => "NotEqual"
  | .equal => "Equal"
  | .concat => "Concat"
  | .add => "Add"
  | .sub => "Sub"
  | .mul => "Mul"
  | .div => "Div"
  | .mod => "Mod"
  | .pow => "Pow"

namespace Shape

def boolean (b : Bool) : Shape := .word (if b then "true" else "false")

def name (s : String) : Shape := .record "Name" [.field "value" (.word (quoted s))]

def var (s : String) : Shape := .record "Var" [.field "value" (.word (quoted s))]

def names (ns : List String) : Shape := .list (ns.map name)

def call (callee : Shape) (args : List Shape) : Shape :=
  .record "CallFunction" [.field "value" callee, .field "explist" (.list args)]

def functionBody (params : List String) (body : List Shape) : Shape :=
  .record "FunctionBody" [.field "params" (names params), .field "stmtlist" (.list body)]

def definition (isLocal : Bool) (path : String) (body : Shape) : Shape :=
  .record "DefFunction"
    [.field "function" (.record "Function" [.field "value" (name path), .field "funcbody" body]),
     .field "local" (boolean isLocal)]

end Shape

mutual

def Expr.shape : Expr → Shape
  | .nil => .word "Nil"
  | .boolean b => .wrapped "Boolean" (.boolean b)
  | .number x => .wrapped "Number" (.word (NumberLayout.marked.text x))
  | .string s => .wrapped "String" (.word (quoted s))
  | .name s => .wrapped "Name" (.name s)
  | .var s => .wrapped "Var" (.var s)
  | .not a => .wrapped "Not" a.shape
  | .neg a => .wrapped "Neg" a.shape
  | .binary a op b =>
    .wrapped "Binop" (.record "Binop"
      [.field "left" a.shape, .field "operator" (.word op.text), .field "right" b.shape])
  | .table es => .wrapped "Table" (.list (entryShapes es))
  | .index a k =>
    .wrapped "CallTable" (.record "CallTable" [.field "table" a.shape, .field "field" k.shape])
  | .call f as => .wrapped "CallFunction" (.call f.shape (exprShapes as))
  | .function ps b => .wrapped "Function" (.functionBody ps (stmtShapes b))

def exprShapes : List Expr → List Shape
  | [] => []
  | a :: as => a.shape :: exprShapes as

def Entry.shape : Entry → Shape
  | .entry k v => .record "TableData" [.field "value" k.shape, .field "exp" v.shape]

def entryShapes : List Entry → List Shape
  | [] => []
  | e :: es => e.shape :: entryShapes es

def Assignment.shape : Assignment → Shape
  | .assignment isLocal ts vs =>
    .record "Assignment"
      [.field "varlist" (.list (exprShapes ts)), .field "explist" (.list (exprShapes vs)),
       .field "local" (.boolean isLocal)]

def Stmt.shape : Stmt → Shape
  | .assign a => .wrapped "Assignment" a.shape
  | .call f as => .wrapped "CallFunction" (.call f.shape (exprShapes as))
  | .block b => .wrapped "Do" (.list (stmtShapes b))
  | .while c b =>
    .wrapped "While" (.record "While" [.field "cond" c.shape, .field "stmtlist" (.list (stmtShapes b))])
  | .repeat b c =>
    .wrapped "Repeat"
      (.record "Repeat" [.field "stmtlist" (.list (stmtShapes b)), .field "cond" c.shape])
  | .if c b e =>
    .wrapped "If" (.record "If"
      [.field "cond" c.shape, .field "stmtlist" (.list (stmtShapes b)),
       .field "elsepart" (.list (stmtShapes e))])
  | .numericFor s l t b =>
    .wrapped "For" (.record "For"
      [.field "assign" s.shape, .field "limit" l.shape, .field "step" t.shape,
       .field "stmtlist" (.list (stmtShapes b))])
  | .genericFor ns vs b =>
    .wrapped "Forin" (.record "Forin"
      [.field "namelist" (.names ns), .field "exprlist" (.list (exprShapes vs)),
       .field "stmtlist" (.list (stmtShapes b))])
  | .definition isLocal path ps b =>
    .wrapped "DefFunction" (.definition isLocal path (.functionBody ps (stmtShapes b)))
  | .return vs => .wrapped "Return" (.list (exprShapes vs))
  | .break => .word "Break"

def stmtShapes : List Stmt → List Shape
  | [] => []
  | s :: ss => s.shape :: stmtShapes ss

end

def Program.shape (p : Program) : Shape :=
  .record "Program" [.field "stmtlist" (.list (stmtShapes p))]

def Program.flatText (p : Program) : String := (Program.shape p).flat

def Program.indentedText (p : Program) : String := (Program.shape p).indented 0

end LuaSyntax
