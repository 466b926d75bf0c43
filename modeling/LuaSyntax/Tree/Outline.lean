import LuaSyntax.Rose
import LuaSyntax.Tree

/-!
The outline of a tree: the kind of every node and the role it has for its parent, children in source
order.
-/
namespace LuaSyntax

inductive NodeKind
  | program
  | number | nil | boolean | string | name | var | not | neg | binary
  | table | entry | index | call | functionBody | function | definition
  | block | assignment | while | repeat | return | break | if | numericFor | genericFor
deriving DecidableEq

namespace NodeKind

def all : List NodeKind :=
  [.program, .number, .nil, .boolean, .string, .name, .var, .not, .neg, .binary,
   .table, .entry, .index, .call, .functionBody, .function, .definition,
   .block, .assignment, .while, .repeat, .return, .break, .if, .numericFor, .genericFor]

def text : NodeKind → String
  | .program => "Program"
  | .number => "Number"
  | .nil => "Nil"
  | .boolean => "Boolean"
  | .string => "String"
  | .name => "Name"
  | .var => "Var"
  | .not => "Not"
  | .neg => "Neg"
  | .binary => "Binop"
  | .table => "Table"
  | .entry => "TableData"
  | .index => "CallTable"
  | .call => "CallFunction"
  | .functionBody => "FunctionBody"
  | .function => "Function"
  | .definition => "DefFunction"
  | .block => "Do"
  | .assignment => "Assignment"
  | .while => "While"
  | .repeat => "Repeat"
  | .return => "Return"
  | .break => "Break"
  | .if => "If"
  | .numericFor => "For"
  | .genericFor => "Forin"

end NodeKind

inductive Role
  | none | cond | call | arg | func | param | table | field
deriving DecidableEq

namespace Role

def all : List Role := [.none, .cond, .call, .arg, .func, .param, .table, .field]

def text : Role → String
  | .none => ""
  | .cond => "cond"
  | .call => "call"
  | .arg => "arg"
  | .func => "func"
  | .param => "args"
  | .table => "table"
  | .field => "field"

end Role

structure Node where
  kind : NodeKind
  role : Role
deriving DecidableEq

def Node.text (n : Node) : String := n.kind.text ++ " " ++ n.role.text

abbrev Outline := Rose Node

namespace Outline

def names (role : Role) (ns : List String) : List Outline := ns.map fun _ => .leaf ⟨.name, role⟩

end Outline

def Expr.kind : Expr → NodeKind
  | .nil => .nil
  | .boolean _ => .boolean
  | .number _ => .number
  | .string _ => .string
  | .name _ => .name
  | .var _ => .var
  | .not _ => .not
  | .neg _ => .neg
  | .binary _ _ _ => .binary
  | .table _ => .table
  | .index _ _ => .index
  | .call _ _ => .call
  | .function _ _ => .functionBody

def Stmt.kind : Stmt → NodeKind
  | .assign _ => .assignment
  | .call _ _ => .call
  | .block _ => .block
  | .while _ _ => .while
  | .repeat _ _ => .repeat
  | .if _ _ _ => .if
  | .numericFor _ _ _ _ => .numericFor
  | .genericFor _ _ _ => .genericFor
  | .definition _ _ _ _ => .definition
  | .return _ => .return
  | .break => .break

mutual

def Expr.outline (role : Role) : Expr → Outline
  | .nil => .leaf ⟨.nil, role⟩
  | .boolean _ => .leaf ⟨.boolean, role⟩
  | .number _ => .leaf ⟨.number, role⟩
  | .string _ => .leaf ⟨.string, role⟩
  | .name _ => .leaf ⟨.name, role⟩
  | .var _ => .leaf ⟨.var, role⟩
  | .not a => .node ⟨.not, role⟩ [a.outline .none]
  | .neg a => .node ⟨.neg, role⟩ [a.outline .none]
  | .binary a _ b => .node ⟨.binary, role⟩ [a.outline .none, b.outline .none]
  | .table es => .node ⟨.table, role⟩ (entryOutlines es)
  | .index a k => .node ⟨.index, role⟩ [a.outline .table, k.outline .field]
  | .call f as => .node ⟨.call, role⟩ (f.outline .call :: exprOutlines .arg as)
  | .function ps b => .node ⟨.functionBody, role⟩ (Outline.names .param ps ++ stmtOutlines b)

def exprOutlines (role : Role) : List Expr → List Outline
  | [] => []
  | a :: as => a.outline role :: exprOutlines role as

def Entry.outline : Entry → Outline
  | .entry k v => .node ⟨.entry, .none⟩ [k.outline .none, v.outline .none]

def entryOutlines : List Entry → List Outline
  | [] => []
  | e :: es => e.outline :: entryOutlines es

def Assignment.outline : Assignment → Outline
  | .assignment _ ts vs => .node ⟨.assignment, .none⟩ (exprOutlines .none ts ++ exprOutlines .none vs)

def Stmt.outline : Stmt → Outline
  | .assign a => a.outline
  | .call f as => .node ⟨.call, .none⟩ (f.outline .call :: exprOutlines .arg as)
  | .block b => .node ⟨.block, .none⟩ (stmtOutlines b)
  | .while c b => .node ⟨.while, .none⟩ (c.outline .cond :: stmtOutlines b)
  | .repeat b c => .node ⟨.repeat, .none⟩ (stmtOutlines b ++ [c.outline .cond])
  | .if c b e => .node ⟨.if, .none⟩ (c.outline .cond :: stmtOutlines b ++ stmtOutlines e)
  | .numericFor s l t b =>
    .node ⟨.numericFor, .none⟩ (s.outline :: l.outline .none :: t.outline .none :: stmtOutlines b)
  | .genericFor ns vs b =>
    .node ⟨.genericFor, .none⟩ (Outline.names .none ns ++ exprOutlines .none vs ++ stmtOutlines b)
  | .definition _ _ ps b =>
    .node ⟨.definition, .none⟩
      [.node ⟨.function, .none⟩
        [.leaf ⟨.name, .func⟩,
         .node ⟨.functionBody, .none⟩ (Outline.names .param ps ++ stmtOutlines b)]]
  | .return vs => .node ⟨.return, .none⟩ (exprOutlines .none vs)
  | .break => .leaf ⟨.break, .none⟩

def stmtOutlines : List Stmt → List Outline
  | [] => []
  | s :: ss => s.outline :: stmtOutlines ss

end

def Program.outline (p : Program) : Outline := .node ⟨.program, .none⟩ (stmtOutlines p)

end LuaSyntax
