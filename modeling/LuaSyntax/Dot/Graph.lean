import LuaSyntax.Dot.Drawing

/-!
Graphs in the DOT language. The boxes of a drawing are numbered in the order they are drawn, a box
before its children, and an edge is written when the drawing it leads to is complete.
-/
namespace LuaSyntax

inductive GraphLine
  | node (id : Nat) (box : Box)
  | edge (source target : Nat)
deriving DecidableEq

/-- A number in a name has at least two digits. -/
def nodeName (id : Nat) : String := (if id < 10 then "n0" else "n") ++ toString id

def escapeLabel (c : Char) : List Char :=
  if c = '"' then ['\\', '"']
  else if c = '\\' then ['\\', '\\']
  else if c = '\n' then ['\\', 'n']
  else [c]

def labelText (label : String) : String := String.ofList (label.toList.flatMap escapeLabel)

def GraphLine.text : GraphLine → String
  | node id box =>
    "\t" ++ nodeName id ++ " [label=\"" ++ labelText box.label ++ "\" color=" ++ box.color.text ++
      "]\n"
  | edge source target => "\t" ++ nodeName source ++ " -> " ++ nodeName target ++ "\n"

namespace Drawing

mutual

/-- The lines of a drawing that is added after `n` boxes. -/
def lines (n : Nat) : Drawing → List GraphLine
  | .node box ts => .node (n + 1) box :: childLines (n + 1) (n + 1) ts

def childLines (parent n : Nat) : List Drawing → List GraphLine
  | [] => []
  | t :: ts => lines n t ++ .edge parent (n + 1) :: childLines parent (n + t.size) ts

end

end Drawing

/-- A graph that drawings are added to. -/
structure Canvas where
  size : Nat
  lines : List GraphLine
deriving DecidableEq

namespace Canvas

def empty : Canvas := ⟨0, []⟩

/-- The number that the next drawing starts with. -/
def next (c : Canvas) : Nat := c.size + 1

def add (c : Canvas) (d : Drawing) : Canvas := ⟨c.size + d.size, c.lines ++ d.lines c.size⟩

/-- The numbers that drawings start with when they are added one after the other. -/
def roots (c : Canvas) : List Drawing → List Nat
  | [] => []
  | d :: ds => c.next :: roots (c.add d) ds

def text (c : Canvas) : String :=
  "digraph AST \x7b\n" ++ "\tnode [shape=box style=filled color=lightblue2]\n" ++
    String.join (c.lines.map GraphLine.text) ++ "\x7d\n"

end Canvas

end LuaSyntax
