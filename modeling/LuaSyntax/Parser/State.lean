import LuaSyntax.Parser.Context

/-!
The states of a parser: what may come next, and the context it comes in.
-/
namespace LuaSyntax

/-- After `return` a state waits for values, then for one semicolon, then only for the end of the
block. -/
inductive ParserState
  | statement (k : BlockContext)
  | returning (k : BlockContext)
  | returned (k : BlockContext)
  | closed (k : BlockContext)
  | operand (k : ExprContext)
  | operator (e : Expr) (k : ExprContext)
  | suffix (c : Chain) (k : ChainContext)
  | member (c : Chain) (k : ChainContext)
  | firstArgument (callee : Expr) (k : ChainContext)
  | nextTarget (targets : List Expr) (k : BlockContext)
  | afterTarget (targets : List Expr) (k : BlockContext)
  | entry (entries : List Entry) (k : TableContext)
  | entryAssign (entries : List Entry) (key : Expr) (k : TableContext)
  | firstLocal (k : BlockContext)
  | nextLocal (names : List String) (k : BlockContext)
  | afterLocal (names : List String) (k : BlockContext)
  | forVariable (k : BlockContext)
  | afterForVariable (name : String) (k : BlockContext)
  | nextForName (names : List String) (k : BlockContext)
  | afterForName (names : List String) (k : BlockContext)
  | functionName (isLocal : Bool) (k : BlockContext)
  | functionPath (isLocal : Bool) (path : String) (k : BlockContext)
  | functionMember (isLocal : Bool) (path : String) (k : BlockContext)
  | functionMethod (isLocal : Bool) (path : String) (k : BlockContext)
  | parameterList (head : FunctionHead)
  | firstParameter (head : FunctionHead)
  | nextParameter (head : FunctionHead) (params : List String)
  | afterParameter (head : FunctionHead) (params : List String)

namespace ParserState

def start : ParserState := .statement (.new .program)

/-- The state at the start of a new block. -/
def enter (owner : Owner) : ParserState := .statement (.new owner)

end ParserState

end LuaSyntax
