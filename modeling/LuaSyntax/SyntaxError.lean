import LuaSyntax.Token

/-!
Syntax errors. The first one ends a parse.
-/
namespace LuaSyntax

inductive SyntaxError
  | unexpected (line : Nat) (text : String)
  | expected (line : Nat) (text : String) (kind : TokenKind)
  | unexpectedEnd
  | invalidTarget (line : Nat)
  | arity (line targets values : Nat)
deriving DecidableEq

namespace SyntaxError

def line? : SyntaxError → Option Nat
  | unexpected line _ => some line
  | expected line _ _ => some line
  | unexpectedEnd => none
  | invalidTarget line => some line
  | arity line _ _ => some line

def atToken (line : Nat) (text : String) : String :=
  "line " ++ toString line ++ ": syntax error at token '" ++ text ++ "'"

def message : SyntaxError → String
  | unexpected line text => atToken line text
  | expected line text kind => atToken line text ++ ", expected " ++ kind.text
  | unexpectedEnd => "syntax error: no more input"
  | invalidTarget line => "line " ++ toString line ++ ": cannot assign to this expression"
  | arity line targets values =>
    "line " ++ toString line ++ ": assignment has " ++ toString targets ++ " targets but " ++
      toString values ++ " values"

end SyntaxError

end LuaSyntax
