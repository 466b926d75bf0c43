import LuaSyntax.Token

/-!
The pieces that a source text falls into: tokens, and what is skipped between them. The texts of the
pieces put end to end are the source.
-/
namespace LuaSyntax

/-- A bracket, any number of equals signs, and the bracket again. -/
def longBracket (bracket : Char) (level : Nat) : List Char :=
  bracket :: List.replicate level '=' ++ [bracket]

/-- A long comment that is never closed has no closing level. An opening quote stands alone when its
line ends before the string does. -/
inductive Piece
  | blank (c : Char)
  | lineComment (body : List Char)
  | longComment (level : Nat) (body : List Char) (closing : Option Nat)
  | illegal (c : Char)
  | openQuote (c : Char)
  | lexeme (kind : TokenKind) (text : List Char)
deriving DecidableEq

namespace Piece

def text : Piece → List Char
  | blank c => [c]
  | lineComment body => '-' :: '-' :: body
  | longComment level body closing =>
    '-' :: '-' :: longBracket '[' level ++ body ++ (closing.map (longBracket ']')).getD []
  | illegal c => [c]
  | openQuote c => [c]
  | lexeme _ text => text

def newlines (p : Piece) : Nat := p.text.count '\n'

end Piece

end LuaSyntax
