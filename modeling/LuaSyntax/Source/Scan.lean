import LuaSyntax.Source.Piece
import LuaSyntax.Source.StringLiteral

/-!
Scanning: one piece is found at the front of the text, then the next one after it. No piece depends
on what came before it.
-/
namespace LuaSyntax

def isBlank (c : Char) : Bool := c = ' ' || c = '\t' || c = '\r' || c = '\n'

def isWordStart (c : Char) : Bool := c.isAlpha || c = '_'

def isWordChar (c : Char) : Bool := c.isAlphanum || c = '_'

/-- The level of the long bracket at the front of a text. -/
def longBracketLevel? (bracket : Char) : List Char → Option Nat
  | [] => none
  | c :: s =>
    let level := (s.takeWhile (· = '=')).length
    if c = bracket && (s.drop level).head? = some bracket then some level else none

/-- The text before the first closing long bracket, whatever its level, and that level. -/
def scanLongComment : List Char → List Char × Option Nat
  | [] => ([], none)
  | c :: s =>
    match longBracketLevel? ']' (c :: s) with
    | some level => ([], some level)
    | none =>
      let (body, closing) := scanLongComment s
      (c :: body, closing)

namespace Piece

/-- The comment whose text after its two dashes is at the front. -/
def scanComment (s : List Char) : Piece :=
  match longBracketLevel? '[' s with
  | some level =>
    let (body, closing) := scanLongComment (s.drop (level + 2))
    .longComment level body closing
  | none => .lineComment (s.takeWhile (· ≠ '\n'))

def scanString (quote : Char) (s : List Char) : Piece :=
  match StringLiteral.scanBody? quote s with
  | some body => .lexeme .string (quote :: body)
  | none => .openQuote quote

def scanNumber (s : List Char) : Piece :=
  let literal := NumberLiteral.scan s
  .lexeme (.number literal.value) literal.text

def scanWord (s : List Char) : Piece :=
  let word := s.takeWhile isWordChar
  match Keyword.ofSpelling? (String.ofList word) with
  | some k => .lexeme (.keyword k) word
  | none => .lexeme .name word

def scanSymbol (c : Char) (s : List Char) : Piece :=
  match Symbol.scan? (c :: s) with
  | some y => .lexeme (.symbol y) y.chars
  | none => .illegal c

/-- The piece at the front of a text. -/
def scan (c : Char) (s : List Char) : Piece :=
  if isBlank c then .blank c
  else if c = '-' && s.head? = some '-' then scanComment s.tail
  else if c = '"' || c = '\'' then scanString c s
  else if c.isDigit then scanNumber (c :: s)
  else if isWordStart c then scanWord (c :: s)
  else scanSymbol c s

end Piece

/-- The pieces of a text after its first `n` characters. -/
def piecesAfter : Nat → List Char → List Piece
  | _, [] => []
  | n + 1, _ :: s => piecesAfter n s
  | 0, c :: s =>
    let p := Piece.scan c s
    p :: piecesAfter (p.text.length - 1) s

def pieces (s : List Char) : List Piece := piecesAfter 0 s

theorem piecesAfter_eq_pieces_drop (n : Nat) (s : List Char) :
    piecesAfter n s = pieces (s.drop n) := by
  induction s generalizing n with
  | nil => cases n <;> rfl
  | cons c s ih =>
    cases n with
    | zero => rfl
    | succ n => simpa [piecesAfter] using ih n

end LuaSyntax
