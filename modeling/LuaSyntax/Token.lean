import LuaSyntax.Number.Literal

/-!
Tokens: what the scanner finds and the parser reads. A kind that is a fixed spelling is printed in
single quotes, any other by its name.
-/
namespace LuaSyntax

inductive Keyword
  | and | break | do | else | elseif | end | false | for | function | if | in
  | local | nil | not | or | repeat | return | then | true | until | while
deriving DecidableEq

namespace Keyword

def all : List Keyword :=
  [.and, .break, .do, .else, .elseif, .end, .false, .for, .function, .if, .in,
   .local, .nil, .not, .or, .repeat, .return, .then, .true, .until, .while]

def spelling : Keyword → String
  | .and => "and"
  | .break => "break"
  | .do => "do"
  | .else => "else"
  | .elseif => "elseif"
  | .end => "end"
  | .false => "false"
  | .for => "for"
  | .function => "function"
  | .if => "if"
  | .in => "in"
  | .local => "local"
  | .nil => "nil"
  | .not => "not"
  | .or => "or"
  | .repeat => "repeat"
  | .return => "return"
  | .then => "then"
  | .true => "true"
  | .until => "until"
  | .while => "while"

def ofSpelling? (s : String) : Option Keyword := all.find? fun k => k.spelling = s

/-- The keywords that a block stops before. -/
def closesBlock : Keyword → Bool
  | .end | .else | .elseif | .until => Bool.true
  | _ => Bool.false

end Keyword

inductive Symbol
  | equal | notEqual | lessEqual | greaterEqual | concat
  | less | greater | plus | minus | star | slash | percent | caret
  | openParen | closeParen | openBrace | closeBrace | openBracket | closeBracket
  | semicolon | colon | comma | dot | assign
deriving DecidableEq

namespace Symbol

/-- Every symbol, the longer spellings first. -/
def all : List Symbol :=
  [.equal, .notEqual, .lessEqual, .greaterEqual, .concat,
   .less, .greater, .plus, .minus, .star, .slash, .percent, .caret,
   .openParen, .closeParen, .openBrace, .closeBrace, .openBracket, .closeBracket,
   .semicolon, .colon, .comma, .dot, .assign]

def chars : Symbol → List Char
  | .equal => ['=', '=']
  | .notEqual => ['~', '=']
  | .lessEqual => ['<', '=']
  | .greaterEqual => ['>', '=']
  | .concat => ['.', '.']
  | .less => ['<']
  | .greater => ['>']
  | .plus => ['+']
  | .minus => ['-']
  | .star => ['*']
  | .slash => ['/']
  | .percent => ['%']
  | .caret => ['^']
  | .openParen => ['(']
  | .closeParen => [')']
  | .openBrace => ['\x7b']
  | .closeBrace => ['\x7d']
  | .openBracket => ['[']
  | .closeBracket => [']']
  | .semicolon => [';']
  | .colon => [':']
  | .comma => [',']
  | .dot => ['.']
  | .assign => ['=']

/-- The longest symbol at the front of a text. -/
def scan? (s : List Char) : Option Symbol := all.find? fun y => y.chars.isPrefixOf s

end Symbol

inductive TokenKind
  | keyword (k : Keyword)
  | symbol (y : Symbol)
  | name
  | number (value : Numeral)
  | string
deriving DecidableEq

namespace TokenKind

def text : TokenKind → String
  | keyword k => "'" ++ k.spelling ++ "'"
  | symbol y => "'" ++ String.ofList y.chars ++ "'"
  | name => "name"
  | number _ => "number"
  | string => "string"

def closesBlock : TokenKind → Bool
  | keyword k => k.closesBlock
  | _ => false

/-- Equality of kinds, with numerals compared as numbers. -/
def same : TokenKind → TokenKind → Bool
  | number v, number w => v.same w
  | k, l => k = l

end TokenKind

/-- A token with its raw text and the line on which it starts. -/
structure Token where
  kind : TokenKind
  text : String
  line : Nat
deriving DecidableEq

namespace Token

def same (t u : Token) : Bool := t.kind.same u.kind && t.text = u.text && t.line = u.line

def sameList : List Token → List Token → Bool
  | [], [] => true
  | t :: ts, u :: us => t.same u && sameList ts us
  | _, _ => false

/-- Line, kind and text, set apart by tabs. -/
def lineText (t : Token) : String := toString t.line ++ "\t" ++ t.kind.text ++ "\t" ++ t.text

end Token

end LuaSyntax
