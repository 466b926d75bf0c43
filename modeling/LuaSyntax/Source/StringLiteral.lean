/-!
String literals: where one ends, what its escape sequences stand for, and which of them are invalid.
-/
namespace LuaSyntax.StringLiteral

/-- What the character stands for when a backslash comes before it. -/
def escapeValue? : Char → Option Char
  | 'a' => some '\x07'
  | 'b' => some '\x08'
  | 'f' => some '\x0c'
  | 'n' => some '\n'
  | 'r' => some '\r'
  | 't' => some '\t'
  | 'v' => some '\x0b'
  | '"' => some '"'
  | '\\' => some '\\'
  | _ => none

def isEscape (c : Char) : Bool := (escapeValue? c).isSome

/-- The text through the closing quote, or nothing if the line ends first. A backslash hides the
character after it only where the two are an escape sequence. -/
def scanBody? (quote : Char) : List Char → Option (List Char)
  | [] => none
  | c :: s =>
    if c = '\n' then none
    else if c = quote then some [c]
    else if c = '\\' then
      match s with
      | [] => none
      | e :: r =>
        if isEscape e then (scanBody? quote r).map fun body => c :: e :: body
        else (scanBody? quote (e :: r)).map (c :: ·)
    else (scanBody? quote s).map (c :: ·)

/-- The number of backslashes that start no escape sequence. -/
def invalidEscapes : List Char → Nat
  | [] => 0
  | c :: s =>
    if c = '\\' then
      match s with
      | [] => 1
      | e :: r => if isEscape e then invalidEscapes r else invalidEscapes (e :: r) + 1
    else invalidEscapes s

/-- Escape sequences replaced. What is none is kept as written, both characters. -/
def decode : List Char → List Char
  | [] => []
  | c :: s =>
    if c = '\\' then
      match s with
      | [] => [c]
      | e :: r =>
        match escapeValue? e with
        | some v => v :: decode r
        | none => c :: e :: decode r
    else c :: decode s

/-- The quotes are single bytes. A text that lacks one at either end has no contents. -/
def isQuoteSized (c : Char) : Bool := c.toNat < 128

def contents : List Char → List Char
  | c :: d :: s =>
    if isQuoteSized c && isQuoteSized ((d :: s).getLast (by simp)) then (d :: s).dropLast else []
  | _ => []

def value (text : String) : String := String.ofList (decode (contents text.toList))

end LuaSyntax.StringLiteral
