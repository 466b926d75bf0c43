import LuaSyntax.Diagnostic
import LuaSyntax.Source.Cursor

/-!
Reading a source on demand. A lexer stands somewhere in its source and gives one token each time it
is asked; the errors it comes across go to a log that is lent to it.
-/
namespace LuaSyntax

structure Lexer where
  cursor : Cursor
  log : Log
deriving DecidableEq

namespace Lexer

def start (source : String) (log : Log) : Lexer := ⟨.start source.toList, log⟩

def goTo (x : Lexer) (k : Cursor) : Lexer := { x with cursor := k }

def report (x : Lexer) (e : LexicalError) (line : Nat) : Lexer :=
  { x with log := x.log.report ⟨e, line⟩ }

def reportTimes (n : Nat) (x : Lexer) (e : LexicalError) (line : Nat) : Lexer :=
  { x with log := x.log.reportAll (List.replicate n ⟨e, line⟩) }

/-- Gives the text up to a later place as a token. -/
def emit (x : Lexer) (kind : TokenKind) (k : Cursor) : Option Token × Lexer :=
  (some ⟨kind, String.ofList (x.cursor.textTo k), x.cursor.line⟩, x.goTo k)

/-- Skips the comment whose two dashes have been read. It is an error on the line it starts on if it
is never closed. -/
def skipComment (x : Lexer) : Lexer :=
  match longBracketLevel? '[' x.cursor.ahead with
  | some level =>
    let (isClosed, k) := (x.cursor.skip (level + 2)).skipLongComment
    if isClosed then x.goTo k else (x.goTo k).report .unclosedComment x.cursor.line
  | none => x.goTo (x.cursor.skipWhile (· ≠ '\n'))

/-- A string that does not end on its line is no token: the lexer goes back to the opening quote and
skips that alone. -/
def readString (x : Lexer) (quote : Char) : Option Token × Lexer :=
  let opened := x.cursor.step
  match opened.skipString quote 0 with
  | (some invalid, k) =>
    let (t, y) := x.emit .string k
    (t, y.reportTimes invalid .invalidEscape x.cursor.line)
  | (none, k) =>
    (none, (x.goTo { opened with line := k.line }).report .unclosedString x.cursor.line)

def readNumber (x : Lexer) : Option Token × Lexer :=
  let literal := NumberLiteral.scan x.cursor.ahead
  x.emit (.number literal.value) (x.cursor.step.skip (literal.text.length - 1))

def readWord (x : Lexer) : Option Token × Lexer :=
  let k := x.cursor.step.skipWhile isWordChar
  match Keyword.ofSpelling? (String.ofList (x.cursor.textTo k)) with
  | some w => x.emit (.keyword w) k
  | none => x.emit .name k

def readSymbol (x : Lexer) (c : Char) : Option Token × Lexer :=
  match Symbol.scan? x.cursor.ahead with
  | some y => x.emit (.symbol y) (x.cursor.step.skip (y.chars.length - 1))
  | none => (none, (x.goTo x.cursor.step).report (.illegalCharacter c) x.cursor.line)

/-- Reads what the next character begins: a token, or something to be skipped. The character and
the text after it are those ahead. -/
def read (x : Lexer) (c : Char) (s : List Char) : Option Token × Lexer :=
  if isBlank c then (none, x.goTo x.cursor.step)
  else if c = '-' && s.head? = some '-' then (none, (x.goTo x.cursor.step.step).skipComment)
  else if c = '"' || c = '\'' then x.readString c
  else if c.isDigit then x.readNumber
  else if isWordStart c then x.readWord
  else x.readSymbol c

variable (x : Lexer)

theorem length_skipComment_le : x.skipComment.cursor.ahead.length ≤ x.cursor.ahead.length := by
  unfold skipComment
  split
  · rename_i level _
    have hle := Nat.le_trans (Cursor.length_skipLongComment_le (x.cursor.skip (level + 2)))
      (Cursor.length_skip_le _ _)
    simp only
    split <;> exact hle
  · exact Cursor.length_skip_le _ _

theorem length_readString_le (quote : Char) :
    (x.readString quote).2.cursor.ahead.length ≤ x.cursor.step.ahead.length := by
  have hle := Cursor.length_skipString_le quote 0 x.cursor.step
  unfold readString
  simp only
  split
  · rename_i hk
    rw [hk] at hle
    exact hle
  · exact Nat.le_refl _

theorem length_readWord_le : x.readWord.2.cursor.ahead.length ≤ x.cursor.step.ahead.length := by
  unfold readWord
  simp only
  split <;> exact Cursor.length_skip_le _ _

theorem length_readSymbol_le (c : Char) :
    (x.readSymbol c).2.cursor.ahead.length ≤ x.cursor.step.ahead.length := by
  unfold readSymbol
  split
  · exact Cursor.length_skip_le _ _
  · exact Nat.le_refl _

theorem length_read_le (c : Char) (s : List Char) :
    (x.read c s).2.cursor.ahead.length ≤ x.cursor.step.ahead.length := by
  unfold read
  split
  · exact Nat.le_refl _
  split
  · exact Nat.le_trans (length_skipComment_le _) (Cursor.length_step_le _)
  split
  · exact length_readString_le x c
  split
  · exact Cursor.length_skip_le _ _
  split
  · exact length_readWord_le x
  · exact length_readSymbol_le x c

/-- The next token, or nothing at the end of the source. -/
def next (x : Lexer) : Option Token × Lexer :=
  match _hahead : x.cursor.ahead with
  | [] => (none, x)
  | c :: s =>
    match _hread : x.read c s with
    | (some t, y) => (some t, y)
    | (none, y) => next y
termination_by x.cursor.ahead.length
decreasing_by
  have hle := length_read_le x c s
  simp only [_hread, _hahead, Cursor.ahead_step, List.tail_cons] at hle
  simp only [_hahead, List.length_cons]
  omega

/-- A token takes up something of what was ahead. -/
theorem length_next_lt {x y : Lexer} {t : Token} (h : x.next = (some t, y)) :
    y.cursor.ahead.length < x.cursor.ahead.length := by
  fun_induction next x with
  | case1 => cases h
  | case2 x c s hahead u z hread =>
    obtain ⟨-, rfl⟩ := Prod.mk.inj h
    have hle := x.length_read_le c s
    rw [hread, Cursor.ahead_step, hahead, List.tail_cons] at hle
    rw [hahead]
    exact Nat.lt_succ_of_le hle
  | case3 x c s hahead z hread ih =>
    have hle := x.length_read_le c s
    rw [hread, Cursor.ahead_step, hahead, List.tail_cons] at hle
    rw [hahead]
    exact Nat.lt_succ_of_le (Nat.le_trans (Nat.le_of_lt (ih h)) hle)

/-- What the lexer gives when it is asked so many times. -/
def pull : Nat → Lexer → List (Option Token) × Lexer
  | 0, x => ([], x)
  | n + 1, x =>
    let (t, y) := x.next
    let (ts, z) := pull n y
    (t :: ts, z)

/-- Asks for one token after the other until there are no more. -/
def collect (x : Lexer) : List Token × Lexer :=
  match _hnext : x.next with
  | (none, y) => ([], y)
  | (some t, y) =>
    let (ts, z) := collect y
    (t :: ts, z)
termination_by x.cursor.ahead.length
decreasing_by exact length_next_lt _hnext

end Lexer

/-- All tokens of a source. The lexical errors found on the way are added to a log. -/
def tokenizeInto (log : Log) (source : String) : List Token × Log :=
  let (ts, x) := (Lexer.start source log).collect
  (ts, x.log)

end LuaSyntax
