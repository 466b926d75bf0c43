/-!
Lexical errors. They never stop a scan; each is recorded with the line it was found on.
-/
namespace LuaSyntax

inductive LexicalError
  | illegalCharacter (c : Char)
  | invalidEscape
  | unclosedComment
  | unclosedString
deriving DecidableEq

def LexicalError.message : LexicalError → String
  | illegalCharacter c => "Illegal character '" ++ String.singleton c ++ "'"
  | invalidEscape => "Incomplete character escape sequence in string literal"
  | unclosedComment => "Long comment not closed"
  | unclosedString => "Unfinished string"

structure Diagnostic where
  error : LexicalError
  line : Nat
deriving DecidableEq

def Diagnostic.text (d : Diagnostic) : String :=
  "LexerError: " ++ d.error.message ++ " in line " ++ toString d.line ++ "."

/-- The errors found so far, in the order they were found. -/
structure Log where
  entries : List Diagnostic
deriving DecidableEq

namespace Log

def empty : Log := ⟨[]⟩

def report (log : Log) (d : Diagnostic) : Log := ⟨log.entries ++ [d]⟩

def reportAll (log : Log) (ds : List Diagnostic) : Log := ds.foldl report log

def count (log : Log) : Nat := log.entries.length

def isEmpty (log : Log) : Bool := log.entries.isEmpty

theorem entries_reportAll (log : Log) (ds : List Diagnostic) :
    (log.reportAll ds).entries = log.entries ++ ds := by
  induction ds generalizing log with
  | nil => simp [reportAll]
  | cons d ds ih => simpa [reportAll, report] using ih (log.report d)

theorem reportAll_append (log : Log) (ds es : List Diagnostic) :
    log.reportAll (ds ++ es) = (log.reportAll ds).reportAll es := List.foldl_append

end Log

end LuaSyntax
