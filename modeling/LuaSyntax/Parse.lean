import LuaSyntax.Parser.Shift
import LuaSyntax.Source.Lexer
import LuaSyntax.Tree.Same

/-!
Parsing: a token list, or a source read no further than the parse needs. Each token is read once,
after the state has settled in view of it.
-/
namespace LuaSyntax

namespace ParserState

def feed (rule : ArityRule) (s : ParserState) (t : Token) : Parsing ParserState := do
  shift t (← settle rule (some t.kind) s)

def run (rule : ArityRule) (s : ParserState) (ts : List Token) : Parsing ParserState :=
  ts.foldlM (feed rule) s

@[simp] theorem run_nil (rule : ArityRule) (s : ParserState) : s.run rule [] = .ok s := rfl

theorem run_cons (rule : ArityRule) (s : ParserState) (t : Token) (ts : List Token) :
    s.run rule (t :: ts) = (s.feed rule t).bind fun s => s.run rule ts := List.foldlM_cons

theorem run_append (rule : ArityRule) (s : ParserState) (ts us : List Token) :
    s.run rule (ts ++ us) = (s.run rule ts).bind fun s => s.run rule us := List.foldlM_append

def program? : BlockContext → Parsing Program
  | .block statements .program => .ok statements
  | _ => .error .unexpectedEnd

def result : ParserState → Parsing Program
  | .statement k | .returned k | .closed k => program? k
  | _ => .error .unexpectedEnd

/-- The program that is complete when the input ends. -/
def finish (rule : ArityRule) (s : ParserState) : Parsing Program := do
  result (← settle rule none s)

end ParserState

def parseWith (rule : ArityRule) (ts : List Token) : Parsing Program := do
  (← ParserState.start.run rule ts).finish rule

/-- An assignment has one value for each target. -/
def parse (ts : List Token) : Parsing Program := parseWith .equal ts

namespace ParserState

/-- Asks for one token after the other until one does not fit or there are no more. -/
def readFrom (s : ParserState) (x : Lexer) : Parsing Program × Lexer :=
  match _hnext : x.next with
  | (none, y) => (s.finish .equal, y)
  | (some t, y) =>
    match s.feed .equal t with
    | .error e => (.error e, y)
    | .ok s => readFrom s y
termination_by x.cursor.ahead.length
decreasing_by exact Lexer.length_next_lt _hnext

end ParserState

/-- Parses a source as it is read. The lexical errors found on the way are added to a log. -/
def parseInto (log : Log) (source : String) : Parsing Program × Log :=
  let (result, x) := ParserState.start.readFrom (.start source log)
  (result, x.log)

/-- The result of a parse, with the lexical errors found before it ended. -/
structure ParseReport where
  result : Parsing Program
  diagnostics : List Diagnostic

def parseSource (source : String) : ParseReport :=
  let (result, log) := parseInto .empty source
  ⟨result, log.entries⟩

/-- Two parses agree if they give the same program or fail with the same error. -/
def Parsing.same : Parsing Program → Parsing Program → Bool
  | .ok p, .ok q => Program.same p q
  | .error e, .error f => e = f
  | _, _ => false

end LuaSyntax
