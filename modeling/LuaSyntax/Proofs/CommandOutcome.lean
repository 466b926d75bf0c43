import LuaSyntax.Command.Disk
import LuaSyntax.Command.Run
import LuaSyntax.Proofs.Respacing

/-!
How a run of the command line ends. Its error output is the lexical errors of the scan, one on each
line, and a last line that says why it fails if it does; a syntax error is named there, and nothing
is printed or written then. Otherwise the mode does its work, with lexical errors or without.
-/
namespace LuaSyntax

namespace Mode

variable (mode : Mode) (source : String)

/-- The lexical errors that a mode meets: all there are, or those up to where the parse ends. -/
def lexicalErrors : List Diagnostic :=
  if mode = .tokenize then (tokenizeInto .empty source).2.entries
  else (parseInto .empty source).2.entries

/-- The syntax error that a mode meets, unless it does not parse. -/
def syntaxError? : Option SyntaxError :=
  if mode = .tokenize then none
  else
    match (parseInto .empty source).1 with
    | .error e => some e
    | .ok _ => none

/-- What is said last if anything is wrong. -/
def lastMessage? : Option String :=
  match mode.syntaxError? source with
  | some e => some e.message
  | none =>
    let count := (mode.lexicalErrors source).length
    if count = 0 then none else some ("found " ++ toString count ++ " lexical error(s)")

def errorLines : List String :=
  (mode.lexicalErrors source).map Diagnostic.text ++
    (mode.lastMessage? source).toList.map ("minilua: " ++ ·)

end Mode

section

variable {σ : Type} (files : Files (StateM σ)) (o : Options) (source : String) (before : σ)

end

section

variable {source : String}

theorem oneLine_of_mem_tokenize {t : Token} (h : t ∈ tokenize source) : OneLine t.text :=
  (isLexeme_of_mem_tokenize h).newline_notMem

theorem TokenKind.oneLine_text (kind : TokenKind) : OneLine kind.text := by
  cases kind with
  | keyword k => cases k <;> decide
  | symbol y => cases y <;> decide
  | name | string => decide
  | number v => exact (by decide : OneLine "number")

end

namespace Mode

variable {mode : Mode} {source : String}

/-- How a mode ends that prints this. -/
def outcome (mode : Mode) (source stdout : String) : Outcome :=
  ⟨(mode.lastMessage? source).toList.length, stdout, textLines (mode.errorLines source)⟩

end Mode

namespace Options

variable {σ : Type} {files : Files (StateM σ)} {o : Options} {source : String} {before : σ}

theorem ofArguments_eq_ok {args : List String} (h : (ofArguments args).toOption = some o) :
    ofArguments args = .ok o := by
  cases hargs : ofArguments args with
  | error e =>
    rw [hargs] at h
    cases h
  | ok o' =>
    rw [hargs] at h
    rw [Option.some.inj h]

theorem run_of_read (hmode : o.mode ≠ .run)
    (hread : (files.read o.file).run before = (.ok source, before)) :
    (o.run files).run before = (o.runSource files source).run before := by
  simp only [run, hmode, if_false, StateT.run_bind, hread]
  rfl

end Options

namespace Disk

variable {d : Disk}

end Disk

end LuaSyntax
