/-!
The arguments of the command line: a mode and a file, and an option for the output path anywhere
among them.
-/
namespace LuaSyntax

inductive Mode
  | tokenize | parse | showAst | run
deriving DecidableEq

namespace Mode

def all : List Mode := [.tokenize, .parse, .showAst, .run]

def spellings : Mode → List String
  | .tokenize => ["tokenize", "token", "t", "0", "-tokenize", "-token", "-t"]
  | .parse => ["parse", "parserize", "p", "1", "-parserize", "-parse", "-p"]
  | .showAst => ["show-ast", "showast", "sast", "s", "2", "-showast", "-sast", "-s"]
  | .run => ["run", "runlua", "r", "3", "-runlua", "-run", "-r"]

/-- A spelling counts in any mix of upper and lower case ASCII letters. -/
def ofArgument? (arg : String) : Option Mode :=
  all.find? fun mode => mode.spellings.any fun s => s = arg.toLower

end Mode

structure Options where
  mode : Mode
  file : String
  output : Option String
deriving DecidableEq

/-- Reasons to end before a mode is run. -/
inductive EarlyEnd
  | usage
  | version
  | help (full : Bool)
deriving DecidableEq

inductive Argument
  | plain
  | endOfOptions
  | output (value : Option String)
  | ending (e : EarlyEnd)
  | unknown
deriving DecidableEq

namespace Argument

def ofLong (name : List Char) (value : Option (List Char)) : Argument :=
  if name = "output".toList then .output (value.map String.ofList)
  else if name = "version".toList then .ending (if value.isNone then .version else .usage)
  else if name = "help".toList then .ending (if value.isNone then .help true else .usage)
  else .unknown

/-- The value of an option may come right after its letter, with or without an equals sign. -/
def attached : List Char → Option String
  | [] => none
  | '=' :: s => some (String.ofList s)
  | s => some (String.ofList s)

def ofShort (letter : Char) (rest : List Char) : Argument :=
  if letter = 'o' then .output (attached rest)
  else if letter = 'V' then .ending .version
  else if letter = 'h' then .ending (.help false)
  else .unknown

def isLetter (c : Char) : Bool := c = 'o' || c = 'V' || c = 'h'

/-- A mode may begin with a dash. So before it is known, what follows a dash is an option only if
every character of it is the letter of one, and not, as afterwards, if the first is. -/
def ofChars (modeKnown : Bool) : List Char → Argument
  | ['-', '-'] => .endOfOptions
  | '-' :: '-' :: s =>
    ofLong (s.takeWhile (· ≠ '=')) (if '=' ∈ s then some (s.dropWhile (· ≠ '=')).tail else none)
  | '-' :: letter :: rest =>
    if modeKnown || (letter :: rest).all isLetter then ofShort letter rest else .unknown
  | _ => .plain

end Argument

/-- The arguments read so far. -/
structure ArgumentState where
  mode : Option Mode
  file : Option String
  output : Option String
  awaitsOutput : Bool
  optionsEnded : Bool
deriving DecidableEq

namespace ArgumentState

def start : ArgumentState := ⟨none, none, none, false, false⟩

def setOutput (s : ArgumentState) (value : String) : Except EarlyEnd ArgumentState :=
  if value = "" || s.output.isSome then .error .usage
  else .ok { s with output := some value, awaitsOutput := false }

def addPositional (s : ArgumentState) (arg : String) : Except EarlyEnd ArgumentState :=
  match s.mode, s.file with
  | none, _ =>
    match Mode.ofArgument? arg with
    | some mode => .ok { s with mode := some mode }
    | none => .error .usage
  | some _, none => if arg = "" then .error .usage else .ok { s with file := some arg }
  | some _, some _ => .error .usage

/-- A text that is no option: the value of the option before it, if that awaits one. -/
def addText (s : ArgumentState) (arg : String) : Except EarlyEnd ArgumentState :=
  if s.awaitsOutput then s.setOutput arg else s.addPositional arg

/-- An option whose value is missing cannot be followed by another one. Before the mode is known a
text that only looks like an option is not one. -/
def step (s : ArgumentState) (arg : String) : Except EarlyEnd ArgumentState :=
  if s.optionsEnded then s.addPositional arg
  else
    match Argument.ofChars s.mode.isSome arg.toList with
    | .plain => s.addText arg
    | .unknown => if s.mode.isNone then s.addText arg else .error .usage
    | .endOfOptions =>
      if s.awaitsOutput then .error .usage else .ok { s with optionsEnded := true }
    | .ending e => .error (if s.awaitsOutput then .usage else e)
    | .output value =>
      if s.awaitsOutput then .error .usage
      else
        match value with
        | some value => s.setOutput value
        | none => if s.output.isSome then .error .usage else .ok { s with awaitsOutput := true }

def options (s : ArgumentState) : Except EarlyEnd Options :=
  match s.mode, s.file with
  | some mode, some file => if s.awaitsOutput then .error .usage else .ok ⟨mode, file, s.output⟩
  | _, _ => .error .usage

end ArgumentState

def Options.ofArguments (args : List String) : Except EarlyEnd Options := do
  (← args.foldlM ArgumentState.step .start).options

end LuaSyntax
