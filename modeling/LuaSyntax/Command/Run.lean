import LuaSyntax.Command.Arguments
import LuaSyntax.Command.Files
import LuaSyntax.Command.Path
import LuaSyntax.Command.Usage
import LuaSyntax.Dot.Visit
import LuaSyntax.Parse
import LuaSyntax.Source.Reading
import LuaSyntax.Tree.Structure

/-!
The command line: what each mode prints and writes, and how it ends.
-/
namespace LuaSyntax

/-- What the last line of the error output says. -/
inductive Failure
  | file (path : String) (error : FileError)
  | parse (error : SyntaxError)
  | lexical (count : Nat)
  | notImplemented
deriving DecidableEq

def Failure.message : Failure → String
  | file path error => path ++ ": " ++ error.message
  | parse error => error.message
  | lexical count => "found " ++ toString count ++ " lexical error(s)"
  | notImplemented => "run mode is not implemented"

structure Outcome where
  exit : Nat
  stdout : String
  stderr : String
deriving DecidableEq

namespace Outcome

def failed (stdout : String) (ds : List Diagnostic) (failure : Failure) : Outcome :=
  ⟨1, stdout, textLines (ds.map Diagnostic.text) ++ textLine ("minilua: " ++ failure.message)⟩

/-- A run that gets through fails only for the lexical errors it met. -/
def finished (stdout : String) (ds : List Diagnostic) : Outcome :=
  if ds.isEmpty then ⟨0, stdout, ""⟩ else failed stdout ds (.lexical ds.length)

end Outcome

/-- Where a drawing goes if no path is given: beside the source. -/
def defaultOutput (file : String) : String :=
  String.ofList (Path.withExtension ['d', 'o', 't'] file.toList)

namespace Options

variable {m : Type → Type} [Monad m]

def outputPath (o : Options) : String := o.output.getD (defaultOutput o.file)

def showTree (o : Options) (files : Files m) (p : Program) (ds : List Diagnostic) : m Outcome := do
  match ← files.write o.outputPath (Program.dot p) with
  | .ok () => return .finished (textLine o.outputPath) ds
  | .error e => return .failed "" ds (.file o.outputPath e)

def runParse (o : Options) (files : Files m) (source : String) : m Outcome :=
  let report := parseSource source
  match report.result with
  | .error e => return .failed "" report.diagnostics (.parse e)
  | .ok p =>
    if o.mode = .showAst then o.showTree files p report.diagnostics
    else return .finished (textLine (Program.indentedText p)) report.diagnostics

def runSource (o : Options) (files : Files m) (source : String) : m Outcome :=
  if o.mode = .tokenize then
    return .finished (textLines ((tokenize source).map Token.lineText)) (diagnose source)
  else o.runParse files source

def run (o : Options) (files : Files m) : m Outcome := do
  if o.mode = .run then return .failed "" [] .notImplemented
  match ← files.read o.file with
  | .ok source => o.runSource files source
  | .error e => return .failed "" [] (.file o.file e)

end Options

def runCommand {m : Type → Type} [Monad m] (files : Files m) (args : List String) : m Outcome :=
  match Options.ofArguments args with
  | .ok o => o.run files
  | .error .usage => return ⟨2, "", usageText⟩
  | .error .version => return ⟨0, versionText, ""⟩
  | .error (.help full) => return ⟨0, if full then fullHelp else briefHelp, ""⟩

end LuaSyntax
