import LuaSyntax.Command.Run

/-!
The program itself.
-/
namespace LuaSyntax

/-- The number of an error, which some operations give negated. -/
def errorNumber (code : UInt32) : UInt32 := min code (-code)

def fileError : IO.Error → FileError
  | .noFileOrDirectory _ _ _ => .notFound
  | .inappropriateType _ code _ =>
    if errorNumber code = 21 then .isDirectory else .notDirectory
  | .invalidArgument _ code details =>
    if errorNumber code = 36 then .nameTooLong else .other details
  | .permissionDenied _ code _ =>
    .other (if errorNumber code = 13 then "Permission denied (os error 13)"
      else "Operation not permitted (os error 1)")
  | e => .other (toString e)

/-- The files of the machine. -/
def machineFiles : Files IO where
  read path := do
    try
      match String.fromUTF8? (← IO.FS.readBinFile path) with
      | some s => return .ok s
      | none => return .error .notText
    catch e => return .error (fileError e)
  write path text := do
    try
      IO.FS.writeFile path text
      return .ok ()
    catch e => return .error (fileError e)

end LuaSyntax

def main (args : List String) : IO UInt32 := do
  let outcome ← LuaSyntax.runCommand LuaSyntax.machineFiles args
  IO.print outcome.stdout
  IO.eprint outcome.stderr
  return outcome.exit.toUInt32
