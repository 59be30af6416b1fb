/-
The program: takes the arguments, reads the one file a check needs, prints, and ends with the status of the outcome.
-/
import AccessRules.CommandLine

open AccessRules

/-- whether an error has a number; some errors carry it with its sign turned -/
def hasNumber (code number : UInt32) : Bool := code == number || code == 0 - number

/-- why the system did not give the contents of a file -/
def readErrorOf : IO.Error → ReadError
  | .noFileOrDirectory .. => .notFound
  | .noSuchThing .. => .notFound
  | .permissionDenied .. => .permissionDenied
  | .inappropriateType _ code _ => if hasNumber code 20 then .notDirectory else .isDirectory
  | .invalidArgument _ code details => if hasNumber code 36 then .nameTooLong else .other details
  | e => .other (toString e)

/-- the contents of a file -/
def readContents (path : String) : IO (Except ReadError ByteArray) := do
  try
    return .ok (← IO.FS.readBinFile path)
  catch e =>
    return .error (readErrorOf e)

/-- print an outcome -/
def report (o : CommandLine.Outcome) : IO UInt32 := do
  let out ← IO.getStdout
  out.putStr o.stdout
  out.flush
  for message in o.errors do
    IO.eprintln message
  return o.status.toUInt32

/-- how the program is called -/
def usage : String := "usage: tokenize|parse|names|check RULE [--bindings FILE] [--format text|json]"

def main (args : List String) : IO UInt32 := do
  match CommandLine.Command.ofArguments args with
  | .error .refused =>
    IO.eprintln usage
    report .refused
  | .error .help =>
    IO.println usage
    report .helped
  | .ok command =>
    match command.file? with
    | none => report (command.run fun _ => .error .notFound)
    | some path =>
      let contents ← readContents path
      report (command.run fun _ => contents)
