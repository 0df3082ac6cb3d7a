import ScriptFrontend.CommandLine

/-! # The program

Reads variables, arguments and one file, and prints what `CommandLine` makes of them.
-/

namespace ScriptFrontend.CommandLine

def readVariables : IO Variables := do
  let read (name : String) : IO (Option (List UInt8)) := do
    return (← IO.getEnv name).map Text.Utf8.encode
  return ⟨← read "VENA_REFERENCES", ← read "VENA_OUTPUT", ← read "VENA_LOG"⟩

def readBytes (file : String) : IO (Except ReadError (List UInt8)) := do
  try
    let bytes ← IO.FS.readBinFile file
    return .ok bytes.toList
  catch error =>
    match error with
    | .noFileOrDirectory .. => return .error .notFound
    | other => return .error (.other (toString other))

/-- Prints an outcome and gives its exit code. -/
def finish (outcome : Outcome) : IO UInt32 := do
  (← IO.getStdout).putStr outcome.output
  (← IO.getStderr).putStr outcome.errors
  return outcome.code.toUInt32

/-- Plans, reads the file, performs, and prints. -/
def execute (arguments : List String) : IO UInt32 := do
  match plan (← readVariables) arguments with
  | .error error => finish (refuse error)
  | .ok plan => finish (perform plan (← readBytes plan.file))

end ScriptFrontend.CommandLine

def main (arguments : List String) : IO UInt32 :=
  ScriptFrontend.CommandLine.execute arguments
