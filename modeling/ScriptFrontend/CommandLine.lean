import ScriptFrontend.Compilation
import ScriptFrontend.Settings

/-! # Command line

What the program does with its variables, its arguments and the file they name.  It takes two steps,
between which the file is read: `plan` decides what is to be done, and `perform` does it.  Both are
pure; reading and printing are left to the caller.
-/

namespace ScriptFrontend.CommandLine

/-- What is made of a script. -/
inductive Mode where
  | tree | emit | compile
  deriving DecidableEq, Repr

/-- Why there is nothing to do. -/
inductive UsageError where
  | settings (error : SettingsError)
  | missingFile
  | unknownOption (option : String)
  deriving DecidableEq, Repr

def UsageError.message : UsageError → String
  | .settings error => error.message
  | .missingFile => "usage: vena <file> [--tree | --emit | --compile]"
  | .unknownOption option => "unknown option '" ++ option ++ "'"

inductive ReadError where
  | notFound
  | notText
  | other (reason : String)
  deriving DecidableEq, Repr

def ReadError.message : ReadError → String
  | .notFound => "No such file or directory (os error 2)"
  | .notText => "stream did not contain valid UTF-8"
  | .other reason => reason

structure Plan where
  settings : Settings
  file : String
  mode : Mode
  deriving DecidableEq, Repr

/-- What is printed, and the exit code. -/
structure Outcome where
  output : String
  errors : String
  code : UInt8
  deriving DecidableEq, Repr

/-- The mode that an option asks for; without one the program is emitted. -/
def mode : Option String → Except UsageError Mode
  | none => .ok .emit
  | some option =>
    if option = "--emit" then .ok .emit
    else if option = "--tree" then .ok .tree
    else if option = "--compile" then .ok .compile
    else .error (.unknownOption option)

/-- What variables and arguments ask for.  The variables are looked at first, then the file, then the
    option; further arguments are ignored. -/
def plan (environment : Variables) (arguments : List String) : Except UsageError Plan := do
  let settings ← (Settings.ofVariables environment).mapError .settings
  match arguments with
  | [] => .error .missingFile
  | file :: options =>
    let mode ← mode options.head?
    return ⟨settings, file, mode⟩

/-- Runs the stages that a plan asks for on the text of its file. -/
def produce (plan : Plan) (text : String) : Except CompileError String :=
  match plan.mode with
  | .tree => printTree text plan.file
  | .emit => (emit text plan.file).map Host.Program.render
  | .compile =>
    let (result, last) :=
      (compile renderBackend plan.settings.buildRequest text plan.file).run none
    result.map fun _ => last.getD ""

/-- The end of a run that could not begin. -/
def failure (message : String) : Outcome := ⟨"", "Error: " ++ message ++ "\n", 1⟩

def refuse (error : UsageError) : Outcome := failure error.message

def unreadable (file : String) (error : ReadError) : Outcome :=
  failure ("reading " ++ file ++ "\n\nCaused by:\n    " ++ error.message)

/-- The end of a compilation: its result as it is, or each diagnostic on a line and the reason last. -/
def report : Except CompileError String → Outcome
  | .ok output => ⟨output, "", 0⟩
  | .error error =>
    ⟨"", String.join (error.diagnostics.map fun diagnostic => diagnostic.render ++ "\n") ++
      error.message ++ "\n", 1⟩

/-- Carries out a plan with what reading its file gave. -/
def perform (plan : Plan) (content : Except ReadError (List UInt8)) : Outcome :=
  match content with
  | .error error => unreadable plan.file error
  | .ok bytes =>
    match Text.Utf8.decode? bytes with
    | none => unreadable plan.file .notText
    | some text => report (produce plan text)

end ScriptFrontend.CommandLine
