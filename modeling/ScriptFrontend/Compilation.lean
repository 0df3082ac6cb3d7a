import ScriptFrontend.Build
import ScriptFrontend.Host.Lowering
import ScriptFrontend.Parser
import ScriptFrontend.Tree.Printer

/-! # Compilation

The stages one after the other: scan, parse, and then print the tree, lower it, or lower it and build.
The first stage that reports anything is the last one to run, and its diagnostics alone are given.
-/

namespace ScriptFrontend

inductive CompileError where
  | lexical (diagnostics : List Diagnostic)
  | parse (diagnostics : List Diagnostic)
  | backend (diagnostics : List Diagnostic)
  -- The tree of a parse without reports could not be lowered.  This does not happen.
  | lowering (fault : LoweringFault)
  deriving DecidableEq, Repr

namespace CompileError

/-- The diagnostics of the stage that stopped. -/
def diagnostics : CompileError → List Diagnostic
  | .lexical diagnostics | .parse diagnostics | .backend diagnostics => diagnostics
  | .lowering _ => []

/-- The count of errors after the name of what failed. -/
def failedWith (what : String) (diagnostics : List Diagnostic) : String :=
  what ++ " failed with " ++ String.ofList (Text.digits diagnostics.length) ++ " error(s)"

def message : CompileError → String
  | .lexical diagnostics => failedWith "scanning" diagnostics
  | .parse diagnostics => failedWith "parsing" diagnostics
  | .backend diagnostics => failedWith "backend compilation" diagnostics
  | .lowering fault => fault.message

end CompileError

/-- Scans and parses a text, and gives its statements if nothing was reported. -/
def frontEnd (text file : String) : Except CompileError (List Stmt) :=
  let scanned := scan ⟨file, 0⟩ text
  if scanned.errors ≠ [] then .error (.lexical (scanned.errors.map LexicalError.toDiagnostic))
  else
    let parsed := parse scanned.tokens
    if parsed.reports ≠ [] then .error (.parse (parsed.reports.map Report.toDiagnostic))
    else .ok parsed.statements

def printTree (text file : String) : Except CompileError String :=
  (frontEnd text file).map renderTree

def emit (text file : String) : Except CompileError Host.Program := do
  let statements ← frontEnd text file
  (lower file statements).mapError .lowering

/-- Builds a script with a backend.  The backend is asked only if there is a program, and the messages
    of a verdict against it become the diagnostics. -/
def compile {σ : Type} (backend : Backend σ) (request : BuildRequest) (text file : String) :
    StateM σ (Except CompileError Verdict) := do
  match emit text file with
  | .error error => return .error error
  | .ok program =>
    let verdict ← backend.build program request
    if verdict.success then return .ok verdict
    else return .error (.backend (verdict.messages.map Diagnostic.compile))

end ScriptFrontend
