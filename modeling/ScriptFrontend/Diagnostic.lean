import ScriptFrontend.Token.Scan

/-! # Diagnostics

What is shown to the user about a fault, whichever stage found it.  The stages have error types of their
own; a diagnostic is their common form, with the wording done.
-/

namespace ScriptFrontend

inductive Stage where
  | lexical | parse | compile
  deriving DecidableEq, Repr

/-- Where on its line a diagnostic of the parser points. -/
inductive Pointer where
  | lexeme (text : String)
  | finish
  deriving DecidableEq, Repr

/-- A message about the program, with its coordinates. -/
structure Diagnostic where
  stage : Stage
  file : String
  line : Nat
  pointer : Option Pointer
  message : String
  deriving DecidableEq, Repr

namespace Diagnostic

def lexical (file : String) (line : Nat) (message : String) : Diagnostic :=
  ⟨.lexical, file, line, none, message⟩

/-- A diagnostic of the parser, which points at a token. -/
def parse (token : Token) (message : String) : Diagnostic :=
  let pointer := match token.kind with
    | .finish => .finish
    | _ => .lexeme token.lexeme.text
  ⟨.parse, token.file, token.line, some pointer, message⟩

/-- A diagnostic of the backend.  Its text is opaque, so it has no coordinates. -/
def compile (message : String) : Diagnostic :=
  ⟨.compile, "", 0, none, message⟩

def pointerText : Option Pointer → String
  | some (.lexeme text) => " at '" ++ text ++ "'"
  | some .finish => " at end"
  | none => ""

/-- The line that the user sees. -/
def render (diagnostic : Diagnostic) : String :=
  let place := "[" ++ diagnostic.file ++ " line " ++
    String.ofList (Text.digits diagnostic.line) ++ "] "
  match diagnostic.stage with
  | .lexical => place ++ "Lexical Error: " ++ diagnostic.message
  | .parse => place ++ "Parse Error" ++ pointerText diagnostic.pointer ++ ": " ++ diagnostic.message
  | .compile => diagnostic.message

end Diagnostic

def LexicalError.toDiagnostic (error : LexicalError) : Diagnostic :=
  .lexical error.file error.line error.fault.message

end ScriptFrontend
