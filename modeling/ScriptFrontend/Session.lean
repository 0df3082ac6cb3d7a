import ScriptFrontend.Compilation

/-! # Sessions

A session runs the stages one at a time and by hand.  It holds a token buffer, into which any number of
texts may be scanned, the tree that was parsed last, and all diagnostics since it began.  Stages run
whether or not something was reported before.

Each text is scanned with a table of its own, so that a name of one text is never a name of another.
-/

namespace ScriptFrontend

structure Session where
  tokens : List Token
  tree : List Stmt
  diagnostics : List Diagnostic
  -- How many texts have been scanned, which is also the next free table.
  scans : Nat
  deriving DecidableEq, Repr, Inhabited

namespace Session

def start : Session := ⟨[], [], [], 0⟩

def report (session : Session) (diagnostics : List Diagnostic) : Session :=
  { session with diagnostics := session.diagnostics ++ diagnostics }

/-- Scans a text and adds its tokens, the end mark among them, to the buffer. -/
def scan (session : Session) (file text : String) : Session :=
  let scanned := ScriptFrontend.scan ⟨file, session.scans⟩ text
  { session with tokens := session.tokens ++ scanned.tokens, scans := session.scans + 1 }.report
    (scanned.errors.map LexicalError.toDiagnostic)

def clear (session : Session) : Session :=
  { session with tokens := [] }

/-- Takes the last token off the buffer. -/
def pop (session : Session) : Option Token × Session :=
  (session.tokens.getLast?, { session with tokens := session.tokens.dropLast })

/-- Keeps the tokens from one index up to another, not including it.  Indices beyond the buffer stand
    for its end. -/
def keep (session : Session) (first last : Nat) : Session :=
  { session with tokens := (session.tokens.take last).drop first }

/-- Parses the buffer, with no variable declared, into the tree. -/
def parse (session : Session) : Session :=
  let parsed := ScriptFrontend.parse session.tokens
  { session with tree := parsed.statements }.report (parsed.reports.map Report.toDiagnostic)

def print (session : Session) : String := renderTree session.tree

def lower (session : Session) (file : String) : Except LoweringFault Host.Program :=
  ScriptFrontend.lower file session.tree

end Session

end ScriptFrontend
