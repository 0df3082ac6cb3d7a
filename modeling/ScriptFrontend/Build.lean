import ScriptFrontend.Host.Render

/-! # Backends

What turns a host program into something that runs is outside this library.  A `Backend` is the seam to
it: a state, and an action on that state which answers a program and a request with a verdict.
-/

namespace ScriptFrontend

/-- A file path.  The bytes need not be text. -/
structure Path where
  bytes : List UInt8
  deriving DecidableEq, Repr, Inhabited

structure BuildRequest where
  -- Libraries for the backend, in order.
  references : List Path
  output : Path
  deriving DecidableEq, Repr, Inhabited

/-- The answer of a backend.  Its messages are shown as they are. -/
structure Verdict where
  success : Bool
  messages : List String
  -- The files that were written.
  artifacts : List Path
  deriving DecidableEq, Repr, Inhabited

/-- A backend with state `σ`. -/
structure Backend (σ : Type) where
  build : Host.Program → BuildRequest → StateM σ Verdict
  -- A program as the backend would show it.
  render : Host.Program → String := Host.Program.render

/-- A backend that builds nothing and keeps the text of the last program. -/
def renderBackend : Backend (Option String) where
  build program _ := do
    set (some program.render)
    return ⟨true, [], []⟩

end ScriptFrontend
