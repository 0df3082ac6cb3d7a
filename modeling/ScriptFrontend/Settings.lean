import ScriptFrontend.Build
import ScriptFrontend.Text.Digits
import ScriptFrontend.Text.Utf8

/-! # Settings

What the environment says about a build.  Three variables are read, and each may be missing: a list of
libraries with colons between them, the path of the output, and the level of detail of the log.
-/

namespace ScriptFrontend

inductive LogLevel where
  | error | warn | info | debug | trace
  deriving DecidableEq, Repr, Inhabited

namespace LogLevel

def all : List LogLevel := [.error, .warn, .info, .debug, .trace]

def name : LogLevel → String
  | .error => "ERROR"
  | .warn => "WARN"
  | .info => "INFO"
  | .debug => "DEBUG"
  | .trace => "TRACE"

/-- The number that a text spells: digits, after a plus sign if there is one, for a number of at
    most sixty-four bits. -/
def number? (text : List Char) : Option Nat :=
  let digits := match text with
    | '+' :: rest => rest
    | _ => text
  if digits ≠ [] ∧ digits.all Char.isDigit ∧ Text.digitsValue digits < 0x10000000000000000 then
    some (Text.digitsValue digits)
  else none

/-- The level of a text: its number, or its name in letters of either case. -/
def ofText? (text : String) : Option LogLevel :=
  let byName := all.find? fun level => level.name = String.ofList (text.toList.map Char.toUpper)
  match number? text.toList with
  | some (position + 1) => all[position]?.or byName
  | _ => byName

end LogLevel

namespace Path

def ofText (text : String) : Path := ⟨Text.Utf8.encode text⟩

/-- Whether a path begins at the root. -/
def isAbsolute (path : Path) : Bool := path.bytes.head? = some '/'.toUInt8

/-- The parts of a path between slashes.  Repeated slashes count once, and so does a part that is a
    single dot, unless the path begins with it. -/
def components (path : Path) : List (List UInt8) :=
  match path.bytes.splitBy (fun a b => a ≠ '/'.toUInt8 ∧ b ≠ '/'.toUInt8) with
  | [] => []
  | head :: rest =>
    (if head = ['/'.toUInt8] then [] else [head]) ++
      rest.filter fun part => part ≠ ['/'.toUInt8] ∧ part ≠ ['.'.toUInt8]

/-- Whether two paths have the same parts. -/
def agrees (left right : Path) : Bool :=
  left.isAbsolute = right.isAbsolute ∧ left.components = right.components

end Path

/-- What a build is told by its environment. -/
structure Settings where
  references : List Path
  output : Path
  logLevel : LogLevel
  deriving DecidableEq, Repr, Inhabited

/-- The variables of the environment, as bytes. -/
structure Variables where
  references : Option (List UInt8)
  output : Option (List UInt8)
  logLevel : Option (List UInt8)

inductive SettingsError where
  | notALogLevel (text : String)
  deriving DecidableEq, Repr

def SettingsError.message : SettingsError → String
  | .notALogLevel text => "VENA_LOG: '" ++ text ++ "' is not a log level"

namespace Settings

def standard : Settings := ⟨[], Path.ofText "a.out", .warn⟩

/-- The paths of a list with colons between them.  Empty ones are left out. -/
def splitPaths (bytes : List UInt8) : List Path :=
  ((bytes.splitOn ':'.toUInt8).filter (· ≠ [])).map Path.mk

/-- The log level of a variable.  Bytes that are no text are replaced first. -/
def readLogLevel (bytes : List UInt8) : Except SettingsError LogLevel :=
  let text := Text.Utf8.decodeLossy bytes
  match LogLevel.ofText? text with
  | some level => .ok level
  | none => .error (.notALogLevel text)

def ofVariables (environment : Variables) : Except SettingsError Settings := do
  let logLevel ← match environment.logLevel with
    | some bytes => readLogLevel bytes
    | none => .ok standard.logLevel
  return {
    references := (environment.references.map splitPaths).getD standard.references
    output := (environment.output.map Path.mk).getD standard.output
    logLevel }

/-- The request that the settings make of a backend. -/
def buildRequest (settings : Settings) : BuildRequest :=
  ⟨settings.references, settings.output⟩

/-- Whether settings say nothing beyond the standard ones. -/
def isStandard (settings : Settings) : Bool :=
  settings.references = standard.references && settings.output.agrees standard.output &&
    settings.logLevel = standard.logLevel

end Settings

end ScriptFrontend
