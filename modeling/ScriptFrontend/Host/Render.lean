import ScriptFrontend.Decimal.Layout
import ScriptFrontend.Host
import ScriptFrontend.Text.Escape

/-! # Host text

How host programs are written.  Parentheses are added only where the tree could otherwise be read
differently: binary operators associate to the left, so a right operand of equal strength is
parenthesized and a left one is not; and an operand that begins with the sign of its own prefix operator
is parenthesized, because `--x` would be read as a decrement.
-/

namespace ScriptFrontend.Host

/-- Numbers in host text have a point when they are written without an exponent, which is from a
    ten-thousandth up to below ten to the sixteenth. -/
def numbers : Layout := ⟨fun exponent => -4 ≤ exponent ∧ exponent < 16, ".0"⟩

def Constant.render : Constant → String
  | .null => "null"
  | .int value => String.ofList (Text.signedDigits value)
  | .float value => value.render numbers
  | .string value => String.ofList (Text.quote value.toList)
  | .bool value => if value then "true" else "false"

def prefixPrecedence : Nat := 5

def Expr.precedence : Expr → Nat
  | .assign .. => 0
  | .binary operator .. => operator.precedence
  | .prefixed .. => prefixPrecedence
  | .parenthesized _ | .literal _ | .name _ | .invoke .. => 6

/-- A text, in parentheses if they are needed. -/
def parenthesizeIf (needed : Bool) (text : String) : String :=
  if needed then "(" ++ text ++ ")" else text

def beginsWith (text start : String) : Bool :=
  start.toList.isPrefixOf text.toList

mutual

def Expr.render : Expr → String
  | .binary operator left right =>
    parenthesizeIf (left.precedence < operator.precedence) left.render ++
      " " ++ operator.symbol ++ " " ++
      parenthesizeIf (right.precedence ≤ operator.precedence) right.render
  | .parenthesized inner => "(" ++ inner.render ++ ")"
  | .literal constant => constant.render
  | .prefixed operator operand =>
    let text := operand.render
    operator.symbol ++
      parenthesizeIf (operand.precedence < prefixPrecedence || beginsWith text operator.symbol) text
  | .name text => text
  | .assign target value => target ++ " = " ++ value.render
  | .invoke routine arguments => routine.path ++ "(" ++ renderArguments arguments ++ ")"

/-- Arguments in host text, with commas between them. -/
def renderArguments : List Expr → String
  | [] => ""
  | [argument] => argument.render
  | argument :: rest => argument.render ++ ", " ++ renderArguments rest

end

def Action.render : Action → String
  | .declare ty name none => ty.keyword ++ " " ++ name ++ ";"
  | .declare ty name (some initial) => ty.keyword ++ " " ++ name ++ " = " ++ initial.render ++ ";"
  | .expression value => value.render ++ ";"
  | .empty => ""

def Stmt.line (statement : Stmt) : String :=
  match statement.action with
  | .empty => ""
  | action => "        " ++ action.render

/-- The lines of a program.  Imports are set off by an empty line. -/
def Program.lines (program : Program) : List String :=
  program.imports.map (fun name => "using " ++ name ++ ";") ++
    (if program.imports.isEmpty then [] else [""]) ++
    ["class " ++ program.className, "\x7b",
     "    public static void " ++ program.entry.name ++ "()", "    \x7b"] ++
    program.entry.body.map Stmt.line ++
    ["    \x7d", "\x7d"]

/-- A program in host text.  Every line is ended by a line feed. -/
def Program.render (program : Program) : String :=
  String.join (program.lines.map fun line => line ++ "\n")

end ScriptFrontend.Host
