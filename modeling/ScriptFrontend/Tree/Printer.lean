import ScriptFrontend.Decimal.Layout
import ScriptFrontend.Tree

/-! # Bracketed tree text

A canonical form of a tree in which every node is bracketed, to show what the parser built.  Strings are
written as they are, so the form shows structure and is not meant to be read back.
-/

namespace ScriptFrontend

/-- Numbers in tree text are positional whatever their size, and whole ones have no point. -/
def treeNumbers : Layout := ⟨fun _ => true, ""⟩

def Value.render : Value → String
  | .nil => "nil"
  | .int value => String.ofList (Text.signedDigits value)
  | .double value => value.render treeNumbers
  | .string value => value
  | .bool value => if value then "true" else "false"

/-- An expression in tree text: operators stand before their operands. -/
def Expr.render : Expr → String
  | .binary left operator right =>
    "(" ++ operator.lexeme.text ++ " " ++ left.render ++ " " ++ right.render ++ ")"
  | .grouping inner => "(group " ++ inner.render ++ ")"
  | .literal value => value.render
  | .unary operator right => "(" ++ operator.lexeme.text ++ " " ++ right.render ++ ")"
  | .variable name => name.lexeme.text

/-- What a statement does, in tree text.  Declared and assigned names are not shown. -/
def Action.render : Action → String
  | .expression value => value.render
  | .print value => "(print " ++ value.render ++ ")"
  | .declare _ _ (some initial) => "(var " ++ initial.render ++ ")"
  | .declare _ _ none => "(var)"
  | .assign _ value => "(assign " ++ value.render ++ ")"
  | .blankLine => "\n"

def Stmt.render (statement : Stmt) : String :=
  "[Stmt " ++ statement.action.render ++ "]"

/-- The tree text of statements, one after the other. -/
def renderTree (statements : List Stmt) : String :=
  String.join (statements.map Stmt.render)

example : (Binary64.mk 0x3E7AD7F29ABCAF48).render treeNumbers = "0.0000001" := by
  decide +kernel

end ScriptFrontend
