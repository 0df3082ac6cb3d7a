import ScriptFrontend.Tree

/-! # Host programs

The program that a script becomes: one class of a C-family host language, with a single entry routine
that runs the statements in order.  A host program owns all its text and no longer refers to tokens.
-/

namespace ScriptFrontend.Host

inductive Constant where
  | null
  | int (value : Int)
  | float (value : Binary64)
  | string (value : String)
  | bool (value : Bool)
  deriving DecidableEq, Repr, Inhabited

inductive Primitive where
  | int64 | float64 | string | bool
  deriving DecidableEq, Repr, Inhabited

def Primitive.keyword : Primitive → String
  | .int64 => "long"
  | .float64 => "double"
  | .string => "string"
  | .bool => "bool"

inductive BinaryOp where
  | add | sub | mul | div | mod | eq | ne | lt | le | gt | ge
  deriving DecidableEq, Repr, Inhabited

namespace BinaryOp

/-- How tightly an operator binds.  Unlike in scripts, `%` shares the level of `*` and `/`. -/
def precedence : BinaryOp → Nat
  | .eq | .ne => 1
  | .lt | .le | .gt | .ge => 2
  | .add | .sub => 3
  | .mul | .div | .mod => 4

def symbol : BinaryOp → String
  | .add => "+"
  | .sub => "-"
  | .mul => "*"
  | .div => "/"
  | .mod => "%"
  | .eq => "=="
  | .ne => "!="
  | .lt => "<"
  | .le => "<="
  | .gt => ">"
  | .ge => ">="

end BinaryOp

inductive PrefixOp where
  | neg | not
  deriving DecidableEq, Repr, Inhabited

def PrefixOp.symbol : PrefixOp → String
  | .neg => "-"
  | .not => "!"

inductive Builtin where
  | write
  deriving DecidableEq, Repr, Inhabited

def Builtin.path : Builtin → String
  | .write => "Console.WriteLine"

/-- Expressions.  Parentheses of the script are kept as nodes of their own. -/
inductive Expr where
  | binary (operator : BinaryOp) (left right : Expr)
  | parenthesized (inner : Expr)
  | literal (constant : Constant)
  | prefixed (operator : PrefixOp) (operand : Expr)
  | name (text : String)
  | assign (target : String) (value : Expr)
  | invoke (routine : Builtin) (arguments : List Expr)
  deriving Repr, Inhabited

inductive Action where
  | declare (ty : Primitive) (name : String) (initial : Option Expr)
  | expression (value : Expr)
  | empty
  deriving Repr, Inhabited

/-- A statement, and the place in the script that it came from, if there is one. -/
structure Stmt where
  action : Action
  origin : Option Origin
  deriving Repr, Inhabited

/-- A routine without parameters. -/
structure Routine where
  name : String
  body : List Stmt
  deriving Repr, Inhabited

/-- A program: its imports, and a class with an entry routine. -/
structure Program where
  -- The script that the program was lowered from.
  file : String
  imports : List String
  className : String
  entry : Routine
  deriving Repr, Inhabited

end ScriptFrontend.Host
