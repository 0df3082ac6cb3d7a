import ScriptFrontend.Token

/-! # Trees

What the parser builds: expressions and statements.  Operators and names are kept as the tokens
they were read from.  A tree made by hand may hold any token there; the printer and the lowering
say what they do with it.
-/

namespace ScriptFrontend

/-- The static types.  `void` is the type of `nil` and of every expression whose type is not followed. -/
inductive Ty where
  | void | int | double | string | bool
  deriving DecidableEq, Repr, Inhabited

def Ty.name : Ty → String
  | .void => "void"
  | .int => "int"
  | .double => "double"
  | .string => "string"
  | .bool => "bool"

inductive Value where
  | nil
  | int (value : Int)
  | double (value : Binary64)
  | string (value : String)
  | bool (value : Bool)
  deriving DecidableEq, Repr, Inhabited

def Value.ty : Value → Ty
  | .nil => .void
  | .int _ => .int
  | .double _ => .double
  | .string _ => .string
  | .bool _ => .bool

inductive Expr where
  | binary (left : Expr) (operator : Token) (right : Expr)
  | grouping (inner : Expr)
  | literal (value : Value)
  | unary (operator : Token) (right : Expr)
  | variable (name : Token)
  deriving DecidableEq, Repr, Inhabited

/-- A place in a source file, by line. -/
structure Origin where
  file : String
  line : Nat
  deriving DecidableEq, Repr, Inhabited

def Token.origin (token : Token) : Origin := ⟨token.file, token.line⟩

inductive Action where
  | expression (value : Expr)
  | print (value : Expr)
  | declare (ty : Ty) (name : Token) (initial : Option Expr)
  | assign (name : Token) (value : Expr)
  -- Nothing: a blank line between statements.
  | blankLine
  deriving DecidableEq, Repr, Inhabited

/-- A statement and where its first token stands. -/
structure Stmt where
  action : Action
  origin : Origin
  deriving DecidableEq, Repr, Inhabited

end ScriptFrontend
