import ScriptFrontend.Host

/-! # Lowering

A statement tree becomes a host program, statement by statement.  Lowering checks nothing that the
parser has checked.  It can fail only on a tree that no parse gives: one with a token that is no
operator where an operator belongs, or with a variable of type `void`.
-/

namespace ScriptFrontend

/-- Why a tree has no host program. -/
inductive LoweringFault where
  | notBinaryOperator (lexeme : String)
  | notPrefixOperator (lexeme : String)
  | voidVariable
  deriving DecidableEq, Repr

def LoweringFault.message : LoweringFault → String
  | .notBinaryOperator lexeme => "Compiler bug: '" ++ lexeme ++ "' is not a binary operator"
  | .notPrefixOperator lexeme => "Compiler bug: '" ++ lexeme ++ "' is not a prefix operator"
  | .voidVariable => "Compiler bug: variables are never declared void"

/-- The host operator of a mark between two operands. -/
def Mark.binaryOp? : Mark → Option Host.BinaryOp
  | .plus => some .add
  | .minus => some .sub
  | .star => some .mul
  | .slash => some .div
  | .percent => some .mod
  | .equalEqual => some .eq
  | .notEqual => some .ne
  | .less => some .lt
  | .lessEqual => some .le
  | .greater => some .gt
  | .greaterEqual => some .ge
  | _ => none

def Mark.prefixOp? : Mark → Option Host.PrefixOp
  | .minus => some .neg
  | .bang => some .not
  | _ => none

/-- The host operator of a token between two operands; its kind decides. -/
def Token.binaryOp (token : Token) : Except LoweringFault Host.BinaryOp :=
  let operator := match token.kind with
    | .mark m => m.binaryOp?
    | _ => none
  match operator with
  | some operator => .ok operator
  | none => .error (.notBinaryOperator token.lexeme.text)

def Token.prefixOp (token : Token) : Except LoweringFault Host.PrefixOp :=
  let operator := match token.kind with
    | .mark m => m.prefixOp?
    | _ => none
  match operator with
  | some operator => .ok operator
  | none => .error (.notPrefixOperator token.lexeme.text)

def Ty.lower : Ty → Except LoweringFault Host.Primitive
  | .int => .ok .int64
  | .double => .ok .float64
  | .string => .ok .string
  | .bool => .ok .bool
  | .void => .error .voidVariable

def Value.lower : Value → Host.Constant
  | .nil => .null
  | .int value => .int value
  | .double value => .float value
  | .string value => .string value
  | .bool value => .bool value

/-- The host expression of an expression.  Operators are looked at before operands, and operands from
    left to right. -/
def Expr.lower : Expr → Except LoweringFault Host.Expr
  | .binary left operator right => do
    let operator ← operator.binaryOp
    let left ← left.lower
    let right ← right.lower
    return .binary operator left right
  | .grouping inner => do
    let inner ← inner.lower
    return .parenthesized inner
  | .literal value => .ok (.literal value.lower)
  | .unary operator right => do
    let operator ← operator.prefixOp
    let operand ← right.lower
    return .prefixed operator operand
  | .variable name => .ok (.name name.lexeme.text)

def Action.lower : Action → Except LoweringFault Host.Action
  | .expression value => do
    let value ← value.lower
    return .expression value
  | .print value => do
    let value ← value.lower
    return .expression (.invoke .write [value])
  | .declare ty name none => do
    let ty ← ty.lower
    return .declare ty name.lexeme.text none
  | .declare ty name (some initial) => do
    let ty ← ty.lower
    let initial ← initial.lower
    return .declare ty name.lexeme.text (some initial)
  | .assign name value => do
    let value ← value.lower
    return .expression (.assign name.lexeme.text value)
  | .blankLine => .ok .empty

def Stmt.lower (statement : Stmt) : Except LoweringFault Host.Stmt := do
  let action ← statement.action.lower
  return ⟨action, some statement.origin⟩

def hostClass : String := "VenaProgram"

def entryRoutine : String := "Main"

/-- The host program of a tree, one host statement for each statement. -/
def lower (file : String) (statements : List Stmt) : Except LoweringFault Host.Program := do
  let body ← statements.mapM Stmt.lower
  return ⟨file, ["System"], hostClass, ⟨entryRoutine, body⟩⟩

end ScriptFrontend
