import ScriptFrontend.Tree

/-! # Expressions under construction

While an expression is read, what has been read of it and is not finished lies on a stack of frames,
innermost first: a left operand with its operator, a prefix operator, an open parenthesis.  When an
operand is complete, `Frame.collapse` gives it to the frames that bind at least as tightly as what comes
next; equal levels collapse too, which makes the binary operators associate to the left.
-/

namespace ScriptFrontend

inductive Level where
  | equality | comparison | additive | multiplicative | modulus
  deriving DecidableEq, Repr

/-- How tightly a level binds.  `%` binds more tightly than `*` and `/`. -/
def Level.strength : Level → Nat
  | .equality => 1
  | .comparison => 2
  | .additive => 3
  | .multiplicative => 4
  | .modulus => 5

/-- The level of a mark between two operands. -/
def Mark.level? : Mark → Option Level
  | .equalEqual | .notEqual => some .equality
  | .less | .lessEqual | .greater | .greaterEqual => some .comparison
  | .plus | .minus => some .additive
  | .star | .slash => some .multiplicative
  | .percent => some .modulus
  | _ => none

def TokenKind.level? : TokenKind → Option Level
  | .mark m => m.level?
  | _ => none

/-- The value of a literal token where an operand is due. -/
def TokenKind.value? : TokenKind → Option Value
  | .keyword .kwFalse => some (.bool false)
  | .keyword .kwTrue => some (.bool true)
  | .keyword .kwNil => some .nil
  | .float value => some (.double value)
  | .integer value => some (.int value)
  | .string value => some (.string value)
  | _ => none

/-- Something begun that waits for an operand. -/
inductive Frame where
  | binary (left : Expr) (operator : Token) (level : Level)
  | unary (operator : Token)
  | group
  deriving DecidableEq, Repr

/-- Gives an operand to the frames around it, as long as they bind with at least the given strength.
    Prefix operators bind with any; an open parenthesis ends the walk. -/
def Frame.collapse (strength : Nat) (operand : Expr) : List Frame → Expr × List Frame
  | .unary operator :: frames => collapse strength (.unary operator operand) frames
  | .binary left operator level :: frames =>
    if strength ≤ level.strength then collapse strength (.binary left operator operand) frames
    else (operand, .binary left operator level :: frames)
  | .group :: frames => (operand, .group :: frames)
  | [] => (operand, [])

end ScriptFrontend
