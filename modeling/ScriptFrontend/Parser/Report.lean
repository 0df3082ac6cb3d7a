import ScriptFrontend.Diagnostic
import ScriptFrontend.Scope

/-! # Reports of the parser

The parser reports two things: tokens that do not fit the grammar, which cost the statement, and misuse
of variables, which does not.  Each report points at a token.
-/

namespace ScriptFrontend

/-- What a terminating semicolon ends. -/
inductive Phrase where
  | declaration | assignment | value | expression
  deriving DecidableEq, Repr

def Phrase.name : Phrase → String
  | .declaration => "variable declaration"
  | .assignment => "assignment"
  | .value => "value"
  | .expression => "expression"

/-- How a token can fail to fit the grammar. -/
inductive GrammarFault where
  | expectedName
  | expectedCloseParen
  | expectedSemicolon (after : Phrase)
  | expectedExpression
  | unexpectedCloseParen
  deriving DecidableEq, Repr

def GrammarFault.message : GrammarFault → String
  | .expectedName => "Expect variable name."
  | .expectedCloseParen => "Expect ')' after expression."
  | .expectedSemicolon after => "Expect ';' after " ++ after.name ++ "."
  | .expectedExpression => "Expect expression."
  | .unexpectedCloseParen => "Unexpected ')'."

/-- Something that the parser has to say about a token. -/
inductive Report where
  | grammar (fault : GrammarFault) (token : Token)
  | binding (error : BindingError) (token : Token)
  deriving DecidableEq, Repr

namespace Report

def toDiagnostic : Report → Diagnostic
  | .grammar fault token => .parse token fault.message
  | .binding error token => .parse token error.message

/-- The report of a check, if it failed. -/
def ofCheck {α : Type} (token : Token) : Except BindingError α → List Report
  | .ok _ => []
  | .error error => [.binding error token]

end Report

end ScriptFrontend
