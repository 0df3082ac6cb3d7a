import ScriptFrontend.Decimal.Binary64
import ScriptFrontend.Symbol

/-! # Tokens

The words of the language: marks, keywords, names and literals, and two that stand for layout, a blank
line and the end of the source.  Every token keeps its lexeme, the exact text it was read from, as a
symbol.  Names are compared and printed by lexeme, so a token built by hand may well have a lexeme
that does not fit its kind.
-/

namespace ScriptFrontend

inductive Mark where
  | openParen | closeParen | openBrace | closeBrace
  | comma | dot | minus | plus | semicolon | slash | star | percent
  | bang | notEqual | equal | equalEqual | greater | greaterEqual | less | lessEqual
  deriving DecidableEq, Repr, Inhabited

def Mark.spelling : Mark → List Char
  | .openParen => ['(']
  | .closeParen => [')']
  | .openBrace => ['\x7b']
  | .closeBrace => ['\x7d']
  | .comma => [',']
  | .dot => ['.']
  | .minus => ['-']
  | .plus => ['+']
  | .semicolon => [';']
  | .slash => ['/']
  | .star => ['*']
  | .percent => ['%']
  | .bang => ['!']
  | .notEqual => ['!', '=']
  | .equal => ['=']
  | .equalEqual => ['=', '=']
  | .greater => ['>']
  | .greaterEqual => ['>', '=']
  | .less => ['<']
  | .lessEqual => ['<', '=']

/-- Reserved words.  The last four name types. -/
inductive Keyword where
  | kwAnd | kwClass | kwElse | kwFalse | kwFor | kwFun | kwIf | kwLet | kwNil | kwOr | kwPrint
  | kwReturn | kwSuper | kwThis | kwTrue | kwWhile
  | kwInt | kwDouble | kwString | kwBool
  deriving DecidableEq, Repr, Inhabited

namespace Keyword

def all : List Keyword :=
  [.kwAnd, .kwClass, .kwElse, .kwFalse, .kwFor, .kwFun, .kwIf, .kwLet, .kwNil, .kwOr, .kwPrint,
   .kwReturn, .kwSuper, .kwThis, .kwTrue, .kwWhile, .kwInt, .kwDouble, .kwString, .kwBool]

def spelling : Keyword → List Char
  | .kwAnd => ['a', 'n', 'd']
  | .kwClass => ['c', 'l', 'a', 's', 's']
  | .kwElse => ['e', 'l', 's', 'e']
  | .kwFalse => ['f', 'a', 'l', 's', 'e']
  | .kwFor => ['f', 'o', 'r']
  | .kwFun => ['f', 'u', 'n']
  | .kwIf => ['i', 'f']
  | .kwLet => ['l', 'e', 't']
  | .kwNil => ['n', 'i', 'l']
  | .kwOr => ['o', 'r']
  | .kwPrint => ['p', 'r', 'i', 'n', 't']
  | .kwReturn => ['r', 'e', 't', 'u', 'r', 'n']
  | .kwSuper => ['s', 'u', 'p', 'e', 'r']
  | .kwThis => ['t', 'h', 'i', 's']
  | .kwTrue => ['t', 'r', 'u', 'e']
  | .kwWhile => ['w', 'h', 'i', 'l', 'e']
  | .kwInt => ['i', 'n', 't']
  | .kwDouble => ['d', 'o', 'u', 'b', 'l', 'e']
  | .kwString => ['s', 't', 'r', 'i', 'n', 'g']
  | .kwBool => ['b', 'o', 'o', 'l']

def ofWord? (word : List Char) : Option Keyword :=
  all.find? fun keyword => keyword.spelling = word

theorem ofWord?_spelling (keyword : Keyword) : ofWord? keyword.spelling = some keyword := by
  cases keyword <;> decide

/-- Whether a keyword can begin a statement, which makes it a place to resume after a fault.  Some of
    these begin no statement that the language has yet. -/
def beginsStatement : Keyword → Bool
  | .kwClass | .kwFun | .kwLet | .kwFor | .kwIf | .kwWhile | .kwPrint | .kwReturn => true
  | .kwInt | .kwDouble | .kwString | .kwBool => true
  | _ => false

end Keyword

/-- What a token is.  Names carry their text and literals their value. -/
inductive TokenKind where
  | mark (mark : Mark)
  | keyword (keyword : Keyword)
  | identifier (name : String)
  | string (value : String)
  | integer (value : Int)
  | float (value : Binary64)
  -- A line that holds nothing but its terminator.
  | blankLine
  -- The end of the source.
  | finish
  deriving DecidableEq, Repr, Inhabited

/-- A token and where its first character stands. -/
structure Token where
  kind : TokenKind
  lexeme : Symbol
  file : String
  line : Nat
  deriving DecidableEq, Repr, Inhabited

inductive LiteralValue where
  | int (value : Int)
  | float (value : Binary64)
  | string (value : String)
  | bool (value : Bool)
  deriving DecidableEq, Repr

/-- The value of a literal token.  `nil` has none. -/
def Token.literal? (token : Token) : Option LiteralValue :=
  match token.kind with
  | .integer value => some (.int value)
  | .float value => some (.float value)
  | .string value => some (.string value)
  | .keyword .kwTrue => some (.bool true)
  | .keyword .kwFalse => some (.bool false)
  | _ => none

end ScriptFrontend
