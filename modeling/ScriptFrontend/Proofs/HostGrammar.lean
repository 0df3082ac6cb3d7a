import ScriptFrontend.Decimal.Shortest
import ScriptFrontend.Host
import ScriptFrontend.Text.Blank
import ScriptFrontend.Text.Digits
import ScriptFrontend.Text.Escape
import ScriptFrontend.Token.Piece

/-! # The language of host text

How a reader of the C family takes host text, said without the renderer: first its lexemes, each as
long as it can be, and then the expressions that lexemes derive.

* `lex` — two minus signs are one lexeme, which no expression holds; integers have no bound; a number
  with a point or an exponent is a float.
* `Reads` — expressions by tiers.  Tier 0 is assignment, 1 equality, 2 comparison, 3 addition, 4
  multiplication with division and remainder, 5 the prefix operators and 6 what binds by itself.
-/

namespace ScriptFrontend.Host

/-! ## Lexemes -/

inductive Lexeme where
  | word (text : String)
  | integer (value : Nat)
  | float (value : Decimal)
  | string (value : String)
  | mark (mark : Mark)
  -- Two minus signs.
  | decrement
  deriving DecidableEq, Repr

namespace Lexer

/-- The digits after a point, if a digit follows it, and what comes after them. -/
def fraction : List Char → List Char × List Char
  | '.' :: d :: rest =>
    if d.isDigit then (d :: rest.takeWhile Char.isDigit, rest.dropWhile Char.isDigit)
    else ([], '.' :: d :: rest)
  | text => ([], text)

/-- The digits of an exponent as a number, if there are any, and what comes after them. -/
def exponentDigits (signed : Nat → Int) (text : List Char) : Option (Int × List Char) :=
  match text.takeWhile Char.isDigit with
  | [] => none
  | digits => some (signed (Text.digitsValue digits), text.dropWhile Char.isDigit)

def exponent? : List Char → Option (Int × List Char)
  | 'e' :: '-' :: rest | 'E' :: '-' :: rest => exponentDigits (fun n => -n) rest
  | 'e' :: '+' :: rest | 'E' :: '+' :: rest => exponentDigits (fun n => n) rest
  | 'e' :: rest | 'E' :: rest => exponentDigits (fun n => n) rest
  | _ => none

/-- The number at the head of a text that begins with a digit, and what comes after it. -/
def number (text : List Char) : Lexeme × List Char :=
  let whole := text.takeWhile Char.isDigit
  let (places, rest) := fraction (text.dropWhile Char.isDigit)
  let digits := Text.digitsValue (whole ++ places)
  match exponent? rest with
  | some (exponent, rest) => (.float ⟨digits, exponent - places.length⟩, rest)
  | none => if places = [] then (.integer digits, rest) else (.float ⟨digits, -places.length⟩, rest)

/-- The text of a string after its opening quotation mark, and what comes after the closing one. -/
def quoted : List Char → Option (List Char × List Char)
  | [] => none
  | '"' :: rest => some ([], rest)
  | '\\' :: letter :: rest => do
    let c ← Text.meaning? letter
    let (text, rest) ← quoted rest
    return (c :: text, rest)
  | c :: rest => do
    let (text, rest) ← quoted rest
    return (c :: text, rest)

/-- The lexeme that begins with a character, if it is no blank, and what comes after it. -/
def first (c : Char) (rest : List Char) : Option (Option Lexeme × List Char) :=
  if Text.isBlank c then some (none, rest)
  else if beginsWord c then
    some (some (.word (String.ofList (c :: rest.takeWhile inWord))), rest.dropWhile inWord)
  else if c.isDigit then
    let (lexeme, rest) := number (c :: rest)
    some (some lexeme, rest)
  else if c = '"' then (quoted rest).map fun (text, rest) => (some (.string (String.ofList text)), rest)
  else if c = '-' then
    match rest with
    | '-' :: rest => some (some .decrement, rest)
    | _ => some (some (.mark .minus), rest)
  else if c = '/' then some (some (.mark .slash), rest)
  else match plainMark? c, equalsMark? c, rest with
    | some mark, _, _ => some (some (.mark mark), rest)
    | none, some (_, withEquals), '=' :: rest => some (some (.mark withEquals), rest)
    | none, some (alone, _), _ => some (some (.mark alone), rest)
    | none, none, _ => none

end Lexer

/-- The lexemes of a text whose first `covered` characters belong to the lexeme before them. -/
def lexAfter : Nat → List Char → Option (List Lexeme)
  | _, [] => some []
  | covered + 1, _ :: rest => lexAfter covered rest
  | 0, c :: rest => do
    let (lexeme, after) ← Lexer.first c rest
    let more ← lexAfter (rest.length - after.length) rest
    return lexeme.toList ++ more

def lex (text : List Char) : Option (List Lexeme) := lexAfter 0 text

/-! ## Expressions -/

def literalWords : List String := ["null", "true", "false"]

namespace BinaryOp

def tier : BinaryOp → Nat
  | .eq | .ne => 1
  | .lt | .le | .gt | .ge => 2
  | .add | .sub => 3
  | .mul | .div | .mod => 4

def mark : BinaryOp → Mark
  | .add => .plus
  | .sub => .minus
  | .mul => .star
  | .div => .slash
  | .mod => .percent
  | .eq => .equalEqual
  | .ne => .notEqual
  | .lt => .less
  | .le => .lessEqual
  | .gt => .greater
  | .ge => .greaterEqual

end BinaryOp

def PrefixOp.mark : PrefixOp → Mark
  | .neg => .minus
  | .not => .bang

/-- The lexemes before the arguments of a routine. -/
def Builtin.call : Builtin → List Lexeme
  | .write => [.word "Console", .mark .dot, .word "WriteLine", .mark .openParen]

mutual

/-- The lexemes that are expressions of a tier, with their trees. -/
inductive Reads : Nat → List Lexeme → Expr → Prop where
  | tighter {tier : Nat} {lexemes : List Lexeme} {value : Expr} :
      Reads (tier + 1) lexemes value → Reads tier lexemes value
  | assign {target : String} {lexemes : List Lexeme} {value : Expr} :
      target ∉ literalWords → Reads 0 lexemes value →
      Reads 0 (.word target :: .mark .equal :: lexemes) (.assign target value)
  | binary {operator : BinaryOp} {leftLexemes rightLexemes : List Lexeme} {left right : Expr} :
      Reads operator.tier leftLexemes left → Reads (operator.tier + 1) rightLexemes right →
      Reads operator.tier (leftLexemes ++ .mark operator.mark :: rightLexemes)
        (.binary operator left right)
  | prefixed {operator : PrefixOp} {lexemes : List Lexeme} {operand : Expr} :
      Reads 5 lexemes operand → Reads 5 (.mark operator.mark :: lexemes) (.prefixed operator operand)
  | null : Reads 6 [.word "null"] (.literal .null)
  | true : Reads 6 [.word "true"] (.literal (.bool true))
  | false : Reads 6 [.word "false"] (.literal (.bool false))
  | integer {value : Nat} : Reads 6 [.integer value] (.literal (.int value))
  | float {value : Decimal} :
      Reads 6 [.float value] (.literal (.float (.ofMagnitude value.toMagnitude)))
  | string {value : String} : Reads 6 [.string value] (.literal (.string value))
  | name {text : String} : text ∉ literalWords → Reads 6 [.word text] (.name text)
  | parenthesized {lexemes : List Lexeme} {inner : Expr} :
      Reads 0 lexemes inner →
      Reads 6 (.mark .openParen :: (lexemes ++ [.mark .closeParen])) (.parenthesized inner)
  | invoke {routine : Builtin} {lexemes : List Lexeme} {arguments : List Expr} :
      ReadsArguments lexemes arguments →
      Reads 6 (routine.call ++ (lexemes ++ [.mark .closeParen])) (.invoke routine arguments)

inductive ReadsArguments : List Lexeme → List Expr → Prop where
  | none : ReadsArguments [] []
  | last {lexemes : List Lexeme} {argument : Expr} :
      Reads 0 lexemes argument → ReadsArguments lexemes [argument]
  | more {lexemes rest : List Lexeme} {argument next : Expr} {arguments : List Expr} :
      Reads 0 lexemes argument → ReadsArguments rest (next :: arguments) →
      ReadsArguments (lexemes ++ .mark .comma :: rest) (argument :: next :: arguments)

end

end ScriptFrontend.Host
