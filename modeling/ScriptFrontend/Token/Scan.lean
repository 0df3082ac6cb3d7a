import ScriptFrontend.Text.Digits
import ScriptFrontend.Text.Escape
import ScriptFrontend.Token.Piece

/-! # Scanning

From pieces to tokens.  A `Position` is followed over the text of every piece; at its position a piece gives
at most one token (`Piece.token?`) and any number of faults (`Piece.faults`).  Faults never stop the scan.

`scan` gives all of a source at once, with the end mark last.  A `Scanner` gives the same tokens one by one.
-/

namespace ScriptFrontend

/-- A place in the source: the line, counted from one, and what stands before the place on that line,
    last character first. -/
structure Position where
  line : Nat
  before : List Char
  deriving DecidableEq, Repr

namespace Position

def start : Position := ⟨1, []⟩

def next (position : Position) (c : Char) : Position :=
  if c = '\n' then ⟨position.line + 1, []⟩ else ⟨position.line, c :: position.before⟩

def advance (position : Position) (text : List Char) : Position :=
  text.foldl next position

@[simp]
theorem advance_append (position : Position) (left right : List Char) :
    position.advance (left ++ right) = (position.advance left).advance right := by
  simp [advance]

/-- Whether the line holds nothing so far, a carriage return aside. -/
def onBlankLine (position : Position) : Bool :=
  position.before = [] || position.before = ['\r']

end Position

inductive LexicalFault where
  | unexpectedCharacter (c : Char)
  | unterminatedString
  | unknownEscape (c : Char)
  | integerOutOfRange (digits : List Char)
  deriving DecidableEq, Repr

def LexicalFault.message : LexicalFault → String
  | .unexpectedCharacter c => "Unexpected character '" ++ String.ofList [c] ++ "'."
  | .unterminatedString => "Unterminated string."
  | .unknownEscape c => "Unknown escape sequence '\\" ++ String.ofList [c] ++ "'."
  | .integerOutOfRange digits => "Integer literal '" ++ String.ofList digits ++ "' is out of range."

structure LexicalError where
  fault : LexicalFault
  file : String
  line : Nat
  deriving DecidableEq, Repr

/-- What is scanned: the name of the file, for tokens and errors, and the table that interns their lexemes. -/
structure Source where
  file : String
  table : Nat

/-- The largest integer literal, which fits a signed word of sixty-four bits. -/
def largestInteger : Nat := 0x7FFFFFFFFFFFFFFF

namespace Piece

/-- The kind of token that a piece is when it begins at a position. -/
def kind? (position : Position) : Piece → Option TokenKind
  | .lineFeed => if position.onBlankLine then some .blankLine else none
  | .mark m => some (.mark m)
  | .word chars =>
    match Keyword.ofWord? chars with
    | some keyword => some (.keyword keyword)
    | none => some (.identifier (String.ofList chars))
  | .integer digits =>
    if Text.digitsValue digits ≤ largestInteger then some (.integer (Text.digitsValue digits))
    else none
  | .float whole fraction =>
    some (.float (.ofMagnitude
      (Binary64.ofRatio (Text.digitsValue (whole ++ fraction)) (Nat.pow 10 fraction.length))))
  | .string body => some (.string (String.ofList (Text.decode body)))
  | .blank _ | .comment _ | .unterminated _ | .unexpected _ => none

def token? (source : Source) (position : Position) (piece : Piece) : Option Token :=
  (piece.kind? position).map fun kind =>
    ⟨kind, Symbol.of source.table (String.ofList piece.text), source.file, position.line⟩

/-- The faults of a piece at a position, with their lines. -/
def faults (position : Position) (piece : Piece) : List (LexicalFault × Nat) :=
  match piece with
  | .unexpected c => [(.unexpectedCharacter c, position.line)]
  | .integer digits =>
    if Text.digitsValue digits ≤ largestInteger then []
    else [(.integerOutOfRange digits, position.line)]
  | .string body => (Text.unknown position.line body).map fun (line, c) => (.unknownEscape c, line)
  | .unterminated body =>
    ((Text.unknown position.line body).map fun (line, c) => (.unknownEscape c, line)) ++
      [(.unterminatedString, (position.advance piece.text).line)]
  | _ => []

def errors (source : Source) (position : Position) (piece : Piece) : List LexicalError :=
  (piece.faults position).map fun (fault, line) => ⟨fault, source.file, line⟩

end Piece

/-- Pieces with the positions at which they begin. -/
def located (position : Position) : List Piece → List (Position × Piece)
  | [] => []
  | piece :: rest => (position, piece) :: located (position.advance piece.text) rest

/-- The mark that ends the tokens of a source. -/
def endToken (source : Source) (position : Position) : Token :=
  ⟨.finish, Symbol.of source.table "", source.file, position.line⟩

structure Scanned where
  tokens : List Token
  errors : List LexicalError
  deriving DecidableEq, Repr

/-- Scans a text: its tokens in order, then the end mark. -/
def scan (source : Source) (text : String) : Scanned :=
  let found := located .start (pieces text.toList)
  { tokens := found.filterMap (fun (position, piece) => piece.token? source position) ++
      [endToken source (Position.start.advance text.toList)]
    errors := found.flatMap fun (position, piece) => piece.errors source position }

/-- A scan under way: the pieces that are still to come and where they begin. -/
structure Scanner where
  source : Source
  position : Position
  remaining : List Piece

namespace Scanner

def ofText (source : Source) (text : String) : Scanner :=
  ⟨source, .start, pieces text.toList⟩

/-- Looks for a token among the pieces from a position on, and gives the errors met on the way, the
    position after the token and the pieces after it. -/
def seek (source : Source) (position : Position) :
    List Piece → Option Token × List LexicalError × Position × List Piece
  | [] => (none, [], position, [])
  | piece :: rest =>
    let errors := piece.errors source position
    let after := position.advance piece.text
    match piece.token? source position with
    | some token => (some token, errors, after, rest)
    | none =>
      let (token, more, place, remaining) := seek source after rest
      (token, errors ++ more, place, remaining)

/-- The next token, none when the source is exhausted, and the errors before it. -/
def next (scanner : Scanner) : Option Token × List LexicalError × Scanner :=
  let (token, errors, position, remaining) :=
    seek scanner.source scanner.position scanner.remaining
  (token, errors, { scanner with position, remaining })

def finish (scanner : Scanner) : Token :=
  endToken scanner.source scanner.position

end Scanner

end ScriptFrontend
