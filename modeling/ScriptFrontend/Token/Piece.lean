import ScriptFrontend.Text.Blank
import ScriptFrontend.Token

/-! # Cutting source into pieces

Source is cut from left to right into pieces, each as long as it can be.  A piece is what one glance of
the scanner covers: a line feed, a blank, a comment, a mark, a word, a number, a string, or a character
that begins nothing.  Every piece keeps all of its characters, so that `Piece.text` is the source it
covers and the texts of `pieces source` joined together are the source.

`Piece.first` decides what begins at a character, and `pieces` walks over the source, passing by the
characters that the last piece already covers.
-/

namespace ScriptFrontend

inductive Piece where
  | lineFeed
  | blank (c : Char)
  -- The text after the two slashes.
  | comment (body : List Char)
  | mark (mark : Mark)
  | word (chars : List Char)
  | integer (digits : List Char)
  -- The digits on both sides of the point.
  | float (whole fraction : List Char)
  -- The characters between the quotation marks, as written.
  | string (body : List Char)
  -- A string that the end of the source cuts off.
  | unterminated (body : List Char)
  | unexpected (c : Char)
  deriving DecidableEq, Repr

namespace Piece

def text : Piece → List Char
  | .lineFeed => ['\n']
  | .blank c => [c]
  | .comment body => '/' :: '/' :: body
  | .mark m => m.spelling
  | .word chars => chars
  | .integer digits => digits
  | .float whole fraction => whole ++ '.' :: fraction
  | .string body => '"' :: (body ++ ['"'])
  | .unterminated body => '"' :: body
  | .unexpected c => [c]

end Piece

/-- A character that can begin a word: an ASCII letter or an underscore. -/
def beginsWord (c : Char) : Bool := c.isAlpha || c = '_'

def inWord (c : Char) : Bool := c.isAlphanum || c = '_'

/-- The mark that a character is on its own.  A slash is looked at separately. -/
def plainMark? : Char → Option Mark
  | '(' => some .openParen
  | ')' => some .closeParen
  | '\x7b' => some .openBrace
  | '\x7d' => some .closeBrace
  | ',' => some .comma
  | '.' => some .dot
  | '-' => some .minus
  | '+' => some .plus
  | ';' => some .semicolon
  | '*' => some .star
  | '%' => some .percent
  | _ => none

/-- The marks that a character is without and with an equals sign after it. -/
def equalsMark? : Char → Option (Mark × Mark)
  | '!' => some (.bang, .notEqual)
  | '=' => some (.equal, .equalEqual)
  | '<' => some (.less, .lessEqual)
  | '>' => some (.greater, .greaterEqual)
  | _ => none

/-- The characters up to the quotation mark that ends a string, and whether there is one.  A character
    after a backslash never ends it. -/
def stringBody : List Char → List Char × Bool
  | [] => ([], false)
  | ['\\'] => (['\\'], false)
  | '\\' :: c :: rest =>
    let (body, closed) := stringBody rest
    ('\\' :: c :: body, closed)
  | '"' :: _ => ([], true)
  | c :: rest =>
    let (body, closed) := stringBody rest
    (c :: body, closed)

namespace Piece

/-- The number that begins with a digit: a point belongs to it only if a digit follows directly. -/
def number (digit : Char) (rest : List Char) : Piece :=
  let whole := digit :: rest.takeWhile Char.isDigit
  match rest.dropWhile Char.isDigit with
  | '.' :: d :: more =>
    if d.isDigit then .float whole (d :: more.takeWhile Char.isDigit) else .integer whole
  | _ => .integer whole

def quoted (rest : List Char) : Piece :=
  match stringBody rest with
  | (body, true) => .string body
  | (body, false) => .unterminated body

/-- What begins with a slash: a comment, up to the end of the line, or a mark. -/
def slashed : List Char → Piece
  | '/' :: rest => .comment (rest.takeWhile (· ≠ '\n'))
  | _ => .mark .slash

/-- The piece that begins with a character, given what follows it. -/
def first (c : Char) (rest : List Char) : Piece :=
  if c = '\n' then .lineFeed
  else if Text.isBlank c then .blank c
  else if c = '/' then slashed rest
  else if c = '"' then quoted rest
  else if beginsWord c then .word (c :: rest.takeWhile inWord)
  else if c.isDigit then number c rest
  else match plainMark? c, equalsMark? c with
    | some m, _ => .mark m
    | none, some (alone, withEquals) => .mark (if rest.head? = some '=' then withEquals else alone)
    | none, none => .unexpected c

end Piece

/-- The pieces of source whose first `covered` characters belong to the piece before them. -/
def piecesAfter : Nat → List Char → List Piece
  | _, [] => []
  | covered + 1, _ :: rest => piecesAfter covered rest
  | 0, c :: rest =>
    let piece := Piece.first c rest
    piece :: piecesAfter (piece.text.length - 1) rest

def pieces (source : List Char) : List Piece := piecesAfter 0 source

end ScriptFrontend
