/-! # Escapes in quoted text

Script source and host text quote strings alike: between two quotation marks, a backslash and a letter
stand for one character.  `meaning?` reads the letter and `letter?` chooses it; each is the other's
inverse, so `quote` writes only what the scanner reads back.

A body that was cut from source may hold a backslash before a letter without a meaning.  `decode` then
keeps the letter, and `unknown` lists it with the line on which it stands after any line feed that is
itself the escaped letter.
-/

namespace ScriptFrontend.Text

/-- The character for which a backslash and this letter stand. -/
def meaning? : Char → Option Char
  | '"' => some '"'
  | '\\' => some '\\'
  | 'n' => some '\n'
  | 'r' => some '\r'
  | 't' => some '\t'
  | '0' => some '\x00'
  | _ => none

/-- The letter after the backslash in the written form of a character that cannot stand for itself. -/
def letter? : Char → Option Char
  | '"' => some '"'
  | '\\' => some '\\'
  | '\n' => some 'n'
  | '\r' => some 'r'
  | '\t' => some 't'
  | '\x00' => some '0'
  | _ => none

/-- The letter chosen for a character stands for it. -/
theorem meaning?_of_letter? {c letter : Char} (chosen : letter? c = some letter) :
    meaning? letter = some c := by
  unfold letter? at chosen
  split at chosen
  all_goals cases chosen
  all_goals rfl

/-- A letter with a meaning is the one chosen for it. -/
theorem letter?_of_meaning? {letter c : Char} (meant : meaning? letter = some c) :
    letter? c = some letter := by
  unfold meaning? at meant
  split at meant
  all_goals cases meant
  all_goals rfl

/-- The written form of one character inside quotation marks. -/
def escape (c : Char) : List Char :=
  match letter? c with
  | some letter => ['\\', letter]
  | none => [c]

/-- A text between quotation marks, each character in its written form. -/
def quote (text : List Char) : List Char :=
  '"' :: (text.flatMap escape ++ ['"'])

def decode : List Char → List Char
  | [] => []
  | ['\\'] => []
  | '\\' :: c :: rest => (meaning? c).getD c :: decode rest
  | c :: rest => c :: decode rest

def lineAfter (line : Nat) (c : Char) : Nat :=
  if c = '\n' then line + 1 else line

/-- The escaped letters without a meaning in a body that begins on `line`, in order, each with the line
    on which the scanner stands once it has read it. -/
def unknown (line : Nat) : List Char → List (Nat × Char)
  | [] => []
  | ['\\'] => []
  | '\\' :: c :: rest =>
    let after := lineAfter line c
    match meaning? c with
    | some _ => unknown after rest
    | none => (after, c) :: unknown after rest
  | c :: rest => unknown (lineAfter line c) rest

end ScriptFrontend.Text
