/-! # UTF-8

Bytes to text, in two ways: `decode?` refuses bytes that are not well formed, and `decodeLossy` puts one
replacement character for each maximal part that cannot begin a well-formed sequence.

Both rest on `first`, which reads the sequence at the head of a byte list.  A lead byte fixes the length
of the sequence and the range of its second byte (the ranges exclude overlong forms, surrogates and
values above U+10FFFF); later bytes range over `80..BF`.  An invalid part is the lead byte with those of
the following bytes that were still in range.
-/

namespace ScriptFrontend.Text.Utf8

/-- What stands at the head of a byte list: a character, or an invalid part.  The number counts the
    bytes after the lead byte. -/
inductive Head where
  | char (c : Char) (extra : Nat)
  | invalid (extra : Nat)

def Head.char? : Head → Option Char
  | .char c _ => some c
  | .invalid _ => none

/-- How many bytes follow a lead byte, the range of the first of them, and the bits that the lead
    byte itself contributes. -/
def lead? (b : Nat) : Option (Nat × Nat × Nat × Nat) :=
  if b < 0x80 then some (0, 0, 0, b)
  else if 0xC2 ≤ b ∧ b ≤ 0xDF then some (1, 0x80, 0xBF, b - 0xC0)
  else if b = 0xE0 then some (2, 0xA0, 0xBF, 0)
  else if b = 0xED then some (2, 0x80, 0x9F, 0xD)
  else if 0xE1 ≤ b ∧ b ≤ 0xEF then some (2, 0x80, 0xBF, b - 0xE0)
  else if b = 0xF0 then some (3, 0x90, 0xBF, 0)
  else if 0xF1 ≤ b ∧ b ≤ 0xF3 then some (3, 0x80, 0xBF, b - 0xF0)
  else if b = 0xF4 then some (3, 0x80, 0x8F, 4)
  else none

/-- Reads `missing` further bytes, the next of which lies in `low..high`, onto the `bits` read so far;
    `seen` bytes after the lead byte have been taken. -/
def continuation (bits seen : Nat) : Nat → Nat → Nat → List UInt8 → Head
  | 0, _, _, _ => .char (Char.ofNat bits) seen
  | _ + 1, _, _, [] => .invalid seen
  | missing + 1, low, high, b :: rest =>
    if low ≤ b.toNat ∧ b.toNat ≤ high then
      continuation (bits * 64 + (b.toNat - 0x80)) (seen + 1) missing 0x80 0xBF rest
    else .invalid seen

def first (b : UInt8) (rest : List UInt8) : Head :=
  match lead? b.toNat with
  | some (missing, low, high, bits) => continuation bits 0 missing low high rest
  | none => .invalid 0

/-- The heads of a byte list from left to right, after `skip` bytes that belong to the head before them. -/
def heads : Nat → List UInt8 → List Head
  | _, [] => []
  | skip + 1, _ :: rest => heads skip rest
  | 0, b :: rest =>
    match first b rest with
    | .char c extra => .char c extra :: heads extra rest
    | .invalid extra => .invalid extra :: heads extra rest

/-- The text of well-formed bytes. -/
def decode? (bytes : List UInt8) : Option String :=
  ((heads 0 bytes).mapM Head.char?).map String.ofList

/-- The text of any bytes, with U+FFFD for each invalid part. -/
def decodeLossy (bytes : List UInt8) : String :=
  String.ofList ((heads 0 bytes).map fun head => head.char?.getD '\uFFFD')

def encode (text : String) : List UInt8 :=
  text.toList.flatMap String.utf8EncodeChar

end ScriptFrontend.Text.Utf8
