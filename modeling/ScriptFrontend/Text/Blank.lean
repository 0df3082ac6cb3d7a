/-! # Blank characters

The characters that separate tokens without belonging to one: the twenty-five code points with the
Unicode property `White_Space`.  A line feed is among them; the scanner looks for it first,
because it also ends a line.
-/

namespace ScriptFrontend.Text

/-- The `White_Space` code points, as closed ranges in increasing order. -/
def blankRanges : List (Nat × Nat) :=
  [(0x09, 0x0D), (0x20, 0x20), (0x85, 0x85), (0xA0, 0xA0), (0x1680, 0x1680), (0x2000, 0x200A),
   (0x2028, 0x2029), (0x202F, 0x202F), (0x205F, 0x205F), (0x3000, 0x3000)]

def isBlank (c : Char) : Bool :=
  blankRanges.any fun range => range.1 ≤ c.toNat && c.toNat ≤ range.2

example : isBlank '\n' = true ∧ isBlank '\x0b' = true ∧ isBlank '\u200b' = false := by decide

end ScriptFrontend.Text
