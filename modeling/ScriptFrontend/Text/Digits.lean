/-! # Decimal digits

Whole numbers as lists of decimal digits, both ways.
-/

namespace ScriptFrontend.Text

/-- The digits of a number without leading zeros; zero is the single digit `0`. -/
def digits (n : Nat) : List Char := Nat.toDigits 10 n

/-- The number that digits spell; leading zeros do not change it. -/
def digitsValue (ds : List Char) : Nat := Nat.ofDigitChars 10 ds 0

/-- The digits of a whole number behind its sign, if it is negative. -/
def signedDigits : Int → List Char
  | .ofNat n => digits n
  | .negSucc n => '-' :: digits (n + 1)

@[simp]
theorem digitsValue_digits (n : Nat) : digitsValue (digits n) = n :=
  Nat.ofDigitChars_toDigits (by decide) (by decide)

end ScriptFrontend.Text
