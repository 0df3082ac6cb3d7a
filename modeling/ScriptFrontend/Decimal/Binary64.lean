/-! # Binary64 numbers

A number of the language is kept as its sixty-four bits.  Below the sign bit, the bits count the finite
magnitudes in increasing order, so most questions are about that count, the *magnitude*:

- `units` measures a finite magnitude in steps of 2^-1074, the smallest one;
- `ofRatio` rounds an exact ratio to the nearest magnitude, a half to the even one, and to
  infinity above the largest.
-/

namespace ScriptFrontend

/-- A binary64 number, by its bits. -/
structure Binary64 where
  bits : UInt64
  deriving DecidableEq, Repr, Inhabited

namespace Binary64

/-- How many magnitudes share one exponent. -/
def fractionCount : Nat := Nat.pow 2 52

/-- The magnitude of infinity, which is also the number of finite ones. -/
def infinity : Nat := 2047 * fractionCount

def signWeight : Nat := Nat.pow 2 63

/-- How many of the smallest steps make one. -/
def unitsInOne : Nat := Nat.pow 2 1074

/-- The bits without the sign. -/
def magnitude (x : Binary64) : Nat := x.bits.toNat % signWeight

def negative (x : Binary64) : Bool := signWeight ≤ x.bits.toNat

def isFinite (x : Binary64) : Bool := x.magnitude < infinity

def isNaN (x : Binary64) : Bool := infinity < x.magnitude

/-- The number with this magnitude and no sign. -/
def ofMagnitude (m : Nat) : Binary64 := ⟨UInt64.ofNat m⟩

/-- A finite magnitude in steps of 2^-1074.  The lowest exponent is shared by the magnitudes without and
    with the implicit leading bit. -/
def units (m : Nat) : Nat :=
  if m < fractionCount then m
  else (fractionCount + m % fractionCount) * Nat.pow 2 (m / fractionCount - 1)

/-- The quotient to the nearest whole number, a half to the even one. -/
def roundedQuotient (n d : Nat) : Nat :=
  let q := n / d
  let twice := 2 * (n % d)
  if twice < d then q
  else if d < twice then q + 1
  else q + q % 2

/-- The magnitude nearest to `n / d`.  The shift drops the bits beyond the fifty-third of the quotient;
    the lowest exponent drops none.  A rounding that carries into the next exponent needs no case of its
    own, since the magnitudes are counted through. -/
def ofRatio (n d : Nat) : Nat :=
  let scaled := n * unitsInOne
  let shift := (scaled / d).log2 - 52
  min (shift * fractionCount + roundedQuotient scaled (d * Nat.pow 2 shift)) infinity

/-- The magnitude nearest to `digits · 10^exponent`. -/
def ofDecimal (digits : Nat) (exponent : Int) : Nat :=
  match exponent with
  | .ofNat e => ofRatio (digits * Nat.pow 10 e) 1
  | .negSucc e => ofRatio digits (Nat.pow 10 (e + 1))

example : ofDecimal 15 (-1) = 0x3FF8000000000000 := by decide +kernel

end Binary64

end ScriptFrontend
