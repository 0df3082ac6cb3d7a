import ScriptFrontend.Decimal.Binary64

/-! # Shortest decimals

`Decimal.shortest` gives the decimal with the fewest digits that reads back as a finite magnitude.  It
walks the powers of ten downwards.  On the grid of each power only the two multiples around the magnitude
can be nearest to it, so these two are tried, the nearer first; the first that reads back is the answer.
The grid of 10^-1074 holds every finite magnitude exactly, so the walk always ends with one.
-/

namespace ScriptFrontend

structure Decimal where
  digits : Nat
  exponent : Int
  deriving DecidableEq, Repr

namespace Decimal

/-- The magnitude to which a decimal rounds. -/
def toMagnitude (x : Decimal) : Nat := Binary64.ofDecimal x.digits x.exponent

/-- A finite magnitude as a ratio, in units of `10^exponent`. -/
def ratioAt (m : Nat) (exponent : Int) : Nat × Nat :=
  match exponent with
  | .ofNat e => (Binary64.units m, Binary64.unitsInOne * Nat.pow 10 e)
  | .negSucc e => (Binary64.units m * Nat.pow 10 (e + 1), Binary64.unitsInOne)

/-- The two multiples of `10^exponent` around a magnitude, the nearer first; from the middle the
    upper one comes first. -/
def neighbours (m : Nat) (exponent : Int) : List Decimal :=
  let (n, d) := ratioAt m exponent
  let lower := n / d
  if 2 * (n % d) < d then [⟨lower, exponent⟩, ⟨lower + 1, exponent⟩]
  else [⟨lower + 1, exponent⟩, ⟨lower, exponent⟩]

/-- The grid that holds every finite magnitude. -/
def finestExponent : Int := -1074

/-- A power of ten above a magnitude: 30103/100000 exceeds the logarithm of two, and the two steps more
    cover its bits and the rounding of the product. -/
def topExponent (m : Nat) : Int :=
  ((Binary64.units m).log2 - 1073 : Int) * 30103 / 100000 + 2

def exponents (m : Nat) : List Int :=
  let top := topExponent m
  (List.range (top - finestExponent + 1).toNat).map fun i : Nat => top - i

/-- A finite magnitude with all its decimal digits. -/
def exact (m : Nat) : Decimal := ⟨Binary64.units m * Nat.pow 5 1074, finestExponent⟩

/-- The first decimal that reads back as the magnitude. -/
def shortest (m : Nat) : Decimal :=
  ((exponents m).findSome? fun e => (neighbours m e).find? fun x => x.toMagnitude = m).getD (exact m)

end Decimal

end ScriptFrontend
