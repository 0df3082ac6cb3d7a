import ScriptFrontend.Text.Digits
import ScriptFrontend.Decimal.Shortest

/-! # Number text

How a binary64 number is written once its shortest digits are known.  A `Layout` holds the decisions of
one format; `Binary64.render` carries them out.
-/

namespace ScriptFrontend

/-- The decisions of a number format. -/
structure Layout where
  -- Whether a number with this exponent of its leading digit is written without an exponent.
  positional : Int → Bool
  -- What follows a whole number written without an exponent.
  wholeSuffix : String

namespace Decimal

/-- A decimal without an exponent: zeros fill the places between the digits and the point. -/
def positional (wholeSuffix : String) (x : Decimal) : String :=
  let digits := Text.digits x.digits
  match x.exponent with
  | .ofNat zeros => String.ofList (digits ++ List.replicate zeros '0') ++ wholeSuffix
  | .negSucc n =>
    let places := n + 1
    let padded := List.replicate (places + 1 - digits.length) '0' ++ digits
    String.ofList (padded.take (padded.length - places) ++ '.' :: padded.drop (padded.length - places))

def leadingExponent (x : Decimal) : Int :=
  x.exponent + (Text.digits x.digits).length - 1

/-- A decimal with one digit before the point and an exponent; a single digit has no point. -/
def scientific (x : Decimal) : String :=
  let mantissa := match Text.digits x.digits with
    | [] => []
    | [digit] => [digit]
    | digit :: rest => digit :: '.' :: rest
  String.ofList mantissa ++ "e" ++ String.ofList (Text.signedDigits x.leadingExponent)

/-- A decimal in a format; zero is always positional. -/
def render (layout : Layout) (x : Decimal) : String :=
  if x.digits = 0 ∨ layout.positional x.leadingExponent then x.positional layout.wholeSuffix
  else x.scientific

end Decimal

namespace Binary64

def render (layout : Layout) (x : Binary64) : String :=
  let sign := if x.negative then "-" else ""
  if x.isNaN then "NaN"
  else if x.magnitude = infinity then sign ++ "inf"
  else if x.magnitude = 0 then sign ++ Decimal.render layout ⟨0, 0⟩
  else sign ++ (Decimal.shortest x.magnitude).render layout

end Binary64

end ScriptFrontend
