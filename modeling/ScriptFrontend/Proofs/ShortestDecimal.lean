import ScriptFrontend.Decimal.Shortest

/-! # Shortest decimals read back

`Decimal.shortest` gives a decimal that rounds to the magnitude it was made from.  The walk over the
powers of ten tests just that; what needs an argument is the decimal at its end, which has all the
digits of the magnitude: `ofRatio` is exact on magnitudes, and does not depend on how its ratio is
reduced.
-/

namespace ScriptFrontend

namespace Binary64

/-! ## Ratios -/

theorem roundedQuotient_mul (n d : Nat) {k : Nat} (positive : 0 < k) :
    roundedQuotient (n * k) (d * k) = roundedQuotient n d := by
  have remainder : n * k % (d * k) = n % d * k := Nat.mul_mod_mul_right k n d
  have quotient : n * k / (d * k) = n / d := Nat.mul_div_mul_right n d positive
  have below : 2 * (n % d * k) < d * k ↔ 2 * (n % d) < d := by
    rw [← Nat.mul_assoc, Nat.mul_lt_mul_right positive]
  have above : d * k < 2 * (n % d * k) ↔ d < 2 * (n % d) := by
    rw [← Nat.mul_assoc, Nat.mul_lt_mul_right positive]
  simp only [roundedQuotient, remainder, quotient, below, above]

/-- A ratio need not be reduced before it is rounded. -/
theorem ofRatio_mul (n d : Nat) {k : Nat} (positive : 0 < k) : ofRatio (n * k) (d * k) = ofRatio n d := by
  have scaled : n * k * unitsInOne = n * unitsInOne * k := Nat.mul_right_comm n k unitsInOne
  have quotient : n * unitsInOne * k / (d * k) = n * unitsInOne / d :=
    Nat.mul_div_mul_right _ _ positive
  have divisor : ∀ shift, d * k * Nat.pow 2 shift = d * Nat.pow 2 shift * k := fun shift =>
    Nat.mul_right_comm d k _
  simp only [ofRatio, scaled, quotient, divisor, roundedQuotient_mul _ _ positive]

/-- Fives in front of tens leave twos. -/
theorem ofRatio_fives (n places : Nat) :
    ofRatio (n * Nat.pow 5 places) (Nat.pow 10 places) = ofRatio n (Nat.pow 2 places) := by
  have tens : Nat.pow 10 places = Nat.pow 2 places * Nat.pow 5 places := Nat.mul_pow 2 5 places
  have fives : 0 < Nat.pow 5 places := Nat.pow_pos (by decide)
  rw [tens, ofRatio_mul _ _ fives]

/-- Tens may be moved between the digits of a decimal and its exponent. -/
theorem ofDecimal_mul (digits zeros places : Nat) :
    ofDecimal (digits * Nat.pow 10 zeros * Nat.pow 10 (places + 1)) (.negSucc places) =
      ofDecimal digits (.ofNat zeros) := by
  have reduced := ofRatio_mul (digits * Nat.pow 10 zeros) 1 (Nat.pow_pos (n := places + 1) (by decide : 0 < 10))
  rw [Nat.one_mul] at reduced
  exact reduced

theorem roundedQuotient_exact (n : Nat) {d : Nat} (positive : 0 < d) : roundedQuotient (n * d) d = n := by
  have remainder : n * d % d = 0 := Nat.mul_mod_left n d
  have quotient : n * d / d = n := Nat.mul_div_cancel n positive
  simp [roundedQuotient, remainder, quotient, positive]

/-! ## Magnitudes -/

theorem log2_mul_pow {count : Nat} (lower : fractionCount ≤ count) (upper : count < 2 * fractionCount)
    (shift : Nat) : (count * Nat.pow 2 shift).log2 = 52 + shift := by
  have positive : 0 < Nat.pow 2 shift := Nat.two_pow_pos shift
  have fractions : 0 < fractionCount := by decide
  rw [Nat.log2_eq_iff (Nat.mul_ne_zero (by omega) (by omega))]
  constructor
  · rw [Nat.pow_add]
    exact Nat.mul_le_mul_right _ lower
  · rw [Nat.add_right_comm, Nat.pow_add, Nat.pow_succ, Nat.mul_comm _ 2]
    exact Nat.mul_lt_mul_of_pos_right upper positive

/-- A magnitude counts its steps of an exponent and all the steps below: the bits that rounding would
    drop are those that the exponent adds. -/
theorem units_eq (m : Nat) :
    ∃ shift count, (units m).log2 - 52 = shift ∧ units m = count * Nat.pow 2 shift ∧
      shift * fractionCount + count = m := by
  have fractions : fractionCount = 2 ^ 52 := rfl
  unfold units
  split
  · next small =>
    refine ⟨0, m, ?_, by simp, by simp⟩
    have bound : m.log2 < 53 := by
      by_cases zero : m = 0
      · subst zero
        decide
      · rw [Nat.log2_lt zero]
        omega
    omega
  · next large =>
    have exponent : 1 ≤ m / fractionCount := by
      rw [Nat.le_div_iff_mul_le (by decide)]
      omega
    have fraction : m % fractionCount < fractionCount := Nat.mod_lt m (by decide)
    refine ⟨m / fractionCount - 1, fractionCount + m % fractionCount, ?_, rfl, ?_⟩
    · rw [log2_mul_pow (by omega) (by omega)]
      omega
    · have parts := Nat.div_add_mod m fractionCount
      rw [Nat.sub_mul, Nat.one_mul, Nat.mul_comm (m / fractionCount)]
      have whole : fractionCount ≤ fractionCount * (m / fractionCount) := Nat.le_mul_of_pos_right _ exponent
      omega

theorem unitsInOne_pos : 0 < unitsInOne := by
  have positive : ∀ n, 0 < Nat.pow 2 n := Nat.two_pow_pos
  unfold unitsInOne
  apply positive

/-- Rounding keeps a finite magnitude. -/
theorem ofRatio_units {m : Nat} (finite : m < infinity) : ofRatio (units m) unitsInOne = m := by
  obtain ⟨shift, count, dropped, spread, counted⟩ := units_eq m
  have positive : 0 < unitsInOne := unitsInOne_pos
  have quotient : units m * unitsInOne / unitsInOne = units m := Nat.mul_div_cancel _ positive
  have rounded : roundedQuotient (units m * unitsInOne) (unitsInOne * Nat.pow 2 shift) = count := by
    rw [Nat.mul_comm unitsInOne, roundedQuotient_mul _ _ positive, spread]
    exact roundedQuotient_exact count (Nat.two_pow_pos shift)
  -- The quotient is exact, so the bits that are dropped are zeros and rounding finds no remainder.
  simp only [ofRatio, quotient, dropped, rounded, counted]
  exact Nat.min_eq_left (Nat.le_of_lt finite)

theorem ofRatio_units_fives {m places : Nat} (finite : m < infinity)
    (scale : unitsInOne = Nat.pow 2 places) :
    ofRatio (units m * Nat.pow 5 places) (Nat.pow 10 places) = m := by
  rw [ofRatio_fives, ← scale]
  exact ofRatio_units finite

end Binary64

namespace Decimal

theorem toMagnitude_exact {m : Nat} (finite : m < Binary64.infinity) : (exact m).toMagnitude = m := by
  have finest : finestExponent = .negSucc 1073 := rfl
  simp only [toMagnitude, exact, finest, Binary64.ofDecimal, Nat.reduceAdd]
  exact Binary64.ofRatio_units_fives finite rfl

/-- The shortest decimal of a finite magnitude reads back as that magnitude. -/
theorem toMagnitude_shortest {m : Nat} (finite : m < Binary64.infinity) :
    (shortest m).toMagnitude = m := by
  unfold shortest
  -- A decimal that the walk finds was tested; only the one after the walk needs an argument.
  cases found : (exponents m).findSome? fun e => (neighbours m e).find? fun x => x.toMagnitude = m with
  | none => exact toMagnitude_exact finite
  | some x =>
    obtain ⟨exponent, _, candidate⟩ := List.exists_of_findSome?_eq_some found
    simpa using List.find?_some candidate

end Decimal

end ScriptFrontend
