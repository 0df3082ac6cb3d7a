import Mathlib.Tactic.Ring
import ScriptFrontend.Proofs.ShortestDecimal

/-! # Rounding ratios

What `Binary64.ofRatio` does to the order of ratios: a larger one never rounds to a smaller magnitude
(`ofRatio_mono`), and it rounds to infinity exactly from half a step above the largest finite magnitude on
(`ofRatio_eq_infinity_iff`).

Both come from two facts.  `succ_le_roundedQuotient_iff` says where a quotient begins to round to a number: at the
middle below it, and the middle itself goes to the even side.  `exists_shifted` says how far a ratio is shifted:
what remains lies between one and two times the magnitudes of one exponent, except at the lowest exponent, which
has no lower bound.
-/

namespace ScriptFrontend.Binary64

/-! ## Quotients -/

theorem succ_le_roundedQuotient_iff {n d k : Nat} (positive : 0 < d) :
    k + 1 ≤ roundedQuotient n d ↔ (2 * k + 1) * d < 2 * n ∨ (2 * k + 1) * d = 2 * n ∧ k % 2 = 1 := by
  have parts := Nat.div_add_mod n d
  have remainder := Nat.mod_lt n positive
  simp only [roundedQuotient]
  generalize n / d = q at parts ⊢
  generalize n % d = r at parts remainder ⊢
  have middle : (2 * k + 1) * d = 2 * (d * k) + d := by ring
  rw [middle, ← parts]
  rcases Nat.lt_trichotomy k q with less | rfl | more
  · have apart : d * k + d ≤ d * q := Nat.mul_succ d k ▸ Nat.mul_le_mul_left d less
    repeat' split
    all_goals omega
  · repeat' split
    all_goals omega
  · have apart : d * q + d ≤ d * k := Nat.mul_succ d q ▸ Nat.mul_le_mul_left d more
    repeat' split
    all_goals omega

theorem roundedQuotient_mono {n d m e : Nat} (positive : 0 < d) (otherPositive : 0 < e) (le : n * e ≤ m * d) :
    roundedQuotient n d ≤ roundedQuotient m e := by
  cases rounded : roundedQuotient n d with
  | zero => exact Nat.zero_le _
  | succ k =>
    have reached := (succ_le_roundedQuotient_iff positive).mp (Nat.le_of_eq rounded.symm)
    rw [succ_le_roundedQuotient_iff otherPositive]
    -- The middle below `k + 1` is compared with both quotients, multiplied with both divisors.
    have first : (2 * k + 1) * d * e ≤ 2 * n * e := Nat.mul_le_mul_right e (by omega)
    have second : 2 * n * e ≤ 2 * m * d := by
      rw [Nat.mul_assoc, Nat.mul_assoc]
      exact Nat.mul_le_mul_left 2 le
    have both : (2 * k + 1) * e * d ≤ 2 * m * d := by
      rw [Nat.mul_right_comm]
      exact Nat.le_trans first second
    rcases Nat.lt_or_eq_of_le (Nat.le_of_mul_le_mul_right both positive) with above | middle
    · exact .inl above
    · refine .inr ⟨middle, ?_⟩
      have equal : (2 * k + 1) * d * e = 2 * n * e := by
        apply Nat.le_antisymm first
        rw [Nat.mul_right_comm (2 * k + 1), middle]
        exact second
      have atMiddle : (2 * k + 1) * d = 2 * n := Nat.eq_of_mul_eq_mul_right otherPositive equal
      omega

theorem le_roundedQuotient {n d k : Nat} (positive : 0 < d) (le : k * d ≤ n) : k ≤ roundedQuotient n d := by
  have mono := roundedQuotient_mono positive positive (Nat.mul_le_mul_right d le)
  rwa [roundedQuotient_exact k positive] at mono

theorem roundedQuotient_le {n d k : Nat} (positive : 0 < d) (le : n ≤ k * d) : roundedQuotient n d ≤ k := by
  have mono := roundedQuotient_mono positive positive (Nat.mul_le_mul_right d le)
  rwa [roundedQuotient_exact k positive] at mono

/-! ## Shifts -/

/-- How far a ratio is shifted before it is rounded. -/
structure Shifted (n d shift : Nat) : Prop where
  below : n * unitsInOne < 2 * fractionCount * (d * Nat.pow 2 shift)
  notBelow : 1 ≤ shift → fractionCount * (d * Nat.pow 2 shift) ≤ n * unitsInOne

theorem mul_pow_pos {d : Nat} (positive : 0 < d) (shift : Nat) : 0 < d * Nat.pow 2 shift :=
  Nat.mul_pos positive (Nat.two_pow_pos shift)

theorem lt_of_log2_shift (scaled : Nat) {d : Nat} (positive : 0 < d) :
    scaled < 2 * fractionCount * (d * Nat.pow 2 ((scaled / d).log2 - 52)) := by
  generalize quotient : scaled / d = q
  have bound : q < 2 ^ (53 + (q.log2 - 52)) :=
    Nat.lt_of_lt_of_le Nat.lt_log2_self (Nat.pow_le_pow_right (by decide) (by omega))
  rw [← quotient, Nat.div_lt_iff_lt_mul positive, quotient, Nat.pow_add] at bound
  rw [Nat.mul_comm d, ← Nat.mul_assoc]
  exact bound

theorem le_of_log2_shift {scaled d : Nat} (positive : 0 < d) (shifted : 1 ≤ (scaled / d).log2 - 52) :
    fractionCount * (d * Nat.pow 2 ((scaled / d).log2 - 52)) ≤ scaled := by
  generalize quotient : scaled / d = q at shifted ⊢
  have nonzero : q ≠ 0 := by
    rintro rfl
    simp at shifted
  have bound : 2 ^ (52 + (q.log2 - 52)) ≤ q := by
    have exponent : 52 + (q.log2 - 52) = q.log2 := by omega
    rw [exponent]
    exact Nat.log2_self_le nonzero
  rw [← quotient, Nat.le_div_iff_mul_le positive, quotient, Nat.pow_add] at bound
  rw [Nat.mul_comm d, ← Nat.mul_assoc]
  exact bound

theorem exists_shifted (n : Nat) {d : Nat} (positive : 0 < d) :
    ∃ shift, Shifted n d shift ∧
      ofRatio n d = min (shift * fractionCount + roundedQuotient (n * unitsInOne) (d * Nat.pow 2 shift)) infinity :=
  ⟨_, ⟨lt_of_log2_shift _ positive, le_of_log2_shift positive⟩, rfl⟩

namespace Shifted

variable {n d shift : Nat} (shifted : Shifted n d shift) (positive : 0 < d)

include shifted positive

theorem rounded_le : roundedQuotient (n * unitsInOne) (d * Nat.pow 2 shift) ≤ 2 * fractionCount :=
  roundedQuotient_le (mul_pow_pos positive shift) (Nat.le_of_lt shifted.below)

theorem le_rounded (some : 1 ≤ shift) :
    fractionCount ≤ roundedQuotient (n * unitsInOne) (d * Nat.pow 2 shift) :=
  le_roundedQuotient (mul_pow_pos positive shift) (shifted.notBelow some)

end Shifted

theorem two_mul_pow_le {low high : Nat} (less : low < high) : 2 * Nat.pow 2 low ≤ Nat.pow 2 high := by
  rw [Nat.mul_comm]
  exact Nat.pow_le_pow_right Nat.two_pos less

/-- Of two ratios that are shifted differently, the one that is shifted further is larger. -/
theorem Shifted.lt_of_lt {n d shift m e other : Nat} (shifted : Shifted n d shift)
    (otherShifted : Shifted m e other) (positive : 0 < e) (less : shift < other) : n * e < m * d := by
  have doubled := two_mul_pow_le less
  have below := Nat.mul_lt_mul_of_pos_right shifted.below positive
  have notBelow := Nat.mul_le_mul_right d (otherShifted.notBelow (by omega))
  have between : 2 * fractionCount * (d * Nat.pow 2 shift) * e ≤ fractionCount * (e * Nat.pow 2 other) * d := by
    calc 2 * fractionCount * (d * Nat.pow 2 shift) * e
        = fractionCount * d * e * (2 * Nat.pow 2 shift) := by ring
      _ ≤ fractionCount * d * e * Nat.pow 2 other := Nat.mul_le_mul_left _ doubled
      _ = fractionCount * (e * Nat.pow 2 other) * d := by ring
  have scaled : n * e * unitsInOne < m * d * unitsInOne := by
    rw [Nat.mul_right_comm n, Nat.mul_right_comm m]
    omega
  exact Nat.lt_of_mul_lt_mul_right scaled

/-! ## Ratios -/

/-- A larger ratio never rounds to a smaller magnitude. -/
theorem ofRatio_mono {n d m e : Nat} (positive : 0 < d) (otherPositive : 0 < e) (le : n * e ≤ m * d) :
    ofRatio n d ≤ ofRatio m e := by
  obtain ⟨shift, shifted, rounded⟩ := exists_shifted n positive
  obtain ⟨other, otherShifted, otherRounded⟩ := exists_shifted m otherPositive
  have least := otherShifted.le_rounded otherPositive
  have most := shifted.rounded_le positive
  rw [rounded, otherRounded]
  apply Nat.le_min.mpr ⟨Nat.le_trans (Nat.min_le_left _ _) ?_, Nat.min_le_right _ _⟩
  rcases Nat.lt_trichotomy shift other with less | rfl | more
  · -- The most that one exponent counts is the least that the next one counts.
    have stepped : (shift + 1) * fractionCount ≤ other * fractionCount := Nat.mul_le_mul_right _ less
    rw [Nat.succ_mul] at stepped
    have counted := least (by omega)
    omega
  · apply Nat.add_le_add_left
    apply roundedQuotient_mono (mul_pow_pos positive shift) (mul_pow_pos otherPositive shift)
    calc n * unitsInOne * (e * Nat.pow 2 shift)
        = n * e * (unitsInOne * Nat.pow 2 shift) := by ring
      _ ≤ m * d * (unitsInOne * Nat.pow 2 shift) := Nat.mul_le_mul_right _ le
      _ = m * unitsInOne * (d * Nat.pow 2 shift) := by ring
  · have larger := otherShifted.lt_of_lt shifted positive more
    omega

/-- The least whole number that rounds to infinity, half a step above the largest finite magnitude. -/
def overflow : Nat := (Nat.pow 2 54 - 1) * Nat.pow 2 970

theorem ofRatio_overflow : ofRatio overflow 1 = infinity := by decide +kernel

/-- The overflow in steps of the smallest magnitude, doubled: the middle above the largest finite magnitude, which
    is shifted by 2045. -/
theorem two_mul_overflow : 2 * overflow * unitsInOne = (4 * fractionCount - 1) * Nat.pow 2 2045 := by
  decide +kernel

theorem ofRatio_lt_infinity {n d : Nat} (positive : 0 < d) (small : n < overflow * d) :
    ofRatio n d < infinity := by
  obtain ⟨shift, shifted, rounded⟩ := exists_shifted n positive
  have most := shifted.rounded_le positive
  have fractions : 0 < fractionCount := by decide
  have finite : infinity = 2047 * fractionCount := rfl
  obtain ⟨last, isLast⟩ : ∃ last, last = 2045 := ⟨2045, rfl⟩
  have short : 2 * (n * unitsInOne) < (4 * fractionCount - 1) * (d * Nat.pow 2 last) := by
    calc 2 * (n * unitsInOne)
        = n * (2 * unitsInOne) := by ring
      _ < overflow * d * (2 * unitsInOne) :=
          Nat.mul_lt_mul_of_pos_right small (Nat.mul_pos Nat.two_pos unitsInOne_pos)
      _ = 2 * overflow * unitsInOne * d := by ring
      _ = (4 * fractionCount - 1) * (d * Nat.pow 2 last) := by rw [two_mul_overflow, ← isLast]; ring
  rw [rounded]
  apply Nat.lt_of_le_of_lt (Nat.min_le_left _ _)
  rcases Nat.lt_trichotomy shift last with less | rfl | more
  · have stepped : shift * fractionCount ≤ 2044 * fractionCount := Nat.mul_le_mul_right _ (by omega)
    omega
  · -- At the last exponent the middle before infinity is not reached.
    have notReached : ¬ 2 * fractionCount - 1 + 1 ≤ roundedQuotient (n * unitsInOne) (d * Nat.pow 2 shift) := by
      have middle : 2 * (2 * fractionCount - 1) + 1 = 4 * fractionCount - 1 := by omega
      rw [succ_le_roundedQuotient_iff (mul_pow_pos positive shift), middle]
      omega
    rw [isLast] at notReached ⊢
    omega
  · have least := shifted.notBelow (by omega)
    have long : 4 * fractionCount * (d * Nat.pow 2 last) ≤ 2 * (fractionCount * (d * Nat.pow 2 shift)) := by
      calc 4 * fractionCount * (d * Nat.pow 2 last)
          = 2 * fractionCount * d * (2 * Nat.pow 2 last) := by ring
        _ ≤ 2 * fractionCount * d * Nat.pow 2 shift := Nat.mul_le_mul_left _ (two_mul_pow_le more)
        _ = 2 * (fractionCount * (d * Nat.pow 2 shift)) := by ring
    have fewer : (4 * fractionCount - 1) * (d * Nat.pow 2 last) ≤ 4 * fractionCount * (d * Nat.pow 2 last) :=
      Nat.mul_le_mul_right _ (Nat.sub_le _ 1)
    omega

theorem ofRatio_eq_infinity_iff {n d : Nat} (positive : 0 < d) :
    ofRatio n d = infinity ↔ overflow * d ≤ n := by
  constructor
  · intro infinite
    by_contra small
    have finite := ofRatio_lt_infinity positive (Nat.lt_of_not_le small)
    omega
  · intro large
    have mono : ofRatio overflow 1 ≤ ofRatio n d := ofRatio_mono Nat.one_pos positive (by omega)
    rw [ofRatio_overflow] at mono
    exact Nat.le_antisymm (Nat.min_le_right _ _) mono

end ScriptFrontend.Binary64
