import Mathlib.Algebra.Order.Field.Power
import Mathlib.Data.Rat.Cast.Order
import Mathlib.Tactic.FieldSimp
import Mathlib.Tactic.Linarith
import ScriptFrontend.Decimal.Layout
import ScriptFrontend.Proofs.Rounding

/-! # Shortest decimals have the fewest digits

No decimal that reads back as a magnitude has fewer digits than `Decimal.shortest` gives it
(`digits_shortest_lt`).  Values are compared as rational numbers, and what lies between two decimals that read back
reads back too, because rounding keeps the order.

* If any multiple of a power of ten reads back, one of the two around the magnitude does (`exists_neighbour`).  So
  no decimal on a coarser grid than that of the shortest one reads back (`not_reads_coarser`), unless that grid is
  the coarsest that is tried, on which there are no digits to save (`value_lt_topExponent`).
* A decimal with fewer digits is smaller, and between it and the shortest one there is a power of ten, which
  is on the coarser grid.

The same order says where numbers are written with an exponent (`le_leadingExponent_iff`).
-/

namespace ScriptFrontend

/-! ## Values -/

namespace Binary64

/-- The value of a finite magnitude. -/
def value (m : Nat) : ℚ := units m / unitsInOne

theorem ofRatio_le_ofRatio {n d m e : Nat} (positive : 0 < d) (otherPositive : 0 < e)
    (le : (n : ℚ) / d ≤ m / e) : ofRatio n d ≤ ofRatio m e := by
  rw [div_le_div_iff₀ (by exact_mod_cast positive) (by exact_mod_cast otherPositive)] at le
  exact ofRatio_mono positive otherPositive (by exact_mod_cast le)

end Binary64

namespace Decimal

def value (x : Decimal) : ℚ := x.digits * 10 ^ x.exponent

theorem ten_zpow_pos (exponent : Int) : (0 : ℚ) < 10 ^ exponent := zpow_pos (by norm_num) exponent

theorem value_le_value {x y : Decimal} (digits : x.digits ≤ y.digits) (exponent : x.exponent ≤ y.exponent) :
    x.value ≤ y.value := by
  apply mul_le_mul _ (zpow_le_zpow_right₀ (by norm_num) exponent) (ten_zpow_pos _).le (Nat.cast_nonneg _)
  exact_mod_cast digits

theorem value_mul_pow (digits zeros : Nat) (exponent : Int) :
    value ⟨digits * 10 ^ zeros, exponent⟩ = value ⟨digits, exponent + zeros⟩ := by
  have nonzero : (10 : ℚ) ≠ 0 := by norm_num
  simp only [value, Nat.cast_mul, Nat.cast_pow, Nat.cast_ofNat, zpow_add₀ nonzero, zpow_natCast]
  ring

theorem exists_ratio (x : Decimal) :
    ∃ n d : Nat, 0 < d ∧ x.toMagnitude = Binary64.ofRatio n d ∧ x.value = (n : ℚ) / d := by
  obtain ⟨digits, zeros | places⟩ := x
  · refine ⟨digits * Nat.pow 10 zeros, 1, Nat.one_pos, rfl, ?_⟩
    simp [value]
  · refine ⟨digits, Nat.pow 10 (places + 1), Nat.pow_pos (by decide), rfl, ?_⟩
    simp [value, zpow_negSucc, div_eq_mul_inv]

/-- A larger decimal never reads back as a smaller magnitude. -/
theorem toMagnitude_mono {x y : Decimal} (le : x.value ≤ y.value) : x.toMagnitude ≤ y.toMagnitude := by
  obtain ⟨n, d, positive, rounded, valued⟩ := x.exists_ratio
  obtain ⟨m, e, otherPositive, otherRounded, otherValued⟩ := y.exists_ratio
  rw [rounded, otherRounded]
  exact Binary64.ofRatio_le_ofRatio positive otherPositive (by rwa [← valued, ← otherValued])

theorem toMagnitude_eq {x y : Decimal} (same : x.value = y.value) : x.toMagnitude = y.toMagnitude :=
  Nat.le_antisymm (toMagnitude_mono same.le) (toMagnitude_mono same.ge)

section

variable {m : Nat} {x : Decimal} (finite : m < Binary64.infinity)

include finite

theorem toMagnitude_le (le : x.value ≤ Binary64.value m) : x.toMagnitude ≤ m := by
  obtain ⟨n, d, positive, rounded, valued⟩ := x.exists_ratio
  rw [rounded, ← Binary64.ofRatio_units finite]
  exact Binary64.ofRatio_le_ofRatio positive Binary64.unitsInOne_pos (by rwa [← valued])

theorem le_toMagnitude (le : Binary64.value m ≤ x.value) : m ≤ x.toMagnitude := by
  obtain ⟨n, d, positive, rounded, valued⟩ := x.exists_ratio
  rw [rounded, ← Binary64.ofRatio_units finite]
  exact Binary64.ofRatio_le_ofRatio Binary64.unitsInOne_pos positive (by rwa [← valued])

end

/-! ## Grids -/

theorem exists_ratioAt (m : Nat) (exponent : Int) :
    ∃ n d : Nat, ratioAt m exponent = (n, d) ∧ 0 < d ∧ Binary64.value m = (n : ℚ) / d * 10 ^ exponent := by
  have units : (0 : ℚ) < Binary64.unitsInOne := by exact_mod_cast Binary64.unitsInOne_pos
  cases exponent with
  | ofNat zeros =>
    refine ⟨_, _, rfl, Nat.mul_pos Binary64.unitsInOne_pos (Nat.pow_pos (by decide)), ?_⟩
    simp only [Binary64.value, Nat.pow_eq, Nat.cast_mul, Nat.cast_pow, Nat.cast_ofNat, Int.ofNat_eq_natCast,
      zpow_natCast]
    field_simp
  | negSucc places =>
    refine ⟨_, _, rfl, Binary64.unitsInOne_pos, ?_⟩
    simp only [Binary64.value, Nat.pow_eq, Nat.cast_mul, Nat.cast_pow, Nat.cast_ofNat, zpow_negSucc]
    field_simp

/-- The two multiples of a power of ten around a magnitude. -/
theorem exists_around (m : Nat) (exponent : Int) :
    ∃ lower, (∀ x, x ∈ neighbours m exponent ↔ x = ⟨lower, exponent⟩ ∨ x = ⟨lower + 1, exponent⟩) ∧
      value ⟨lower, exponent⟩ ≤ Binary64.value m ∧ Binary64.value m < value ⟨lower + 1, exponent⟩ := by
  obtain ⟨n, d, ratio, positive, valued⟩ := exists_ratioAt m exponent
  have divisor : (0 : ℚ) < d := by exact_mod_cast positive
  have tens := ten_zpow_pos exponent
  refine ⟨n / d, ?_, ?_, ?_⟩
  · intro x
    simp only [neighbours, ratio]
    split <;> simp [or_comm]
  · rw [valued, value, mul_le_mul_iff_of_pos_right tens, le_div_iff₀ divisor]
    exact_mod_cast Nat.div_mul_le_self n d
  · rw [valued, value, mul_lt_mul_iff_of_pos_right tens, div_lt_iff₀ divisor]
    exact_mod_cast Nat.lt_mul_of_div_lt (Nat.lt_succ_self _) positive

/-- If some multiple of a power of ten reads back, then one of the two around the magnitude does, the one that lies
    between that multiple and the magnitude. -/
theorem exists_neighbour {m : Nat} (finite : m < Binary64.infinity) {x : Decimal} (reads : x.toMagnitude = m) :
    ∃ y ∈ neighbours m x.exponent, y.toMagnitude = m := by
  obtain ⟨lower, around, below, above⟩ := exists_around m x.exponent
  by_cases side : x.digits ≤ lower
  · refine ⟨⟨lower, x.exponent⟩, (around _).mpr (.inl rfl), ?_⟩
    have between : x.value ≤ value ⟨lower, x.exponent⟩ := value_le_value side (Int.le_refl _)
    have least := toMagnitude_mono between
    have most := toMagnitude_le finite below
    omega
  · refine ⟨⟨lower + 1, x.exponent⟩, (around _).mpr (.inr rfl), ?_⟩
    have between : value ⟨lower + 1, x.exponent⟩ ≤ x.value :=
      value_le_value (Nat.lt_of_not_le side) (Int.le_refl _)
    have most := toMagnitude_mono between
    have least := le_toMagnitude finite above.le
    omega

/-! ## The walk over the grids -/

theorem exponents_pairwise (m : Nat) : (exponents m).Pairwise (· > ·) := by
  rw [exponents, List.pairwise_map]
  apply List.pairwise_lt_range.imp
  intro earlier later before
  omega

theorem mem_exponents {m : Nat} {exponent : Int} :
    exponent ∈ exponents m ↔ finestExponent ≤ exponent ∧ exponent ≤ topExponent m := by
  simp only [exponents, List.mem_map, List.mem_range]
  constructor
  · rintro ⟨i, bound, rfl⟩
    omega
  · rintro ⟨low, high⟩
    exact ⟨(topExponent m - exponent).toNat, by omega, by omega⟩

theorem finestExponent_lt_top (m : Nat) : finestExponent < topExponent m := by
  simp only [finestExponent, topExponent]
  omega

/-- Where the walk ends: with the grid that holds every magnitude, or next to the magnitude on a grid that was
    tried.  On no grid before that does a neighbour of the magnitude read back. -/
theorem shortest_walk (m : Nat) :
    ((shortest m).exponent = finestExponent ∨
      (shortest m).exponent ≤ topExponent m ∧ shortest m ∈ neighbours m (shortest m).exponent) ∧
    ∀ exponent, (shortest m).exponent < exponent → exponent ≤ topExponent m →
      ∀ x ∈ neighbours m exponent, x.toMagnitude ≠ m := by
  unfold shortest
  cases found : (exponents m).findSome? fun e => (neighbours m e).find? fun x => x.toMagnitude = m with
  | none =>
    refine ⟨.inl rfl, ?_⟩
    intro exponent coarser tried
    have member : exponent ∈ exponents m := mem_exponents.mpr ⟨Int.le_of_lt coarser, tried⟩
    simpa using List.findSome?_eq_none_iff.mp found exponent member
  | some x =>
    obtain ⟨before, last, after, split, candidate, nothing⟩ := List.findSome?_eq_some_iff.mp found
    have inside := List.mem_of_find?_eq_some candidate
    have same : x.exponent = last := by
      obtain ⟨lower, around, -⟩ := exists_around m last
      rcases (around x).mp inside with rfl | rfl <;> rfl
    have bounds : finestExponent ≤ last ∧ last ≤ topExponent m := mem_exponents.mp (by simp [split])
    rw [Option.getD_some, same]
    refine ⟨.inr ⟨bounds.2, inside⟩, ?_⟩
    intro exponent coarser tried
    have member : exponent ∈ exponents m := mem_exponents.mpr ⟨by omega, tried⟩
    -- The grids are tried from the coarsest on, so a coarser one was tried before.
    have ordered := exponents_pairwise m
    rw [split, List.pairwise_append, List.pairwise_cons] at ordered
    rw [split, List.mem_append, List.mem_cons] at member
    rcases member with earlier | rfl | later
    · simpa using nothing exponent earlier
    · omega
    · have finer := ordered.2.1.1 exponent later
      omega

/-- On no grid coarser than that of the shortest decimal is there a decimal that reads back, unless the shortest
    one is on the coarsest grid that is tried. -/
theorem not_reads_coarser {m : Nat} (finite : m < Binary64.infinity) (finer : (shortest m).exponent < topExponent m)
    {x : Decimal} (coarser : (shortest m).exponent < x.exponent) : x.toMagnitude ≠ m := by
  intro reads
  obtain ⟨zeros, split⟩ := Int.le.dest coarser
  have aligned : value ⟨x.digits * 10 ^ zeros, (shortest m).exponent + 1⟩ = x.value := by
    rw [value_mul_pow, split]
  obtain ⟨y, member, readsBack⟩ := exists_neighbour finite ((toMagnitude_eq aligned).trans reads)
  exact (shortest_walk m).2 _ (Int.lt_succ _) finer y member readsBack

/-! ## The coarsest grid -/

/-- Powers of two and ten, compared by how many bits some power of ten has. -/
theorem two_zpow_le_ten_zpow {p q : Nat} (positive : p ≠ 0) (above : 2 ^ p ≤ 10 ^ (q + 1)) (below : 10 ^ q ≤ 2 ^ p)
    {a t : Int} (bounded : -p ≤ a) (enough : (q + 1) * a + p ≤ p * t) : (2 : ℚ) ^ a ≤ 10 ^ t := by
  have ten : (1 : ℚ) ≤ 10 := by norm_num
  have raised : ((2 : ℚ) ^ a) ^ p ≤ (10 ^ t) ^ p := by
    have last : ((10 : ℚ) ^ t) ^ p = 10 ^ (p * t : Int) := by rw [← zpow_natCast, ← zpow_mul, mul_comm]
    have first : ((2 : ℚ) ^ a) ^ p = (2 ^ p) ^ a := by
      rw [← zpow_natCast, ← zpow_natCast, ← zpow_mul, ← zpow_mul, mul_comm]
    rw [first, last]
    obtain ⟨n, rfl | rfl⟩ := a.eq_nat_or_neg
    · calc ((2 : ℚ) ^ p) ^ (n : Int)
          = (2 ^ p) ^ n := zpow_natCast _ n
        _ ≤ (10 ^ (q + 1)) ^ n := pow_le_pow_left₀ (by positivity) (by exact_mod_cast above) n
        _ = 10 ^ ((q + 1) * n : Int) := by rw [← pow_mul, ← zpow_natCast]; push_cast; rfl
        _ ≤ 10 ^ (p * t : Int) := zpow_le_zpow_right₀ ten (by omega)
    · calc ((2 : ℚ) ^ p) ^ (-n : Int)
          = ((2 ^ p) ^ n)⁻¹ := by rw [zpow_neg, zpow_natCast]
        _ ≤ ((10 ^ q) ^ n)⁻¹ := by
            apply inv_anti₀ (by positivity)
            exact pow_le_pow_left₀ (by positivity) (by exact_mod_cast below) n
        _ = 10 ^ (-(q * n) : Int) := by rw [← pow_mul, ← zpow_natCast, ← zpow_neg]; push_cast; rfl
        _ ≤ 10 ^ (p * t : Int) := zpow_le_zpow_right₀ ten (by linarith)
  exact (pow_le_pow_iff_left₀ (by positivity) (by positivity) positive).mp raised

theorem value_lt_two_zpow (m : Nat) : Binary64.value m < 2 ^ ((Binary64.units m).log2 - 1073 : Int) := by
  obtain ⟨bits, isBits, power⟩ : ∃ bits, bits = 1074 ∧ Binary64.unitsInOne = Nat.pow 2 bits := by
    unfold Binary64.unitsInOne
    exact ⟨_, rfl, rfl⟩
  have scale : (Binary64.unitsInOne : ℚ) = 2 ^ bits := by
    rw [power]
    exact Nat.cast_pow 2 bits
  have exponent : ((Binary64.units m).log2 - 1073 : Int) = ((Binary64.units m).log2 + 1 : Nat) - (bits : Int) := by
    omega
  rw [Binary64.value, scale, exponent, zpow_sub₀ (by norm_num), zpow_natCast, zpow_natCast]
  apply div_lt_div_of_pos_right _ (by positivity)
  exact_mod_cast Nat.lt_log2_self (n := Binary64.units m)

/-- The coarsest grid that is tried is coarser than the magnitude. -/
theorem value_lt_topExponent (m : Nat) : Binary64.value m < 10 ^ topExponent m := by
  apply lt_of_lt_of_le (value_lt_two_zpow m)
  have above : 2 ^ 100000 ≤ 10 ^ (30102 + 1) := by decide +kernel
  have below : 10 ^ 30102 ≤ 2 ^ 100000 := by decide +kernel
  apply two_zpow_le_ten_zpow (by decide) above below
  · omega
  · simp only [topExponent]
    omega

/-- On the coarsest grid the shortest decimal has a single digit. -/
theorem digits_shortest_le_one {m : Nat} (coarsest : ¬ (shortest m).exponent < topExponent m) :
    (shortest m).digits ≤ 1 := by
  rcases (shortest_walk m).1 with finest | ⟨tried, member⟩
  · have finer := finestExponent_lt_top m
    omega
  · obtain ⟨lower, around, below, -⟩ := exists_around m (shortest m).exponent
    have top : (shortest m).exponent = topExponent m := by omega
    have none : lower = 0 := by
      have less := lt_of_le_of_lt below (value_lt_topExponent m)
      rw [value, top, mul_lt_iff_lt_one_left (ten_zpow_pos _)] at less
      have zero : lower < 1 := by exact_mod_cast less
      omega
    rcases (around _).mp member with same | same
    · rw [same, none]
      exact Nat.zero_le 1
    · rw [same, none]

/-! ## Main result -/

/-- No decimal that reads back as a magnitude has fewer digits than the shortest one. -/
theorem digits_shortest_lt {m : Nat} (finite : m < Binary64.infinity) {x : Decimal} (reads : x.toMagnitude = m)
    {count : Nat} (positive : 0 < count) (few : x.digits < 10 ^ count) : (shortest m).digits < 10 ^ count := by
  by_contra many
  by_cases finer : (shortest m).exponent < topExponent m
  · have fine : x.exponent ≤ (shortest m).exponent := by
      by_contra coarser
      exact not_reads_coarser finite finer (Int.lt_of_not_ge coarser) reads
    -- The least number with one digit more is on the next coarser grid, and between the two decimals.
    obtain ⟨fewer, rfl⟩ : ∃ fewer, count = fewer + 1 := ⟨count - 1, by omega⟩
    let power : Decimal := ⟨1 * 10 ^ fewer, (shortest m).exponent + 1⟩
    have same : power.value = value ⟨1 * 10 ^ (fewer + 1), (shortest m).exponent⟩ := by
      rw [value_mul_pow, value_mul_pow]
      congr 2
      omega
    have least : x.value ≤ value ⟨1 * 10 ^ (fewer + 1), (shortest m).exponent⟩ :=
      value_le_value (by rw [Nat.one_mul]; exact few.le) fine
    have most : value ⟨1 * 10 ^ (fewer + 1), (shortest m).exponent⟩ ≤ (shortest m).value :=
      value_le_value (by rw [Nat.one_mul]; exact Nat.le_of_not_lt many) (Int.le_refl _)
    rw [← same] at least most
    have low := toMagnitude_mono least
    have high := toMagnitude_mono most
    rw [toMagnitude_shortest finite] at high
    exact not_reads_coarser finite finer (Int.lt_succ _) (show power.toMagnitude = m by omega)
  · have single := digits_shortest_le_one finer
    have ten : 10 ^ 1 ≤ 10 ^ count := Nat.pow_le_pow_right (by decide) positive
    omega

/-! ## The leading digit -/

theorem length_digits_le_iff {n count : Nat} (positive : 0 < count) :
    (Text.digits n).length ≤ count ↔ n < 10 ^ count :=
  Nat.length_toDigits_le_iff (by decide) positive

/-- A decimal lies between the powers of ten of its leading digit and the next. -/
theorem value_bounds {x : Decimal} (nonzero : x.digits ≠ 0) :
    value ⟨1, x.leadingExponent⟩ ≤ x.value ∧ x.value ≤ value ⟨1, x.leadingExponent + 1⟩ := by
  have some : 0 < (Text.digits x.digits).length := Nat.length_toDigits_pos
  obtain ⟨others, counted⟩ : ∃ others, (Text.digits x.digits).length = others + 1 :=
    ⟨(Text.digits x.digits).length - 1, by omega⟩
  have low : 1 * 10 ^ others ≤ x.digits := by
    rw [Nat.one_mul]
    cases others with
    | zero => omega
    | succ others =>
      by_contra short
      have tooShort := (length_digits_le_iff (Nat.succ_pos others)).mpr (Nat.lt_of_not_le short)
      omega
  have high : x.digits ≤ 1 * 10 ^ (others + 1) := by
    rw [Nat.one_mul]
    exact ((length_digits_le_iff (Nat.succ_pos others)).mp (Nat.le_of_eq counted)).le
  have least : value ⟨1 * 10 ^ others, x.exponent⟩ ≤ x.value := value_le_value low (Int.le_refl _)
  have most : x.value ≤ value ⟨1 * 10 ^ (others + 1), x.exponent⟩ := value_le_value high (Int.le_refl _)
  have leading : x.leadingExponent = x.exponent + others := by
    rw [leadingExponent, counted]
    omega
  rw [value_mul_pow] at least most
  rw [leading]
  refine ⟨least, ?_⟩
  rwa [Nat.cast_succ, ← Int.add_assoc] at most

/-- Where the exponent of the leading digit reaches a bound, if the bound itself has a single digit. -/
theorem le_leadingExponent_iff {m : Nat} (finite : m < Binary64.infinity) (nonzero : (shortest m).digits ≠ 0)
    {bound : Int} (single : shortest (Binary64.ofDecimal 1 bound) = ⟨1, bound⟩) :
    bound ≤ (shortest m).leadingExponent ↔ Binary64.ofDecimal 1 bound ≤ m := by
  obtain ⟨least, most⟩ := value_bounds nonzero
  have reads := toMagnitude_shortest finite
  constructor
  · intro reached
    have above : value ⟨1, bound⟩ ≤ value ⟨1, (shortest m).leadingExponent⟩ :=
      value_le_value (Nat.le_refl _) reached
    rw [← reads]
    exact toMagnitude_mono (above.trans least)
  · intro large
    by_contra missed
    have below : value ⟨1, (shortest m).leadingExponent + 1⟩ ≤ value ⟨1, bound⟩ :=
      value_le_value (Nat.le_refl _) (show (shortest m).leadingExponent + 1 ≤ bound by omega)
    have small := toMagnitude_mono (most.trans below)
    rw [reads] at small
    obtain rfl : m = Binary64.ofDecimal 1 bound := Nat.le_antisymm small large
    have digit : (Text.digits 1).length = 1 := by decide
    simp only [single, leadingExponent, digit] at missed
    omega

end Decimal

end ScriptFrontend
