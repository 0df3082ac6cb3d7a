import ScriptFrontend.Host.Render
import ScriptFrontend.Proofs.Boundary
import ScriptFrontend.Proofs.HostGrammar
import ScriptFrontend.Proofs.ShortestDecimal

/-! # Numbers in host text

A finite number is read back from its text: the text is a sign, if the number has one, and a float
lexeme that rounds to the magnitude.  The digits before and after the point and the exponent are not
those of the decimal that was written (a point moves places into the exponent), so the two decimals
are compared by what they round to.
-/

namespace ScriptFrontend.Host

namespace Lexer

/-- Digits after a point; without digits there is no point. -/
def pointed : List Char → List Char
  | [] => []
  | places => '.' :: places

/-- A text that goes on neither with a digit nor with a point. -/
def EndsPlaces (rest : List Char) : Prop := ∀ c ∈ rest.head?, c.isDigit = false ∧ c ≠ '.'

theorem endsPlaces_of_detached {rest : List Char} (detached : Detached rest) : EndsPlaces rest :=
  fun c head => ⟨detached.endsDigits c head, (detached c head).2⟩

theorem fraction_pointed {places rest : List Char} (digits : ∀ c ∈ places, c.isDigit = true)
    (ends : EndsPlaces rest) : fraction (pointed places ++ rest) = (places, rest) := by
  cases places with
  | nil =>
    show fraction rest = ([], rest)
    unfold fraction
    split
    · exact absurd rfl (ends '.' rfl).2
    · rfl
  | cons d places =>
    have endsRun : ∀ c ∈ rest.head?, c.isDigit = false := fun c head => (ends c head).1
    have inside : ∀ c ∈ places, c.isDigit = true := fun c member => digits c (.tail _ member)
    simp [pointed, fraction, digits d (.head _), takeWhile_run inside endsRun,
      dropWhile_run inside endsRun]

/-- How a number falls apart: the digits before the point and after it, and what follows them. -/
theorem number_parts {whole places rest : List Char} (digits : ∀ c ∈ whole ++ places, c.isDigit = true)
    (ends : EndsPlaces rest) :
    (whole ++ (pointed places ++ rest)).takeWhile Char.isDigit = whole ∧
      fraction ((whole ++ (pointed places ++ rest)).dropWhile Char.isDigit) = (places, rest) := by
  have wholeDigits : ∀ c ∈ whole, c.isDigit = true := fun c member =>
    digits c (List.mem_append_left _ member)
  have placesDigits : ∀ c ∈ places, c.isDigit = true := fun c member =>
    digits c (List.mem_append_right _ member)
  have endsWhole : ∀ c ∈ (pointed places ++ rest).head?, c.isDigit = false := by
    intro c head
    cases places with
    | nil => exact (ends c head).1
    | cons _ _ => cases head; rfl
  rw [takeWhile_run wholeDigits endsWhole, dropWhile_run wholeDigits endsWhole,
    fraction_pointed placesDigits ends]
  exact ⟨rfl, rfl⟩

theorem number_exponent {whole places rest after : List Char} {exponent : Int}
    (digits : ∀ c ∈ whole ++ places, c.isDigit = true) (ends : EndsPlaces rest)
    (found : exponent? rest = some (exponent, after)) :
    number (whole ++ (pointed places ++ rest)) =
      (.float ⟨Text.digitsValue (whole ++ places), exponent - places.length⟩, after) := by
  obtain ⟨taken, dropped⟩ := number_parts digits ends
  simp only [number, taken, dropped, found]

theorem number_point {whole places rest : List Char} (digits : ∀ c ∈ whole ++ places, c.isDigit = true)
    (ends : EndsPlaces rest) (found : exponent? rest = none) (somePlaces : places ≠ []) :
    number (whole ++ (pointed places ++ rest)) =
      (.float ⟨Text.digitsValue (whole ++ places), -places.length⟩, rest) := by
  obtain ⟨taken, dropped⟩ := number_parts digits ends
  simp only [number, taken, dropped, found, somePlaces, if_false]

theorem number_whole {whole rest : List Char} (digits : ∀ c ∈ whole, c.isDigit = true)
    (ends : EndsPlaces rest) (found : exponent? rest = none) :
    number (whole ++ rest) = (.integer (Text.digitsValue whole), rest) := by
  obtain ⟨taken, dropped⟩ := number_parts (by simpa using digits : ∀ c ∈ whole ++ [], c.isDigit = true) ends
  simp only [pointed, List.nil_append] at taken dropped
  simp only [number, taken, dropped, found, if_true, List.append_nil]

theorem exponent?_detached {rest : List Char} (detached : Detached rest) : exponent? rest = none := by
  unfold exponent?
  split
  case h_7 => rfl
  all_goals exact absurd (detached _ rfl).1 (by decide)

theorem exponentDigits_digits (signed : Nat → Int) (n : Nat) {rest : List Char}
    (ends : EndsDigits rest) :
    exponentDigits signed (Text.digits n ++ rest) = some (signed n, rest) := by
  have inside : ∀ c ∈ Text.digits n, c.isDigit = true := fun _ => Text.isDigit_of_mem_digits
  unfold exponentDigits
  rw [takeWhile_run inside ends, dropWhile_run inside ends]
  obtain ⟨digit, others, spelled, _⟩ := Text.digits_eq_cons n
  split
  · next none => simp [spelled] at none
  · rw [Text.digitsValue_digits]

theorem exponent?_unsigned {rest : List Char} (notMinus : rest.head? ≠ some '-')
    (notPlus : rest.head? ≠ some '+') :
    exponent? ('e' :: rest) = exponentDigits (fun n => n) rest := by
  unfold exponent?
  split <;> simp_all

theorem exponent?_signedDigits (exponent : Int) {rest : List Char} (ends : EndsDigits rest) :
    exponent? ('e' :: (Text.signedDigits exponent ++ rest)) = some (exponent, rest) := by
  cases exponent with
  | ofNat n =>
    have head : ∀ sign, sign.isDigit = false → (Text.digits n ++ rest).head? ≠ some sign := by
      intro sign notDigit found
      obtain ⟨digit, others, spelled, isDigit, _⟩ := Text.digits_eq_cons n
      rw [spelled] at found
      cases found
      rw [notDigit] at isDigit
      contradiction
    show exponent? ('e' :: (Text.digits n ++ rest)) = _
    rw [exponent?_unsigned (head '-' rfl) (head '+' rfl), exponentDigits_digits _ n ends]
    rfl
  | negSucc n =>
    show exponentDigits (fun n => -n) (Text.digits (n + 1) ++ rest) = _
    rw [exponentDigits_digits _ (n + 1) ends]
    rfl

/-! ## Decimals -/

theorem digitsValue_padded (count : Nat) (digits : List Char) :
    Text.digitsValue (List.replicate count '0' ++ digits) = Text.digitsValue digits := by
  simp [Text.digitsValue, Nat.ofDigitChars_append]

theorem digitsValue_zeros (digits : List Char) (count : Nat) :
    Text.digitsValue (digits ++ List.replicate count '0') = Text.digitsValue digits * Nat.pow 10 count := by
  simp [Text.digitsValue, Nat.ofDigitChars_append, Nat.mul_comm]

/-- What it means that a text is a number of some magnitude: it begins with a digit, and it is read as
    a float that rounds to the magnitude. -/
def ReadsMagnitude (text : List Char) (magnitude : Nat) : Prop :=
  (∃ digit others, text = digit :: others ∧ digit.isDigit = true) ∧
  ∃ decimal : Decimal, decimal.toMagnitude = magnitude ∧
    ∀ rest, Detached rest → number (text ++ rest) = (.float decimal, rest)

/-- Digits on both sides of a point that round to some magnitude. -/
structure SpellsPointed (whole places : List Char) (magnitude : Nat) : Prop where
  inside : ∀ c ∈ whole ++ places, c.isDigit = true
  someWhole : whole ≠ []
  somePlaces : places ≠ []
  rounds : (Decimal.mk (Text.digitsValue (whole ++ places)) (-places.length)).toMagnitude = magnitude

theorem SpellsPointed.readsMagnitude {whole places : List Char} {magnitude : Nat}
    (spells : SpellsPointed whole places magnitude) : ReadsMagnitude (whole ++ '.' :: places) magnitude := by
  obtain ⟨inside, someWhole, somePlaces, rounds⟩ := spells
  refine ⟨?_, ?_⟩
  · cases whole with
    | nil => contradiction
    | cons digit others => exact ⟨digit, others ++ '.' :: places, rfl, inside digit (by simp)⟩
  · refine ⟨_, rounds, ?_⟩
    intro rest detached
    have point : '.' :: places = pointed places := by
      cases places with
      | nil => contradiction
      | cons _ _ => rfl
    rw [point, List.append_assoc, number_point inside (endsPlaces_of_detached detached)
      (exponent?_detached detached) somePlaces]

theorem exists_pointed_whole (digits zeros : Nat) :
    ∃ whole places, (Decimal.positional ".0" ⟨digits, .ofNat zeros⟩).toList = whole ++ '.' :: places ∧
      SpellsPointed whole places (Decimal.mk digits (.ofNat zeros)).toMagnitude := by
  let whole := Text.digits digits ++ List.replicate zeros '0'
  have inside : ∀ c ∈ whole ++ ['0'], c.isDigit = true := by
    intro c member
    simp only [whole, List.mem_append, List.mem_replicate, List.mem_singleton] at member
    rcases member with (member | ⟨-, rfl⟩) | rfl
    · exact Text.isDigit_of_mem_digits member
    · rfl
    · rfl
  have someWhole : whole ≠ [] := by
    obtain ⟨digit, others, spelled, _⟩ := Text.digits_eq_cons digits
    simp [whole, spelled]
  have value : Text.digitsValue (whole ++ ['0']) = digits * Nat.pow 10 zeros * Nat.pow 10 1 := by
    show Text.digitsValue (whole ++ List.replicate 1 '0') = _
    rw [digitsValue_zeros, digitsValue_zeros, Text.digitsValue_digits]
  refine ⟨whole, ['0'], by simp [Decimal.positional, whole], inside, someWhole, by simp, ?_⟩
  -- The place after the point is taken back by the exponent.
  rw [value]
  exact Binary64.ofDecimal_mul digits zeros 0

theorem exists_pointed_places (digits places : Nat) :
    ∃ whole fraction, (Decimal.positional ".0" ⟨digits, .negSucc places⟩).toList = whole ++ '.' :: fraction ∧
      SpellsPointed whole fraction (Decimal.mk digits (.negSucc places)).toMagnitude := by
  let padded := List.replicate (places + 1 + 1 - (Text.digits digits).length) '0' ++ Text.digits digits
  let whole := padded.take (padded.length - (places + 1))
  let fraction := padded.drop (padded.length - (places + 1))
  -- Cutting the padded digits at the point loses none, and leading zeros count for nothing.
  have joined : whole ++ fraction = padded := List.take_append_drop _ _
  have long : places + 1 < padded.length := by
    simp only [padded, List.length_append, List.length_replicate]
    omega
  have count : fraction.length = places + 1 := by
    simp only [fraction, List.length_drop]
    omega
  have inside : ∀ c ∈ whole ++ fraction, c.isDigit = true := by
    rw [joined]
    intro c member
    simp only [padded, List.mem_append, List.mem_replicate] at member
    cases member with
    | inl zero =>
      rw [zero.2]
      rfl
    | inr member => exact Text.isDigit_of_mem_digits member
  have someWhole : whole ≠ [] := by
    have some : 0 < whole.length := by
      simp only [whole, List.length_take]
      omega
    exact List.ne_nil_of_length_pos some
  have someFraction : fraction ≠ [] := List.ne_nil_of_length_pos (by omega)
  have value : Text.digitsValue (whole ++ fraction) = digits := by
    rw [joined, digitsValue_padded, Text.digitsValue_digits]
  have spelled : (Decimal.positional ".0" ⟨digits, .negSucc places⟩).toList = whole ++ '.' :: fraction := by
    simp [Decimal.positional, whole, fraction, padded]
  refine ⟨whole, fraction, spelled, inside, someWhole, someFraction, ?_⟩
  rw [value, count]
  rfl

/-- A decimal without an exponent has digits on both sides of a point. -/
theorem exists_pointed (x : Decimal) :
    ∃ whole places, (x.positional ".0").toList = whole ++ '.' :: places ∧
      SpellsPointed whole places x.toMagnitude := by
  obtain ⟨digits, zeros | places⟩ := x
  · exact exists_pointed_whole digits zeros
  · exact exists_pointed_places digits places

/-- A decimal with an exponent has one digit before the point, and no point if there is no other digit. -/
theorem toList_scientific {x : Decimal} {digit : Char} {others : List Char}
    (digits : Text.digits x.digits = digit :: others) :
    x.scientific.toList = [digit] ++ (pointed others ++ 'e' :: Text.signedDigits x.leadingExponent) := by
  cases others <;> simp [Decimal.scientific, digits, pointed]

theorem readsMagnitude_scientific (x : Decimal) : ReadsMagnitude x.scientific.toList x.toMagnitude := by
  obtain ⟨digit, others, digits, isDigit, areDigits⟩ := Text.digits_eq_cons x.digits
  have inside : ∀ c ∈ [digit] ++ others, c.isDigit = true := by
    intro c member
    cases member with
    | head => exact isDigit
    | tail _ member => exact areDigits c member
  have spelled := toList_scientific digits
  refine ⟨⟨digit, _, spelled, isDigit⟩, x, rfl, ?_⟩
  intro rest detached
  have ends : EndsPlaces ('e' :: (Text.signedDigits x.leadingExponent ++ rest)) := by
    intro c head
    cases head
    decide
  have value : Text.digitsValue ([digit] ++ others) = x.digits := by
    rw [List.singleton_append, ← digits, Text.digitsValue_digits]
  -- The digits after the point lower the exponent by what writing it raised it.
  have exponent : x.leadingExponent - others.length = x.exponent := by
    simp only [Decimal.leadingExponent, digits, List.length_cons]
    omega
  have followed : x.scientific.toList ++ rest =
      [digit] ++ (pointed others ++ 'e' :: (Text.signedDigits x.leadingExponent ++ rest)) := by
    simp [spelled]
  rw [followed, number_exponent inside ends (exponent?_signedDigits _ detached.endsDigits), value,
    exponent]

theorem readsMagnitude_render (x : Decimal) : ReadsMagnitude (x.render numbers).toList x.toMagnitude := by
  unfold Decimal.render
  split
  · obtain ⟨whole, places, spelled, spells⟩ := exists_pointed x
    rw [numbers, spelled]
    exact spells.readsMagnitude
  · exact readsMagnitude_scientific x

end Lexer

/-- The decimal that is written for a finite magnitude.  For zero no digits are looked for. -/
def decimalOf (m : Nat) : Decimal := if m = 0 then ⟨0, 0⟩ else Decimal.shortest m

theorem toMagnitude_decimalOf {m : Nat} (finite : m < Binary64.infinity) : (decimalOf m).toMagnitude = m := by
  unfold decimalOf
  split
  · next zero =>
    rw [zero]
    show Binary64.ofRatio (0 * Nat.pow 10 0) 1 = 0
    simp [Binary64.ofRatio, Binary64.roundedQuotient]
  · exact Decimal.toMagnitude_shortest finite

theorem toList_render_finite {x : Binary64} (finite : x.isFinite = true) :
    (x.render numbers).toList =
      (if x.negative then ['-'] else []) ++ ((decimalOf x.magnitude).render numbers).toList := by
  have bounded : x.magnitude < Binary64.infinity := by simpa [Binary64.isFinite] using finite
  have notNaN : x.isNaN = false := by
    simp only [Binary64.isNaN, decide_eq_false_iff_not]
    omega
  have sign : (if x.negative then "-" else "").toList = if x.negative then ['-'] else [] := by
    split <;> rfl
  have notInfinite : x.magnitude ≠ Binary64.infinity := Nat.ne_of_lt bounded
  simp only [Binary64.render, notNaN, Bool.false_eq_true, if_false, if_neg notInfinite, decimalOf]
  split <;> simp only [String.toList_append, sign]

/-- The text of a finite number is its sign and then its magnitude. -/
theorem render_finite {x : Binary64} (finite : x.isFinite = true) :
    ∃ text, (x.render numbers).toList = (if x.negative then ['-'] else []) ++ text ∧
      Lexer.ReadsMagnitude text x.magnitude := by
  have bounded : x.magnitude < Binary64.infinity := by simpa [Binary64.isFinite] using finite
  refine ⟨_, toList_render_finite finite, ?_⟩
  have reads := Lexer.readsMagnitude_render (decimalOf x.magnitude)
  rwa [toMagnitude_decimalOf bounded] at reads

end ScriptFrontend.Host
