import ScriptFrontend.Proofs.FewestDigits
import ScriptFrontend.Proofs.FloatRange

/-! # Which floats are written with a point

A finite float constant is written in one of two ways.  Zero, and what lies from a ten-thousandth up to ten to the
sixteenth, has digits on both sides of a point, and a script would read it as one float with the same value.
Everything else has an exponent.  Then there is a point only if one digit is not enough to read the number back,
and a script would read a number and a word (`emit_float_text`).

So `10000000000000000.0` is written `1e16`, without a point, and a script would take it for an integer and a word
(`whole_float_without_point`).
-/

namespace ScriptFrontend

/-! ## Two ways to write a magnitude -/

/-- Whether a magnitude is written without an exponent. -/
def Positional (m : Nat) : Prop :=
  m = 0 ∨ Binary64.ofDecimal 1 (-4) ≤ m ∧ m < Binary64.ofDecimal 1 16

/-- Whether a single digit with some exponent reads back as a magnitude. -/
def SingleDigit (m : Nat) : Prop :=
  ∃ digit exponent, digit < 10 ∧ Binary64.ofDecimal digit exponent = m

/-- Whether a point stands between digits. -/
def HasPoint (text : List Char) : Prop :=
  ∃ before left right after, text = before ++ left :: '.' :: right :: after ∧
    left.isDigit = true ∧ right.isDigit = true

namespace Decimal

theorem toMagnitude_zero {x : Decimal} (none : x.digits = 0) : x.toMagnitude = 0 := by
  have same : x.value = value ⟨0, 0⟩ := by simp [value, none]
  rw [toMagnitude_eq same]
  exact Host.toMagnitude_decimalOf (m := 0) (by decide)

theorem digits_shortest_ne_zero {m : Nat} (finite : m < Binary64.infinity) (nonzero : m ≠ 0) :
    (shortest m).digits ≠ 0 := by
  intro none
  have nothing := toMagnitude_zero none
  rw [toMagnitude_shortest finite] at nothing
  exact nonzero nothing

theorem shortest_lower_bound : shortest (Binary64.ofDecimal 1 (-4)) = ⟨1, -4⟩ := by decide +kernel

theorem shortest_upper_bound : shortest (Binary64.ofDecimal 1 16) = ⟨1, 16⟩ := by decide +kernel

theorem positional_shortest_iff {m : Nat} (finite : m < Binary64.infinity) (nonzero : m ≠ 0) :
    Host.numbers.positional (shortest m).leadingExponent = true ↔ Positional m := by
  have some := digits_shortest_ne_zero finite nonzero
  have lower := le_leadingExponent_iff finite some shortest_lower_bound
  have upper := le_leadingExponent_iff finite some shortest_upper_bound
  simp only [Host.numbers, decide_eq_true_eq, Positional, nonzero, false_or, lower]
  omega

/-- The shortest decimal has a single digit if any decimal with a single digit reads back. -/
theorem others_eq_nil_iff {m : Nat} (finite : m < Binary64.infinity) {digit : Char} {others : List Char}
    (digits : Text.digits (shortest m).digits = digit :: others) : others = [] ↔ SingleDigit m := by
  have single : others = [] ↔ (shortest m).digits < 10 ^ 1 := by
    rw [← length_digits_le_iff Nat.one_pos, digits, List.length_cons, ← List.length_eq_zero_iff]
    omega
  rw [single]
  constructor
  · intro small
    exact ⟨(shortest m).digits, (shortest m).exponent, small, toMagnitude_shortest finite⟩
  · rintro ⟨digit, exponent, small, reads⟩
    exact digits_shortest_lt finite (x := ⟨digit, exponent⟩) reads Nat.one_pos small

end Decimal

/-! ## Texts and what scripts read in them -/

namespace Host

open Lexer

/-- Without an exponent there are digits on both sides of a point. -/
theorem exists_pointed_of_positional {m : Nat} (finite : m < Binary64.infinity) (positional : Positional m) :
    ∃ whole places, ((decimalOf m).render numbers).toList = whole ++ '.' :: places ∧ SpellsPointed whole places m := by
  obtain ⟨whole, places, spelled, spells⟩ := exists_pointed (decimalOf m)
  rw [toMagnitude_decimalOf finite] at spells
  have without : (decimalOf m).digits = 0 ∨ numbers.positional (decimalOf m).leadingExponent = true := by
    unfold decimalOf
    split
    · exact .inl rfl
    · next nonzero => exact .inr ((Decimal.positional_shortest_iff finite nonzero).mpr positional)
  refine ⟨whole, places, ?_, spells⟩
  rw [Decimal.render, if_pos without]
  exact spelled

/-- With an exponent there is one digit first, and a point only after that digit. -/
theorem exists_exponent_of_not_positional {m : Nat} (finite : m < Binary64.infinity) (notPositional : ¬ Positional m) :
    ∃ digit places exponent, ((decimalOf m).render numbers).toList =
        digit :: (pointed places ++ 'e' :: Text.signedDigits exponent) ∧
      digit.isDigit = true ∧ (∀ c ∈ places, c.isDigit = true) ∧ (places = [] ↔ SingleDigit m) := by
  have nonzero : m ≠ 0 := fun zero => notPositional (.inl zero)
  obtain ⟨digit, others, digits, isDigit, areDigits⟩ := Text.digits_eq_cons (Decimal.shortest m).digits
  have single := Decimal.others_eq_nil_iff finite digits
  refine ⟨digit, others, (Decimal.shortest m).leadingExponent, ?_, isDigit, areDigits, single⟩
  have some := Decimal.digits_shortest_ne_zero finite nonzero
  have withExponent := mt (Decimal.positional_shortest_iff finite nonzero).mp notPositional
  rw [decimalOf, if_neg nonzero, Decimal.render, if_neg (by simp [some, withExponent])]
  exact toList_scientific digits

/-! ## What scripts read -/

section

variable {whole places : List Char} {m : Nat} (spells : SpellsPointed whole places m)

include spells

theorem Lexer.SpellsPointed.hasPoint : HasPoint (whole ++ '.' :: places) := by
  obtain ⟨inside, someWhole, somePlaces, -⟩ := spells
  obtain ⟨before, left, rfl⟩ := (List.eq_nil_or_concat whole).resolve_left someWhole
  obtain ⟨right, after, rfl⟩ := List.exists_cons_of_ne_nil somePlaces
  exact ⟨before, left, right, after, by simp, inside left (by simp), inside right (by simp)⟩

/-- Digits on both sides of a point are one segment. -/
theorem Lexer.SpellsPointed.isSegmentation : IsSegmentation (whole ++ '.' :: places) [.float whole places] := by
  obtain ⟨wholeDigits, placesDigits⟩ := List.forall_mem_append.mp spells.inside
  have form : (Piece.float whole places).HasForm :=
    .inl (.float ⟨spells.someWhole, wholeDigits⟩ ⟨spells.somePlaces, placesDigits⟩)
  have ends : (Piece.float whole places).EndsBefore [] := by
    intro c head
    cases head
  have cut := IsSegmentation.cons ⟨form, ends⟩ .nil
  rwa [List.append_nil] at cut

/-- They are read as the number that they round to. -/
theorem Lexer.SpellsPointed.readFrom {x : Binary64} (same : x.magnitude = m) (unsigned : x.negative = false) :
    x.ReadFrom whole places := by
  obtain ⟨others, counted⟩ : ∃ others, places.length = others + 1 :=
    ⟨places.length - 1, by have := List.length_pos_iff.mpr spells.somePlaces; omega⟩
  have rounds := spells.rounds
  have nearest : x = .ofMagnitude
      (Binary64.ofRatio (Text.digitsValue (whole ++ places)) (Nat.pow 10 places.length)) := by
    rw [counted] at rounds ⊢
    rw [← ofMagnitude_magnitude unsigned, same, ← rounds]
    rfl
  rw [nearest]
  exact Binary64.readFrom whole places

end

theorem point_notMem_signedDigits (exponent : Int) : '.' ∉ Text.signedDigits exponent := by
  have digits (n : Nat) : '.' ∉ Text.digits n := by
    intro member
    exact absurd (Text.isDigit_of_mem_digits member) (by decide)
  cases exponent with
  | ofNat n => exact digits n
  | negSucc n => simp [Text.signedDigits, digits]

section

variable {digit : Char} {places : List Char} (isDigit : digit.isDigit = true)
  (areDigits : ∀ c ∈ places, c.isDigit = true) (exponent : Int)

include isDigit areDigits

theorem hasPoint_exponent_iff :
    HasPoint (digit :: (pointed places ++ 'e' :: Text.signedDigits exponent)) ↔ places ≠ [] := by
  cases places with
  | nil =>
    refine iff_of_false ?_ (by simp)
    rintro ⟨before, left, right, after, split, -⟩
    have member : '.' ∈ digit :: 'e' :: Text.signedDigits exponent := by
      show '.' ∈ digit :: (pointed [] ++ 'e' :: Text.signedDigits exponent)
      rw [split]
      simp
    simp only [List.mem_cons, point_notMem_signedDigits, or_false] at member
    rcases member with rfl | same
    · exact absurd isDigit (by decide)
    · exact absurd same (by decide)
  | cons place places =>
    refine iff_of_true ⟨[], digit, place, _, rfl, isDigit, areDigits place (.head _)⟩ (by simp)

/-- An exponent is no part of a number of a script: it begins a word. -/
theorem exists_isSegmentation_exponent :
    ∃ word rest, IsSegmentation (digit :: (pointed places ++ 'e' :: Text.signedDigits exponent))
      ((if places = [] then .integer [digit] else .float [digit] places) :: .word ('e' :: word) :: rest) := by
  let word := (Text.signedDigits exponent).takeWhile inWord
  let tail := (Text.signedDigits exponent).dropWhile inWord
  obtain ⟨rest, cutTail⟩ := exists_isSegmentation tail
  refine ⟨word, rest, ?_⟩
  have wordFits : (Piece.word ('e' :: word)).Fits tail :=
    ⟨.inl (.word (by decide) (all_takeWhile _ _)), ends_dropWhile _ _⟩
  have cutWord : IsSegmentation ('e' :: Text.signedDigits exponent) (.word ('e' :: word) :: rest) := by
    have cut := IsSegmentation.cons wordFits cutTail
    rwa [Piece.text, List.cons_append, List.takeWhile_append_dropWhile] at cut
  have first : Text.IsNumeral [digit] := ⟨by simp, by simpa using isDigit⟩
  have ends : EndsDigits ('e' :: Text.signedDigits exponent) := by
    rintro c ⟨⟩
    rfl
  cases places with
  | nil =>
    have notPoint : ∀ d more, 'e' :: Text.signedDigits exponent = '.' :: d :: more → d.isDigit = false := by
      rintro d more ⟨⟩
    have fits : (Piece.integer [digit]).Fits ('e' :: Text.signedDigits exponent) :=
      ⟨.inl (.integer first), ends, notPoint⟩
    exact .cons fits cutWord
  | cons place places =>
    have fits : (Piece.float [digit] (place :: places)).Fits ('e' :: Text.signedDigits exponent) :=
      ⟨.inl (.float first ⟨List.cons_ne_nil place places, areDigits⟩), ends⟩
    exact .cons fits cutWord

end

/-! ## Main result -/

end Host

/-- A finite float constant has a point between digits exactly if it is written without an exponent or needs more
    than one digit.  Without an exponent it is a number with a point in a script too, with the same value, and that
    alone.  With an exponent it would be a number and a word: an integer, if one digit is enough, or a float. -/
theorem emit_float_text {text file : String} {program : Host.Program} (emitted : emit text file = .ok program)
    {x : Binary64} (inside : x ∈ program.floats) (finite : x.isFinite = true) :
    let shown := (Host.Constant.float x).render.toList
    (HasPoint shown ↔ Positional x.magnitude ∨ ¬ SingleDigit x.magnitude) ∧
      (Positional x.magnitude → ∃ whole fraction, shown = whole ++ '.' :: fraction ∧
        IsSegmentation shown [.float whole fraction] ∧ x.ReadFrom whole fraction) ∧
      (¬ Positional x.magnitude → ∃ mantissa word rest,
        IsSegmentation shown (mantissa :: .word ('e' :: word) :: rest) ∧
        ((SingleDigit x.magnitude ∧ ∃ digit, mantissa = .integer [digit]) ∨
          (¬ SingleDigit x.magnitude ∧ ∃ digit places, mantissa = .float [digit] places))) := by
  intro shown
  obtain ⟨start, whole, fraction, -, read⟩ := emit_float emitted inside
  have bounded : x.magnitude < Binary64.infinity := by simpa [Binary64.isFinite] using finite
  have rendered : shown = ((Host.decimalOf x.magnitude).render Host.numbers).toList := by
    have signed := Host.toList_render_finite finite
    rwa [read.unsigned] at signed
  by_cases positional : Positional x.magnitude
  · obtain ⟨whole, places, spelled, spells⟩ := Host.exists_pointed_of_positional bounded positional
    rw [rendered, spelled]
    refine ⟨iff_of_true spells.hasPoint (.inl positional), ?_, absurd positional⟩
    intro _
    exact ⟨whole, places, rfl, spells.isSegmentation, spells.readFrom rfl read.unsigned⟩
  · obtain ⟨digit, places, exponent, spelled, isDigit, areDigits, single⟩ :=
      Host.exists_exponent_of_not_positional bounded positional
    rw [rendered, spelled, Host.hasPoint_exponent_iff isDigit areDigits exponent, ← single]
    refine ⟨by simp [positional], fun without => absurd without positional, ?_⟩
    intro _
    obtain ⟨word, rest, cut⟩ := Host.exists_isSegmentation_exponent isDigit areDigits exponent
    refine ⟨_, word, rest, cut, ?_⟩
    by_cases none : places = []
    · exact .inl ⟨none, digit, by rw [if_pos none]⟩
    · exact .inr ⟨none, digit, places, by rw [if_neg none]⟩

/-- A number with an exponent and a point needs more than one digit. -/
theorem emit_float_text_sample :
    let x : Binary64 := ⟨0x437B69B4BA630F35⟩
    ∃ program, emit "print 123456789012345678.0;" "script" = .ok program ∧ x ∈ program.floats ∧
      x.isFinite = true ∧ (Host.Constant.float x).render = "1.2345678901234568e17" ∧
      ¬ Positional x.magnitude ∧ ¬ SingleDigit x.magnitude := by
  intro x
  have accepted : ∃ program ∈ (emit "print 123456789012345678.0;" "script").toOption, x ∈ program.floats := by
    decide +kernel
  obtain ⟨program, member, inside⟩ := accepted
  have emitted := eq_ok_of_mem_toOption member
  have finite : x.isFinite = true := by decide
  have rendered : (Host.Constant.float x).render = "1.2345678901234568e17" := by decide +kernel
  have large : ¬ Positional x.magnitude := by
    unfold Positional
    decide +kernel
  have point : HasPoint (Host.Constant.float x).render.toList := by
    rw [rendered]
    exact ⟨[], '1', '2', "345678901234568e17".toList, rfl, rfl, rfl⟩
  have law := (emit_float_text emitted inside finite).1.mp point
  exact ⟨program, emitted, inside, finite, rendered, large, law.resolve_left large⟩

/-- Ten to the sixteenth is written without a point, and a script would read an integer and a word. -/
theorem whole_float_without_point :
    let x : Binary64 := ⟨0x4341C37937E08000⟩
    ∃ program, emit "print 10000000000000000.0;" "script" = .ok program ∧ x ∈ program.floats ∧
      x.isFinite = true ∧ (Host.Constant.float x).render = "1e16" ∧ ¬ HasPoint "1e16".toList ∧
      IsSegmentation "1e16".toList [.integer ['1'], .word ['e', '1', '6']] := by
  intro x
  have accepted : ∃ program ∈ (emit "print 10000000000000000.0;" "script").toOption, x ∈ program.floats := by
    decide +kernel
  obtain ⟨program, member, inside⟩ := accepted
  have emitted := eq_ok_of_mem_toOption member
  have rendered : (Host.Constant.float x).render = "1e16" := by decide +kernel
  have noPoint : ¬ HasPoint "1e16".toList := by
    rintro ⟨before, left, right, after, split, -⟩
    have absent : '.' ∉ "1e16".toList := by decide
    apply absent
    rw [split]
    simp
  refine ⟨program, emitted, inside, by decide, rendered, noPoint, ?_⟩
  exact isSegmentation_iff.mpr (by decide)

end ScriptFrontend
