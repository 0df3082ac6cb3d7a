import ScriptFrontend.Text.Blank
import ScriptFrontend.Text.Digits
import ScriptFrontend.Text.Escape
import ScriptFrontend.Token.Piece

/-! # Where words and numbers end

Facts about characters and runs of them that reading host text and reading scripts have in common.  A
word or a number ends before a text that is `Detached`.
-/

namespace ScriptFrontend

/-! ## Characters by their code points -/

theorem isDigit_iff {c : Char} : c.isDigit = true ↔ 48 ≤ c.toNat ∧ c.toNat ≤ 57 := by
  simp only [Char.isDigit, Bool.and_eq_true, decide_eq_true_eq, ge_iff_le, UInt32.le_iff_toNat_le]
  exact Iff.rfl

theorem isAlpha_iff {c : Char} :
    c.isAlpha = true ↔ (65 ≤ c.toNat ∧ c.toNat ≤ 90) ∨ (97 ≤ c.toNat ∧ c.toNat ≤ 122) := by
  show (decide (c.val ≥ 65 ∧ c.val ≤ 90) || (decide (c.val ≥ 97) && decide (c.val ≤ 122))) = true ↔ _
  simp only [Bool.or_eq_true, Bool.and_eq_true, decide_eq_true_eq, ge_iff_le, UInt32.le_iff_toNat_le]
  exact Iff.rfl

theorem inWord_iff {c : Char} : inWord c = true ↔ c.isAlpha = true ∨ c.isDigit = true ∨ c = '_' := by
  simp [inWord, Char.isAlphanum, or_assoc]

theorem inWord_of_isDigit {c : Char} (digit : c.isDigit = true) : inWord c = true :=
  inWord_iff.mpr (.inr (.inl digit))

theorem inWord_of_beginsWord {c : Char} (begins : beginsWord c = true) : inWord c = true := by
  simp only [beginsWord, Bool.or_eq_true, decide_eq_true_eq] at begins
  cases begins with
  | inl letter => exact inWord_iff.mpr (.inl letter)
  | inr underscore => exact inWord_iff.mpr (.inr (.inr underscore))

theorem beginsWord_of_isDigit {c : Char} (digit : c.isDigit = true) : beginsWord c = false := by
  rw [Bool.eq_false_iff]
  intro begins
  simp only [beginsWord, Bool.or_eq_true, decide_eq_true_eq, isAlpha_iff] at begins
  rw [isDigit_iff] at digit
  cases begins with
  | inl letter => omega
  | inr underscore =>
    subst underscore
    simp at digit

/-- What stands in words is no blank. -/
theorem isBlank_of_inWord {c : Char} (inside : inWord c = true) : Text.isBlank c = false := by
  rw [inWord_iff, isAlpha_iff, isDigit_iff] at inside
  rcases inside with letter | digit | rfl
  · simp [Text.isBlank, Text.blankRanges]
    omega
  · simp [Text.isBlank, Text.blankRanges]
    omega
  · rfl

/-! ## Runs -/

/-- A text before which words and numbers end. -/
def Detached (rest : List Char) : Prop := ∀ c ∈ rest.head?, inWord c = false ∧ c ≠ '.'

def EndsDigits (rest : List Char) : Prop := ∀ c ∈ rest.head?, c.isDigit = false

theorem detached_nil : Detached [] := by
  intro c head
  cases head

theorem detached_cons {c : Char} {rest : List Char} (outside : inWord c = false) (notPoint : c ≠ '.') :
    Detached (c :: rest) := by
  intro d head
  cases head
  exact ⟨outside, notPoint⟩

theorem detached_closing (rest : List Char) : Detached (')' :: rest) :=
  detached_cons (by decide) (by decide)

theorem detached_space (rest : List Char) : Detached (' ' :: rest) :=
  detached_cons (by decide) (by decide)

theorem Detached.endsWord {rest : List Char} (detached : Detached rest) :
    ∀ c ∈ rest.head?, inWord c = false :=
  fun c head => (detached c head).1

theorem Detached.endsDigits {rest : List Char} (detached : Detached rest) : EndsDigits rest := by
  intro c head
  rw [Bool.eq_false_iff]
  intro digit
  have outside := (detached c head).1
  rw [inWord_of_isDigit digit] at outside
  contradiction

theorem takeWhile_run {p : Char → Bool} {run rest : List Char} (inside : ∀ c ∈ run, p c = true)
    (ends : ∀ c ∈ rest.head?, p c = false) : (run ++ rest).takeWhile p = run := by
  rw [List.takeWhile_append_of_pos inside]
  cases rest with
  | nil => simp
  | cons c rest => simp [ends c rfl]

theorem dropWhile_run {p : Char → Bool} {run rest : List Char} (inside : ∀ c ∈ run, p c = true)
    (ends : ∀ c ∈ rest.head?, p c = false) : (run ++ rest).dropWhile p = rest := by
  rw [List.dropWhile_append_of_pos inside]
  cases rest with
  | nil => simp
  | cons c rest => simp [ends c rfl]

/-- Two runs that end where they must are told apart by their texts. -/
theorem run_append_inj {p : Char → Bool} {run other rest otherRest : List Char} (inside : ∀ c ∈ run, p c = true)
    (ends : ∀ c ∈ rest.head?, p c = false) (otherInside : ∀ c ∈ other, p c = true)
    (otherEnds : ∀ c ∈ otherRest.head?, p c = false) (same : run ++ rest = other ++ otherRest) :
    run = other ∧ rest = otherRest := by
  constructor
  · rw [← takeWhile_run inside ends, same, takeWhile_run otherInside otherEnds]
  · rw [← dropWhile_run inside ends, same, dropWhile_run otherInside otherEnds]

/-- A mark that is not the beginning of something longer: a decrement, a comment or a mark with an
    equals sign. -/
def StandsAlone (rest : List Char) : Mark → Prop
  | .minus => rest.head? ≠ some '-'
  | .slash => rest.head? ≠ some '/'
  | .bang | .equal | .less | .greater => rest.head? ≠ some '='
  | _ => True

/-- Before a space every mark stands alone. -/
theorem standsAlone_space (mark : Mark) (rest : List Char) : StandsAlone (' ' :: rest) mark := by
  cases mark <;> simp [StandsAlone]

/-! ## Digits -/

theorem Text.isDigit_of_mem_digits {n : Nat} {c : Char} (member : c ∈ Text.digits n) :
    c.isDigit = true :=
  Nat.isDigit_of_mem_toDigits (by decide) (by decide) member

theorem Text.digits_eq_cons (n : Nat) :
    ∃ digit others, Text.digits n = digit :: others ∧ digit.isDigit = true ∧
      ∀ c ∈ others, c.isDigit = true := by
  have digits : ∀ c ∈ Text.digits n, c.isDigit = true := fun _ => Text.isDigit_of_mem_digits
  cases spelled : Text.digits n with
  | nil => exact absurd spelled Nat.toDigits_ne_nil
  | cons digit others =>
    rw [spelled] at digits
    exact ⟨digit, others, rfl, digits digit (.head _), fun c member => digits c (.tail _ member)⟩

/-! ## Written characters -/

/-- A character between quotation marks is written by a backslash and a letter, or stands for itself. -/
theorem Text.escape_cases (c : Char) :
    (∃ letter, Text.escape c = ['\\', letter] ∧ Text.meaning? letter = some c) ∨
      (Text.escape c = [c] ∧ c ≠ '"' ∧ c ≠ '\\') := by
  unfold Text.escape
  cases chosen : Text.letter? c with
  | some letter => exact .inl ⟨letter, rfl, Text.meaning?_of_letter? chosen⟩
  | none =>
    have plain : ∀ d letter, Text.letter? d = some letter → c ≠ d := by
      rintro d letter found rfl
      rw [chosen] at found
      contradiction
    exact .inr ⟨rfl, plain '"' '"' rfl, plain '\\' '\\' rfl⟩

end ScriptFrontend
