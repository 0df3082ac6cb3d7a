import ScriptFrontend.Proofs.HostNumbers

/-! # Lexing host text piece by piece

Host text is lexed from left to right, so the lexemes of a text are those of its pieces, provided that
no piece goes on into the next.  `LexesAs` says that for a piece and what follows it; each kind of
piece has its own condition on what may follow.
-/

namespace ScriptFrontend.Host

/-- What it means that a text gives some lexemes and leaves what follows it alone. -/
def LexesAs (text : List Char) (lexemes : List Lexeme) (rest : List Char) : Prop :=
  lexAfter 0 (text ++ rest) = (lexAfter 0 rest).map (lexemes ++ ·)

theorem LexesAs.append {left right rest : List Char} {first second : List Lexeme}
    (earlier : LexesAs left first (right ++ rest)) (later : LexesAs right second rest) :
    LexesAs (left ++ right) (first ++ second) rest := by
  unfold LexesAs at earlier later ⊢
  rw [List.append_assoc, earlier, later, Option.map_map]
  congr 1
  funext lexemes
  simp

theorem lexAfter_covered (covered rest : List Char) :
    lexAfter covered.length (covered ++ rest) = lexAfter 0 rest := by
  induction covered with
  | nil => rfl
  | cons c covered inductionHypothesis => exact inductionHypothesis

/-- A text that is one lexeme, or a blank. -/
theorem lexesAs_first {c : Char} {others rest : List Char} (lexeme : Option Lexeme)
    (taken : Lexer.first c (others ++ rest) = some (lexeme, rest)) :
    LexesAs (c :: others) lexeme.toList rest := by
  -- The lexer counts how far a lexeme reaches by what it leaves.
  have covered : (others ++ rest).length - rest.length = others.length := by simp
  unfold LexesAs
  rw [List.cons_append, lexAfter, taken]
  simp only [Option.bind_eq_bind, Option.bind_some, covered, lexAfter_covered]
  cases lexAfter 0 rest <;> rfl

theorem lexesAs_space (rest : List Char) : LexesAs [' '] [] rest :=
  lexesAs_first none rfl

/-! ## Words and numbers -/

theorem lexesAs_word {c : Char} {others rest : List Char} (begins : beginsWord c = true)
    (inside : ∀ d ∈ others, inWord d = true) (ends : ∀ d ∈ rest.head?, inWord d = false) :
    LexesAs (c :: others) [.word (String.ofList (c :: others))] rest := by
  refine lexesAs_first (some _) ?_
  unfold Lexer.first
  rw [isBlank_of_inWord (inWord_of_beginsWord begins), begins, takeWhile_run inside ends,
    dropWhile_run inside ends]
  rfl

/-- A text whose characters are a word is that word. -/
theorem lexesAs_spelled {text : String} {rest : List Char}
    (word : ∃ c others, text.toList = c :: others ∧ beginsWord c = true ∧ ∀ d ∈ others, inWord d = true)
    (detached : Detached rest) : LexesAs text.toList [.word text] rest := by
  obtain ⟨c, others, spelled, begins, inside⟩ := word
  have lexed := lexesAs_word begins inside detached.endsWord
  rw [← spelled, String.ofList_toList] at lexed
  exact lexed

theorem first_digit {c : Char} (digit : c.isDigit = true) (rest : List Char) :
    Lexer.first c rest = some (some (Lexer.number (c :: rest)).1, (Lexer.number (c :: rest)).2) := by
  unfold Lexer.first
  rw [isBlank_of_inWord (inWord_of_isDigit digit), beginsWord_of_isDigit digit, digit]
  rfl

theorem lexesAs_integer (n : Nat) {rest : List Char} (detached : Detached rest) :
    LexesAs (Text.digits n) [.integer n] rest := by
  have inside : ∀ c ∈ Text.digits n, c.isDigit = true := fun _ => Text.isDigit_of_mem_digits
  have read := Lexer.number_whole inside (Lexer.endsPlaces_of_detached detached)
    (Lexer.exponent?_detached detached)
  obtain ⟨digit, others, spelled, isDigit, _⟩ := Text.digits_eq_cons n
  rw [Text.digitsValue_digits n, spelled] at read
  rw [spelled]
  refine lexesAs_first (some _) ?_
  rw [first_digit isDigit, ← List.cons_append, read]

theorem lexesAs_magnitude {text : List Char} {magnitude : Nat}
    (reads : Lexer.ReadsMagnitude text magnitude) :
    ∃ decimal : Decimal, decimal.toMagnitude = magnitude ∧
      ∀ rest, Detached rest → LexesAs text [.float decimal] rest := by
  obtain ⟨⟨digit, others, rfl, isDigit⟩, decimal, rounds, number⟩ := reads
  refine ⟨decimal, rounds, ?_⟩
  intro rest detached
  have read := number rest detached
  refine lexesAs_first (some _) ?_
  rw [first_digit isDigit, ← List.cons_append, read]

/-! ## Strings -/

theorem quoted_cons {c : Char} (notQuote : c ≠ '"') (notBackslash : c ≠ '\\') (rest : List Char) :
    Lexer.quoted (c :: rest) = (Lexer.quoted rest).map fun (text, after) => (c :: text, after) := by
  rw [Lexer.quoted]
  · cases Lexer.quoted rest <;> rfl
  · exact notQuote
  · intro _ _ escaped
    exact absurd escaped notBackslash

theorem quoted_escape (c : Char) (rest : List Char) :
    Lexer.quoted (Text.escape c ++ rest) =
      (Lexer.quoted rest).map fun (text, after) => (c :: text, after) := by
  rcases Text.escape_cases c with ⟨letter, written, meant⟩ | ⟨written, notQuote, notBackslash⟩
  · rw [written]
    show Lexer.quoted ('\\' :: letter :: rest) = _
    rw [Lexer.quoted, meant]
    cases Lexer.quoted rest <;> rfl
  · rw [written]
    exact quoted_cons notQuote notBackslash rest

theorem quoted_text (text rest : List Char) :
    Lexer.quoted (text.flatMap Text.escape ++ '"' :: rest) = some (text, rest) := by
  induction text with
  | nil => rfl
  | cons c text inductionHypothesis =>
    rw [List.flatMap_cons, List.append_assoc, quoted_escape, inductionHypothesis]
    rfl

theorem lexesAs_quote (text rest : List Char) :
    LexesAs (Text.quote text) [.string (String.ofList text)] rest := by
  refine lexesAs_first (some _) ?_
  rw [List.append_assoc, List.singleton_append]
  unfold Lexer.first
  repeat rw [if_neg (by decide)]
  rw [if_pos rfl, quoted_text]
  rfl

/-! ## Marks -/

theorem first_minus {rest : List Char} (alone : rest.head? ≠ some '-') :
    Lexer.first '-' rest = some (some (.mark .minus), rest) := by
  unfold Lexer.first
  repeat rw [if_neg (by decide)]
  rw [if_pos rfl]
  split
  · contradiction
  · rfl

theorem first_equals {c : Char} {rest : List Char} {plain withEquals : Mark}
    (found : equalsMark? c = some (plain, withEquals)) (alone : rest.head? ≠ some '=') :
    Lexer.first c rest = some (some (.mark plain), rest) := by
  unfold equalsMark? at found
  split at found <;> cases found
  all_goals
    unfold Lexer.first
    repeat rw [if_neg (by decide)]
    split
    · contradiction
    · exact absurd rfl alone
    · next found _ => cases found; rfl
    · contradiction

theorem lexesAs_mark (mark : Mark) {rest : List Char} (alone : StandsAlone rest mark) :
    LexesAs mark.spelling [.mark mark] rest := by
  refine (?_ : LexesAs mark.spelling (some (Lexeme.mark mark)).toList rest)
  cases mark with
  | minus => exact lexesAs_first _ (first_minus alone)
  | bang | equal | less | greater => exact lexesAs_first _ (first_equals rfl alone)
  | _ => exact lexesAs_first _ rfl

end ScriptFrontend.Host
