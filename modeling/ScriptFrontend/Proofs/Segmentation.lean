import ScriptFrontend.Proofs.ScriptScanning

/-! # Cutting a text into segments

The segments of a source text, said without a scanner: which forms there are (`Piece.HasForm`), and
before which text a segment of each form ends (`Piece.EndsBefore`).  A text is cut into such segments in
exactly one way, and `pieces` finds it (`isSegmentation_iff`).  Nothing that has one of the forms and
begins where a segment begins is longer than the segment (`Piece.Fits.longest`).

Two facts carry this.  Where a segment fits, `Piece.first` gives that segment (`first_eq_of_fits`), so no
other one fits there; and whatever has a form can be drawn out until it fits (`drawsOut_of_hasForm`), so
that one character, which always has a form, leads to a segment.
-/

namespace ScriptFrontend

/-! ## Forms of segments -/

/-- The inside of a string: a backslash takes the next character with it, and no other character is a
    quotation mark. -/
inductive Text.Enclosed : List Char → Prop where
  | nil : Enclosed []
  | plain {c : Char} {body : List Char} : c ≠ '\\' → c ≠ '"' → Enclosed body → Enclosed (c :: body)
  | escaped {c : Char} {body : List Char} : Enclosed body → Enclosed ('\\' :: c :: body)

def Text.IsNumeral (run : List Char) : Prop := run ≠ [] ∧ ∀ c ∈ run, c.isDigit = true

/-- The forms of segments other than an unexpected character, whatever comes after them. -/
inductive Piece.Proper : Piece → Prop where
  | lineFeed : Proper .lineFeed
  | blank {c : Char} : Text.isBlank c = true → c ≠ '\n' → Proper (.blank c)
  | comment {body : List Char} : '\n' ∉ body → Proper (.comment body)
  | mark (mark : Mark) : Proper (.mark mark)
  | word {c : Char} {others : List Char} :
      beginsWord c = true → (∀ d ∈ others, inWord d = true) → Proper (.word (c :: others))
  | integer {digits : List Char} : Text.IsNumeral digits → Proper (.integer digits)
  | float {whole fraction : List Char} :
      Text.IsNumeral whole → Text.IsNumeral fraction → Proper (.float whole fraction)
  | string {body : List Char} : Text.Enclosed body → Proper (.string body)
  -- A backslash may be the last character of the source.
  | unterminated {body last : List Char} :
      Text.Enclosed body → last = [] ∨ last = ['\\'] → Proper (.unterminated (body ++ last))

/-- The forms of segments.  A character is unexpected if no other segment begins with it. -/
def Piece.HasForm (piece : Piece) : Prop :=
  piece.Proper ∨ ∃ c, piece = .unexpected c ∧ ∀ other : Piece, other.Proper → other.text.head? ≠ some c

/-- Where a segment ends: before which text it cannot go on. -/
def Piece.EndsBefore (rest : List Char) : Piece → Prop
  | .comment _ => ∀ c ∈ rest.head?, c = '\n'
  | .mark m =>
    (∀ other : Mark, other.spelling <+: m.spelling ++ rest → other.spelling.length ≤ m.spelling.length) ∧
      (m = .slash → rest.head? ≠ some '/')
  | .word _ => ∀ c ∈ rest.head?, inWord c = false
  | .integer _ => EndsDigits rest ∧ ∀ d more, rest = '.' :: d :: more → d.isDigit = false
  | .float _ _ => EndsDigits rest
  | .unterminated _ => rest = []
  | .lineFeed | .blank _ | .string _ | .unexpected _ => True

/-- What it means that a segment can stand before a text. -/
structure Piece.Fits (piece : Piece) (rest : List Char) : Prop where
  form : piece.HasForm
  ends : piece.EndsBefore rest

/-- The ways to cut a text from left to right into segments that fit. -/
inductive IsSegmentation : List Char → List Piece → Prop where
  | nil : IsSegmentation [] []
  | cons {piece : Piece} {rest : List Char} {others : List Piece} :
      piece.Fits rest → IsSegmentation rest others →
      IsSegmentation (piece.text ++ rest) (piece :: others)

theorem Mark.spelling_ne_nil (mark : Mark) : mark.spelling ≠ [] := by
  cases mark <;> simp [Mark.spelling]

theorem Mark.length_spelling_le (mark : Mark) : mark.spelling.length ≤ 2 := by
  cases mark <;> simp [Mark.spelling]

theorem Mark.exists_spelling_take_one (mark : Mark) :
    ∃ short : Mark, short.spelling = mark.spelling.take 1 := by
  cases same : mark with
  | notEqual => exact ⟨.bang, rfl⟩
  | equalEqual => exact ⟨.equal, rfl⟩
  | lessEqual => exact ⟨.less, rfl⟩
  | greaterEqual => exact ⟨.greater, rfl⟩
  | _ => exact ⟨mark, by rw [same]; rfl⟩

theorem Text.IsNumeral.singleton {run : List Char} (numeral : IsNumeral run) {c : Char}
    (head : run.head? = some c) : IsNumeral [c] :=
  ⟨by simp, by simpa using numeral.2 c (List.mem_of_head? head)⟩

theorem Piece.HasForm.text_ne_nil {piece : Piece} (form : piece.HasForm) : piece.text ≠ [] := by
  rcases form with proper | ⟨c, rfl, -⟩
  · cases proper with
    | mark mark => exact mark.spelling_ne_nil
    | integer numeral => exact numeral.1
    | lineFeed | blank | comment | word | float | string | unterminated => simp [Piece.text]
  · simp [Piece.text]

/-! ## The inside of a string -/

namespace Text.Enclosed

theorem append {left right : List Char} (first : Enclosed left) (second : Enclosed right) :
    Enclosed (left ++ right) := by
  induction first with
  | nil => exact second
  | plain notBackslash notQuote _ inductionHypothesis =>
    exact .plain notBackslash notQuote inductionHypothesis
  | escaped _ inductionHypothesis => exact .escaped inductionHypothesis

theorem of_plain {c : Char} {body : List Char} (enclosed : Enclosed (c :: body))
    (notBackslash : c ≠ '\\') : c ≠ '"' ∧ Enclosed body := by
  cases enclosed with
  | plain _ notQuote others => exact ⟨notQuote, others⟩
  | escaped _ => exact absurd rfl notBackslash

theorem of_escaped {c : Char} {body : List Char} (enclosed : Enclosed ('\\' :: c :: body)) :
    Enclosed body := by
  cases enclosed with
  | plain notBackslash _ _ => exact absurd rfl notBackslash
  | escaped others => exact others

/-- The quotation mark after the inside of a string is not inside a longer one. -/
theorem not_append_quote {body rest : List Char} (enclosed : Enclosed body) :
    ¬ Enclosed (body ++ '"' :: rest) := by
  induction enclosed with
  | nil => exact fun longer => (longer.of_plain (by decide)).1 rfl
  | plain notBackslash _ _ inductionHypothesis =>
    exact fun longer => inductionHypothesis (longer.of_plain notBackslash).2
  | escaped _ inductionHypothesis => exact fun longer => inductionHypothesis longer.of_escaped

/-- A string ends after all that is known to be inside of it. -/
theorem exists_append {known more other rest tail : List Char} (within : Enclosed (known ++ more))
    (inside : Enclosed other) (split : known ++ rest = other ++ '"' :: tail) :
    ∃ after, other = known ++ after ∧ rest = after ++ '"' :: tail := by
  rcases List.append_eq_append_iff.mp split with ⟨after, extended, following⟩ | ⟨after, rfl, following⟩
  · exact ⟨after, extended, following⟩
  · cases after with
    | nil => exact ⟨[], by simp, following.symm⟩
    | cons d after =>
      cases following
      rw [List.append_assoc] at within
      exact absurd within inside.not_append_quote

/-- What comes after a quotation mark is the inside of a string up to another one, or all of it is,
    except for a backslash at its end. -/
theorem exists_end (text : List Char) :
    (∃ body rest, text = body ++ '"' :: rest ∧ Enclosed body) ∨
      ∃ body last, text = body ++ last ∧ Enclosed body ∧ (last = [] ∨ last = ['\\']) := by
  fun_induction stringBody text with
  | case1 => exact .inr ⟨[], [], rfl, .nil, .inl rfl⟩
  | case2 => exact .inr ⟨[], ['\\'], rfl, .nil, .inr rfl⟩
  | case3 c text _ _ _ inductionHypothesis =>
    rcases inductionHypothesis with ⟨body, rest, rfl, enclosed⟩ | ⟨body, last, rfl, enclosed, ending⟩
    · exact .inl ⟨'\\' :: c :: body, rest, rfl, .escaped enclosed⟩
    · exact .inr ⟨'\\' :: c :: body, last, rfl, .escaped enclosed, ending⟩
  | case4 rest => exact .inl ⟨[], rest, rfl, .nil⟩
  | case5 c text notLast notEscape notQuote _ _ _ inductionHypothesis =>
    have notBackslash : c ≠ '\\' := by
      rintro rfl
      cases text with
      | nil => exact notLast rfl rfl
      | cons d more => exact notEscape d more rfl rfl
    rcases inductionHypothesis with ⟨body, rest, rfl, enclosed⟩ | ⟨body, last, rfl, enclosed, ending⟩
    · exact .inl ⟨c :: body, rest, rfl, .plain notBackslash notQuote enclosed⟩
    · exact .inr ⟨c :: body, last, rfl, .plain notBackslash notQuote enclosed, ending⟩

/-- Looking for the end of a string passes over its inside. -/
theorem stringBody_append {body : List Char} (enclosed : Enclosed body) (rest : List Char) :
    stringBody (body ++ rest) = (body ++ (stringBody rest).1, (stringBody rest).2) := by
  induction enclosed with
  | nil => rfl
  | plain notBackslash notQuote _ inductionHypothesis =>
    rw [List.cons_append, stringBody, inductionHypothesis]
    · rfl
    · intro same
      exact absurd same notBackslash
    · intro _ _ same
      exact absurd same notBackslash
    · exact notQuote
  | escaped _ inductionHypothesis =>
    rw [List.cons_append, List.cons_append, stringBody, inductionHypothesis]
    rfl

end Text.Enclosed

/-! ## What fits is found -/

theorem standsAlone_of_endsBefore {m : Mark} {rest : List Char} (ends : (Piece.mark m).EndsBefore rest) :
    m = .minus ∨ StandsAlone rest m := by
  obtain ⟨longest, notComment⟩ := ends
  -- With an equals sign behind it, the mark would be the beginning of a longer one.
  have notEquals : ∀ other : Mark, other.spelling = m.spelling ++ ['='] → rest.head? ≠ some '=' := by
    intro other spelled followed
    obtain ⟨more, rfl⟩ := List.head?_eq_some_iff.mp followed
    have tooLong := longest other ⟨more, by simp [spelled]⟩
    rw [spelled, List.length_append] at tooLong
    exact absurd tooLong (by simp)
  cases m with
  | minus => exact .inl rfl
  | slash => exact .inr (notComment rfl)
  | bang => exact .inr (notEquals .notEqual rfl)
  | equal => exact .inr (notEquals .equalEqual rfl)
  | less => exact .inr (notEquals .lessEqual rfl)
  | greater => exact .inr (notEquals .greaterEqual rfl)
  | _ => exact .inr trivial

theorem first_comment {body rest : List Char} (inside : '\n' ∉ body) (ends : ∀ c ∈ rest.head?, c = '\n') :
    Piece.first '/' ('/' :: body ++ rest) = .comment body := by
  show Piece.comment ((body ++ rest).takeWhile (· ≠ '\n')) = _
  rw [takeWhile_run]
  · intro c member
    simpa using ne_of_mem_of_not_mem member inside
  · intro c head
    simpa using ends c head

theorem number_float {c d : Char} {whole fraction rest : List Char} (inside : ∀ e ∈ whole, e.isDigit = true)
    (digit : d.isDigit = true) (places : ∀ e ∈ fraction, e.isDigit = true) (ends : EndsDigits rest) :
    Piece.number c (whole ++ '.' :: d :: fraction ++ rest) = .float (c :: whole) (d :: fraction) := by
  have point : EndsDigits ('.' :: d :: (fraction ++ rest)) := by
    rintro e ⟨⟩
    rfl
  unfold Piece.number
  rw [List.append_assoc, List.cons_append, List.cons_append, takeWhile_run inside point,
    dropWhile_run inside point]
  simp only [digit, if_true, takeWhile_run places ends]

/-- A character that begins no other segment is unexpected. -/
theorem first_unexpected {c : Char} (none : ∀ other : Piece, other.Proper → other.text.head? ≠ some c)
    (rest : List Char) : Piece.first c rest = .unexpected c := by
  have notMark : ∀ m : Mark, ∀ others, m.spelling ≠ c :: others := by
    intro m others spelled
    exact none _ (.mark m) (by simp [Piece.text, spelled])
  unfold Piece.first
  have notLineFeed : c ≠ '\n' := fun same => none _ .lineFeed (by simp [Piece.text, same])
  rw [if_neg notLineFeed,
    if_neg fun blank => none _ (.blank blank notLineFeed) rfl,
    if_neg fun same => none _ (.mark .slash) (by simp [Piece.text, Mark.spelling, same]),
    if_neg fun same => none _ (.string .nil) (by simp [Piece.text, same]),
    if_neg fun begins => none (.word [c]) (.word begins (by simp)) rfl,
    if_neg fun digit => none (.integer [c]) (.integer ⟨by simp, by simp [digit]⟩) rfl]
  split
  · next m found => exact absurd (spelling_of_plainMark? found) (notMark m [])
  · next alone withEquals _ found =>
    exact absurd (spelling_of_equalsMark? found).1 (notMark alone [])
  · rfl

/-- What fits is what the scanner finds. -/
theorem first_eq_of_fits {piece : Piece} {rest : List Char} (fits : piece.Fits rest) {c : Char}
    {others : List Char} (spelled : piece.text = c :: others) : Piece.first c (others ++ rest) = piece := by
  obtain ⟨proper | ⟨d, rfl, none⟩, ends⟩ := fits
  · cases proper with
    | lineFeed =>
      cases spelled
      rfl
    | blank isBlank notLineFeed =>
      cases spelled
      rw [Piece.first, if_neg notLineFeed, if_pos isBlank]
    | comment inside =>
      cases spelled
      exact first_comment inside ends
    | mark m =>
      obtain ⟨d, more, same, found⟩ := first_mark (standsAlone_of_endsBefore ends)
      rw [Piece.text, same] at spelled
      cases spelled
      exact found
    | word begins inside =>
      cases spelled
      exact first_word begins inside ends
    | integer numeral =>
      cases spelled
      obtain ⟨digit, inside⟩ := List.forall_mem_cons.mp numeral.2
      rw [first_of_isDigit digit, number_integer inside ends.1 ends.2]
    | @float whole fraction wholeNumeral fractionNumeral =>
      obtain ⟨d, whole, rfl⟩ := List.exists_cons_of_ne_nil wholeNumeral.1
      obtain ⟨e, fraction, rfl⟩ := List.exists_cons_of_ne_nil fractionNumeral.1
      cases spelled
      obtain ⟨digit, inside⟩ := List.forall_mem_cons.mp wholeNumeral.2
      obtain ⟨place, places⟩ := List.forall_mem_cons.mp fractionNumeral.2
      exact (first_of_isDigit digit).trans (number_float inside place places ends)
    | @string body enclosed =>
      cases spelled
      show Piece.quoted (body ++ ['"'] ++ rest) = _
      rw [List.append_assoc, Piece.quoted, enclosed.stringBody_append]
      simp [stringBody]
    | @unterminated body last enclosed ending =>
      cases spelled
      cases ends
      show Piece.quoted (body ++ last ++ []) = _
      rw [List.append_nil, Piece.quoted, enclosed.stringBody_append]
      rcases ending with rfl | rfl <;> rfl
  · cases spelled
    exact first_unexpected none _

/-! ## Whatever has a form can be drawn out until it fits -/

theorem ends_dropWhile (p : Char → Bool) (rest : List Char) :
    ∀ c ∈ (rest.dropWhile p).head?, p c = false := by
  intro c head
  have outside := List.head?_dropWhile_not p rest
  rw [head] at outside
  simpa using outside

theorem all_takeWhile (p : Char → Bool) (rest : List Char) : ∀ c ∈ rest.takeWhile p, p c = true :=
  List.all_eq_true.mp List.all_takeWhile

theorem Text.IsNumeral.append_takeWhile {run : List Char} (numeral : IsNumeral run) (rest : List Char) :
    IsNumeral (run ++ rest.takeWhile Char.isDigit) :=
  ⟨List.append_ne_nil_of_left_ne_nil numeral.1 _,
    List.forall_mem_append.mpr ⟨numeral.2, all_takeWhile Char.isDigit rest⟩⟩

/-- What it means that a segment that begins a text is the beginning of one that fits. -/
def Piece.DrawsOut (piece : Piece) (rest : List Char) : Prop :=
  ∃ more tail, ∃ longer : Piece,
    longer.text = piece.text ++ more ∧ rest = more ++ tail ∧ longer.Fits tail

theorem Piece.Fits.drawsOut {piece : Piece} {rest : List Char} (fits : piece.Fits rest) :
    piece.DrawsOut rest :=
  ⟨[], rest, piece, by simp, rfl, fits⟩

theorem drawsOut_comment {body : List Char} (inside : '\n' ∉ body) (rest : List Char) :
    (Piece.comment body).DrawsOut rest := by
  have within : '\n' ∉ body ++ rest.takeWhile (· ≠ '\n') := by
    intro member
    rcases List.mem_append.mp member with here | there
    · exact inside here
    · simpa using all_takeWhile _ _ _ there
  refine ⟨rest.takeWhile (· ≠ '\n'), rest.dropWhile (· ≠ '\n'),
    .comment (body ++ rest.takeWhile (· ≠ '\n')), rfl, List.takeWhile_append_dropWhile.symm,
    .inl (.comment within), ?_⟩
  intro c head
  simpa using ends_dropWhile _ _ c head

theorem drawsOut_word {c : Char} {others : List Char} (begins : beginsWord c = true)
    (inside : ∀ d ∈ others, inWord d = true) (rest : List Char) :
    (Piece.word (c :: others)).DrawsOut rest := by
  have within : ∀ d ∈ others ++ rest.takeWhile inWord, inWord d = true :=
    List.forall_mem_append.mpr ⟨inside, all_takeWhile inWord rest⟩
  exact ⟨rest.takeWhile inWord, rest.dropWhile inWord, .word (c :: (others ++ rest.takeWhile inWord)),
    rfl, List.takeWhile_append_dropWhile.symm, .inl (.word begins within), ends_dropWhile inWord rest⟩

theorem drawsOut_float {whole fraction : List Char} (wholeNumeral : Text.IsNumeral whole)
    (fractionNumeral : Text.IsNumeral fraction) (rest : List Char) :
    (Piece.float whole fraction).DrawsOut rest :=
  ⟨rest.takeWhile Char.isDigit, rest.dropWhile Char.isDigit,
    .float whole (fraction ++ rest.takeWhile Char.isDigit), by simp [Piece.text],
    List.takeWhile_append_dropWhile.symm,
    .inl (.float wholeNumeral (fractionNumeral.append_takeWhile rest)), ends_dropWhile Char.isDigit rest⟩

theorem drawsOut_integer {digits : List Char} (numeral : Text.IsNumeral digits) (rest : List Char) :
    (Piece.integer digits).DrawsOut rest := by
  have whole := numeral.append_takeWhile rest
  have split := (List.takeWhile_append_dropWhile (p := Char.isDigit) (l := rest)).symm
  by_cases places : ∃ d more, rest.dropWhile Char.isDigit = '.' :: d :: more ∧ d.isDigit = true
  · obtain ⟨d, more, following, digit⟩ := places
    rw [following] at split
    -- The point belongs to the number, and so do all digits behind it.
    have place : Text.IsNumeral [d] := ⟨by simp, by simp [digit]⟩
    obtain ⟨after, tail, longer, spelled, rfl, fits⟩ := drawsOut_float whole place more
    exact ⟨rest.takeWhile Char.isDigit ++ '.' :: d :: after, tail, longer,
      spelled.trans (by simp [Piece.text]), by simpa using split, fits⟩
  · refine ⟨_, _, .integer (digits ++ rest.takeWhile Char.isDigit), rfl, split, .inl (.integer whole),
      ends_dropWhile Char.isDigit rest, ?_⟩
    intro d more following
    exact Bool.eq_false_iff.mpr fun digit => places ⟨d, more, following, digit⟩

/-- A mark that is the beginning of a longer one is drawn out to that one, which is the longest. -/
theorem drawsOut_longer {m other : Mark} {rest : List Char} (here : other.spelling <+: m.spelling ++ rest)
    (shorter : m.spelling.length < other.spelling.length) : (Piece.mark m).DrawsOut rest := by
  have positive := List.length_pos_iff.mpr m.spelling_ne_nil
  obtain ⟨more, extended⟩ := List.prefix_of_prefix_length_le (List.prefix_append m.spelling rest) here
    (Nat.le_of_lt shorter)
  obtain ⟨tail, spelled⟩ := here
  rw [← extended, List.append_assoc] at spelled
  refine ⟨more, tail, .mark other, extended.symm, (List.append_cancel_left spelled).symm,
    .inl (.mark other), ?_, ?_⟩
  · -- No mark has more than two characters.
    intro third _
    have atMost := third.length_spelling_le
    omega
  · rintro rfl
    exact absurd (Nat.lt_one_iff.mp shorter) (Nat.ne_of_gt positive)

theorem drawsOut_mark (m : Mark) (rest : List Char) : (Piece.mark m).DrawsOut rest := by
  by_cases longest : ∀ other : Mark, other.spelling <+: m.spelling ++ rest →
      other.spelling.length ≤ m.spelling.length
  · by_cases comment : m = .slash ∧ rest.head? = some '/'
    · obtain ⟨rfl, follows⟩ := comment
      obtain ⟨rest, rfl⟩ := List.head?_eq_some_iff.mp follows
      have empty : '\n' ∉ [] := by simp
      obtain ⟨more, tail, found, spelled, rfl, fits⟩ := drawsOut_comment empty rest
      exact ⟨'/' :: more, tail, found, spelled, rfl, fits⟩
    · have alone : m = .slash → rest.head? ≠ some '/' := fun same follows => comment ⟨same, follows⟩
      exact Piece.Fits.drawsOut ⟨.inl (.mark m), longest, alone⟩
  · simp only [Classical.not_forall, Nat.not_le] at longest
    obtain ⟨other, here, shorter⟩ := longest
    exact drawsOut_longer here shorter

theorem drawsOut_unterminated {body last : List Char} (enclosed : Text.Enclosed body)
    (ending : last = [] ∨ last = ['\\']) (rest : List Char) :
    (Piece.unterminated (body ++ last)).DrawsOut rest := by
  rcases Text.Enclosed.exists_end (body ++ last ++ rest) with
    ⟨other, tail, split, inside⟩ | ⟨other, otherLast, split, inside, otherEnding⟩
  · obtain ⟨more, within⟩ : ∃ more, Text.Enclosed (body ++ last ++ more) := by
      rcases ending with rfl | rfl
      · exact ⟨[], by simpa using enclosed⟩
      · exact ⟨['n'], by simpa using enclosed.append (.escaped .nil)⟩
    obtain ⟨after, rfl, rfl⟩ := within.exists_append inside split
    exact ⟨after ++ ['"'], tail, .string (body ++ last ++ after), by simp [Piece.text], by simp,
      .inl (.string inside), trivial⟩
  · exact ⟨rest, [], .unterminated (other ++ otherLast), by simp [Piece.text, ← split], by simp,
      .inl (.unterminated inside otherEnding), rfl⟩

/-- Whatever has a form is the beginning of something that fits. -/
theorem drawsOut_of_hasForm {piece : Piece} (form : piece.HasForm) (rest : List Char) :
    piece.DrawsOut rest := by
  rcases form with proper | ⟨c, rfl, none⟩
  · cases proper with
    | lineFeed => exact Piece.Fits.drawsOut ⟨.inl .lineFeed, trivial⟩
    | blank isBlank notLineFeed => exact Piece.Fits.drawsOut ⟨.inl (.blank isBlank notLineFeed), trivial⟩
    | comment inside => exact drawsOut_comment inside rest
    | mark m => exact drawsOut_mark m rest
    | word begins inside => exact drawsOut_word begins inside rest
    | integer numeral => exact drawsOut_integer numeral rest
    | float wholeNumeral fractionNumeral => exact drawsOut_float wholeNumeral fractionNumeral rest
    | string enclosed => exact Piece.Fits.drawsOut ⟨.inl (.string enclosed), trivial⟩
    | unterminated enclosed ending => exact drawsOut_unterminated enclosed ending rest
  · exact Piece.Fits.drawsOut ⟨.inr ⟨c, rfl, none⟩, trivial⟩

/-- Every character has a form by itself. -/
theorem exists_form_of_char (c : Char) : ∃ piece : Piece, piece.HasForm ∧ piece.text = [c] := by
  by_cases expected : ∃ piece : Piece, piece.Proper ∧ piece.text.head? = some c
  · obtain ⟨piece, proper, begins⟩ := expected
    cases proper with
    | lineFeed => exact ⟨_, .inl .lineFeed, by simpa [Piece.text] using begins⟩
    | blank isBlank notLineFeed =>
      exact ⟨_, .inl (.blank isBlank notLineFeed), by simpa [Piece.text] using begins⟩
    | comment _ => exact ⟨_, .inl (.mark .slash), by simpa [Piece.text, Mark.spelling] using begins⟩
    | mark m =>
      obtain ⟨short, spelled⟩ := m.exists_spelling_take_one
      obtain ⟨others, split⟩ := List.head?_eq_some_iff.mp begins
      refine ⟨_, .inl (.mark short), spelled.trans ?_⟩
      rw [Piece.text] at split
      rw [split]
      rfl
    | word beginning _ =>
      cases begins
      exact ⟨.word [c], .inl (.word beginning (by simp)), rfl⟩
    | integer numeral => exact ⟨_, .inl (.integer (numeral.singleton begins)), rfl⟩
    | float numeral _ =>
      obtain ⟨d, whole, rfl⟩ := List.exists_cons_of_ne_nil numeral.1
      exact ⟨_, .inl (.integer (numeral.singleton begins)), rfl⟩
    | string _ | unterminated _ _ =>
      exact ⟨.unterminated ([] ++ []), .inl (.unterminated .nil (.inl rfl)),
        by simpa [Piece.text] using begins⟩
  · refine ⟨.unexpected c, .inr ⟨c, rfl, ?_⟩, rfl⟩
    intro other proper begins
    exact expected ⟨other, proper, begins⟩

/-! ## Segmentation -/

/-- Segments that fit are the pieces of a text. -/
theorem IsSegmentation.eq_pieces {text : List Char} {segments : List Piece}
    (cut : IsSegmentation text segments) : segments = pieces text := by
  induction cut with
  | nil => rfl
  | cons fits _ inductionHypothesis =>
    obtain ⟨c, others, spelled⟩ := List.exists_cons_of_ne_nil fits.form.text_ne_nil
    rw [spelled, pieces_first (first_eq_of_fits fits spelled) spelled, inductionHypothesis]

/-- A text that is not empty begins with a segment that fits. -/
theorem exists_fits (c : Char) (rest : List Char) :
    ∃ piece : Piece, ∃ tail, c :: rest = piece.text ++ tail ∧ piece.Fits tail := by
  obtain ⟨single, form, spelled⟩ := exists_form_of_char c
  obtain ⟨more, tail, longer, extended, rfl, fits⟩ := drawsOut_of_hasForm form rest
  exact ⟨longer, tail, by simp [extended, spelled], fits⟩

theorem exists_isSegmentation (text : List Char) : ∃ segments, IsSegmentation text segments := by
  -- The induction is on the length, since a segment may be long.
  induction size : text.length using Nat.strongRecOn generalizing text with
  | ind n inductionHypothesis =>
    cases text with
    | nil => exact ⟨[], .nil⟩
    | cons c rest =>
      obtain ⟨piece, tail, split, fits⟩ := exists_fits c rest
      rw [split] at size ⊢
      have shorter : tail.length < n := by
        have positive := List.length_pos_iff.mpr fits.form.text_ne_nil
        rw [List.length_append] at size
        omega
      obtain ⟨others, cut⟩ := inductionHypothesis tail.length shorter tail rfl
      exact ⟨piece :: others, .cons fits cut⟩

/-- A text is cut into segments in one way, and `pieces` finds it. -/
theorem isSegmentation_iff {text : List Char} {segments : List Piece} :
    IsSegmentation text segments ↔ segments = pieces text := by
  refine ⟨IsSegmentation.eq_pieces, ?_⟩
  rintro rfl
  obtain ⟨segments, cut⟩ := exists_isSegmentation text
  exact cut.eq_pieces ▸ cut

-- The longest mark comes first, and a point belongs to a number only once.
example : pieces "1.2.3!==4.x".toList =
    [.float ['1'] ['2'], .mark .dot, .integer ['3'], .mark .notEqual, .mark .equal, .integer ['4'],
      .mark .dot, .word ['x']] := by decide

theorem IsSegmentation.joined {text : List Char} {segments : List Piece}
    (cut : IsSegmentation text segments) : segments.flatMap Piece.text = text := by
  rw [cut.eq_pieces, flatMap_text_pieces]

theorem IsSegmentation.forms {text : List Char} {segments : List Piece}
    (cut : IsSegmentation text segments) : ∀ segment ∈ segments, segment.HasForm := by
  induction cut with
  | nil => simp
  | cons fits _ inductionHypothesis => exact List.forall_mem_cons.mpr ⟨fits.form, inductionHypothesis⟩

theorem IsSegmentation.fits {text : List Char} {before after : List Piece} {segment : Piece}
    (cut : IsSegmentation text (before ++ segment :: after)) : segment.Fits (after.flatMap Piece.text) := by
  induction before generalizing text with
  | nil =>
    cases cut with
    | cons fits others => exact others.joined ▸ fits
  | cons _ before inductionHypothesis =>
    cases cut with
    | cons _ others => exact inductionHypothesis others

/-- Only one segment fits at the beginning of a text. -/
theorem Piece.Fits.unique {piece other : Piece} {rest tail : List Char} (fits : piece.Fits rest)
    (otherFits : other.Fits tail) (same : piece.text ++ rest = other.text ++ tail) : piece = other := by
  obtain ⟨c, more, spelled⟩ := List.exists_cons_of_ne_nil fits.form.text_ne_nil
  obtain ⟨d, others, otherSpelled⟩ := List.exists_cons_of_ne_nil otherFits.form.text_ne_nil
  rw [spelled, otherSpelled, List.cons_append, List.cons_append, List.cons.injEq] at same
  obtain ⟨rfl, same⟩ := same
  rw [← first_eq_of_fits fits spelled, same, first_eq_of_fits otherFits otherSpelled]

/-- Nothing longer than a segment that fits has one of the forms. -/
theorem Piece.Fits.longest {piece other : Piece} {rest : List Char} (fits : piece.Fits rest)
    (form : other.HasForm) (begins : other.text <+: piece.text ++ rest) :
    other.text.length ≤ piece.text.length := by
  obtain ⟨after, split⟩ := begins
  obtain ⟨more, tail, longer, extended, rfl, longerFits⟩ := drawsOut_of_hasForm form after
  have same : longer = piece := by
    refine longerFits.unique fits ?_
    rw [extended, List.append_assoc, split]
  rw [← same, extended, List.length_append]
  omega

end ScriptFrontend
