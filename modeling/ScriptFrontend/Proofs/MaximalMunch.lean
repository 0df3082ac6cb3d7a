import Mathlib.Data.List.Induction
import ScriptFrontend.Proofs.Segmentation

/-! # Scanning is maximal munch

`scan` reads the one way to cut a source into segments.  Every segment gives at most one token and any
number of faults (`Piece.Gives`), in the order of the segments, and the mark of the end comes last
(`Realizes`).  Where a segment stands is said by the text before it, without the position that the scanner
carries along; `advance_start` says what that position is.
-/

namespace ScriptFrontend

/-! ## Places in a text -/

/-- The line on which a text ends, counted from one. -/
def lineAt (before : List Char) : Nat := 1 + before.count '\n'

/-- What a text has on its last line. -/
def lastLine (before : List Char) : List Char := (before.reverse.takeWhile (· ≠ '\n')).reverse

theorem advance_start (before : List Char) :
    Position.start.advance before = ⟨lineAt before, (lastLine before).reverse⟩ := by
  induction before using List.reverseRecOn with
  | nil => rfl
  | append_singleton before c inductionHypothesis =>
    rw [Position.advance_append, inductionHypothesis]
    by_cases isLineFeed : c = '\n'
    · simp [Position.advance, Position.next, lineAt, lastLine, isLineFeed]
      omega
    · simp [Position.advance, Position.next, lineAt, lastLine, isLineFeed]

theorem onBlankLine_iff {before : List Char} :
    (Position.start.advance before).onBlankLine = true ↔
      lastLine before = [] ∨ lastLine before = ['\r'] := by
  simp [advance_start, Position.onBlankLine, List.reverse_eq_cons_iff]

/-! ## The text of a string -/

/-- Reading the inside of a string from left to right, from a line on: the text that it stands for, and
    the letters that have no meaning after a backslash, with their lines. -/
inductive Text.Unescapes : Nat → List Char → List Char → List (Nat × Char) → Prop where
  | nil {line : Nat} : Unescapes line [] [] []
  | plain {line : Nat} {c : Char} {body value : List Char} {letters : List (Nat × Char)} :
      c ≠ '\\' → c ≠ '"' → Unescapes (lineAfter line c) body value letters →
      Unescapes line (c :: body) (c :: value) letters
  | escaped {line : Nat} {letter c : Char} {body value : List Char} {letters : List (Nat × Char)} :
      meaning? letter = some c → Unescapes line body value letters →
      Unescapes line ('\\' :: letter :: body) (c :: value) letters
  -- A letter without a meaning stands for itself.
  | meaningless {line : Nat} {letter : Char} {body value : List Char} {letters : List (Nat × Char)} :
      meaning? letter = none → Unescapes (lineAfter line letter) body value letters →
      Unescapes line ('\\' :: letter :: body) (letter :: value)
        ((lineAfter line letter, letter) :: letters)

namespace Text

theorem lineAfter_of_meaning? {letter c : Char} (meant : meaning? letter = some c) (line : Nat) :
    lineAfter line letter = line := by
  refine if_neg ?_
  rintro rfl
  contradiction

theorem Enclosed.unescapes {body : List Char} (enclosed : Enclosed body) (line : Nat) :
    Unescapes line body (decode body) (unknown line body) := by
  induction enclosed generalizing line with
  | nil => exact .nil
  | plain notBackslash notQuote _ inductionHypothesis =>
    rw [decode, unknown]
    · exact .plain notBackslash notQuote (inductionHypothesis _)
    all_goals
      intros
      contradiction
  | @escaped letter body _ inductionHypothesis =>
    rw [decode, unknown]
    cases meant : meaning? letter with
    | some c =>
      rw [lineAfter_of_meaning? meant]
      exact .escaped meant (inductionHypothesis line)
    | none => exact .meaningless meant (inductionHypothesis _)

/-- There is one way to read the inside of a string. -/
theorem Unescapes.eq {line : Nat} {body value : List Char} {letters : List (Nat × Char)}
    (reads : Unescapes line body value letters) :
    Enclosed body ∧ value = decode body ∧ letters = unknown line body := by
  induction reads with
  | nil => exact ⟨.nil, rfl, rfl⟩
  | plain notBackslash notQuote _ inductionHypothesis =>
    obtain ⟨enclosed, rfl, rfl⟩ := inductionHypothesis
    refine ⟨.plain notBackslash notQuote enclosed, ?_, ?_⟩
    · rw [decode]
      all_goals
        intros
        contradiction
    · rw [unknown]
      all_goals
        intros
        contradiction
  | escaped meant _ inductionHypothesis =>
    obtain ⟨enclosed, rfl, rfl⟩ := inductionHypothesis
    exact ⟨.escaped enclosed, by simp [decode, meant],
      by simp [unknown, meant, lineAfter_of_meaning? meant]⟩
  | meaningless noMeaning _ inductionHypothesis =>
    obtain ⟨enclosed, rfl, rfl⟩ := inductionHypothesis
    exact ⟨.escaped enclosed, by simp [decode, noMeaning], by simp [unknown, noMeaning]⟩

/-- A backslash at the end of the source has no letter after it. -/
theorem Enclosed.unknown_append {body last : List Char} (enclosed : Enclosed body)
    (ending : last = [] ∨ last = ['\\']) (line : Nat) :
    unknown line (body ++ last) = unknown line body := by
  induction enclosed generalizing line with
  | nil => rcases ending with rfl | rfl <;> rfl
  | plain notBackslash _ _ inductionHypothesis =>
    rw [List.cons_append, unknown, unknown]
    · exact inductionHypothesis _
    all_goals
      intros
      contradiction
  | escaped _ inductionHypothesis =>
    rw [List.cons_append, List.cons_append, unknown, unknown, inductionHypothesis]

end Text

/-! ## What segments give -/

/-- The token and the faults, with their lines, of a segment after a text. -/
inductive Piece.Gives (before : List Char) :
    Piece → Option TokenKind → List (LexicalFault × Nat) → Prop where
  -- A line that holds nothing, a carriage return aside.
  | blankLine : lastLine before = [] ∨ lastLine before = ['\r'] →
      Gives before .lineFeed (some .blankLine) []
  | lineFeed : ¬ (lastLine before = [] ∨ lastLine before = ['\r']) → Gives before .lineFeed none []
  | blank (c : Char) : Gives before (.blank c) none []
  | comment (body : List Char) : Gives before (.comment body) none []
  | mark (m : Mark) : Gives before (.mark m) (some (.mark m)) []
  | keyword (keyword : Keyword) : Gives before (.word keyword.spelling) (some (.keyword keyword)) []
  | identifier {chars : List Char} : (∀ keyword : Keyword, keyword.spelling ≠ chars) →
      Gives before (.word chars) (some (.identifier (String.ofList chars))) []
  | integer {digits : List Char} : Text.digitsValue digits ≤ Nat.pow 2 63 - 1 →
      Gives before (.integer digits) (some (.integer (Text.digitsValue digits))) []
  | outOfRange {digits : List Char} : ¬ Text.digitsValue digits ≤ Nat.pow 2 63 - 1 →
      Gives before (.integer digits) none [(.integerOutOfRange digits, lineAt before)]
  | float (whole fraction : List Char) :
      Gives before (.float whole fraction) (some (.float (.ofMagnitude
        (Binary64.ofRatio (Text.digitsValue (whole ++ fraction)) (Nat.pow 10 fraction.length))))) []
  | string {body value : List Char} {letters : List (Nat × Char)} :
      Text.Unescapes (lineAt before) body value letters →
      Gives before (.string body) (some (.string (String.ofList value)))
        (letters.map fun (line, c) => (.unknownEscape c, line))
  | unterminated {body value last : List Char} {letters : List (Nat × Char)} :
      Text.Unescapes (lineAt before) body value letters → last = [] ∨ last = ['\\'] →
      Gives before (.unterminated (body ++ last)) none
        ((letters.map fun (line, c) => (.unknownEscape c, line)) ++
          [(.unterminatedString, lineAt (before ++ '"' :: (body ++ last)))])
  | unexpected (c : Char) : Gives before (.unexpected c) none [(.unexpectedCharacter c, lineAt before)]

/-- The tokens and errors of the segments after a text, in their order, and the mark of the end. -/
inductive Realizes (source : Source) : List Char → List Piece → List Token → List LexicalError → Prop where
  | finish {before : List Char} :
      Realizes source before [] [⟨.finish, Symbol.of source.table "", source.file, lineAt before⟩] []
  | segment {before : List Char} {piece : Piece} {others : List Piece} {kind : Option TokenKind}
      {faults : List (LexicalFault × Nat)} {tokens : List Token} {errors : List LexicalError} :
      piece.Gives before kind faults → Realizes source (before ++ piece.text) others tokens errors →
      Realizes source before (piece :: others)
        ((kind.toList.map fun kind =>
          ⟨kind, Symbol.of source.table (String.ofList piece.text), source.file, lineAt before⟩) ++ tokens)
        ((faults.map fun (fault, line) => ⟨fault, source.file, line⟩) ++ errors)

theorem Keyword.mem_all (keyword : Keyword) : keyword ∈ Keyword.all := by
  cases keyword <;> decide

theorem gives_word (before chars : List Char) :
    Piece.Gives before (.word chars) ((Piece.word chars).kind? (Position.start.advance before)) [] := by
  cases found : Keyword.ofWord? chars with
  | some keyword =>
    have spelled : keyword.spelling = chars := by simpa using List.find?_some found
    simp only [Piece.kind?, found]
    exact spelled ▸ .keyword keyword
  | none =>
    simp only [Piece.kind?, found]
    refine .identifier fun keyword spelled => ?_
    exact absurd spelled (by simpa using List.find?_eq_none.mp found keyword keyword.mem_all)

theorem faults_unterminated {body last : List Char} (enclosed : Text.Enclosed body)
    (ending : last = [] ∨ last = ['\\']) (before : List Char) :
    (Piece.unterminated (body ++ last)).faults (Position.start.advance before) =
      ((Text.unknown (lineAt before) body).map fun (line, c) => (.unknownEscape c, line)) ++
        [(.unterminatedString, lineAt (before ++ '"' :: (body ++ last)))] := by
  have line := congrArg Position.line (advance_start (before ++ '"' :: (body ++ last)))
  rw [Position.advance_append] at line
  simp only [Piece.faults, Piece.text, line]
  rw [advance_start, enclosed.unknown_append ending]

theorem Piece.HasForm.gives {piece : Piece} (form : piece.HasForm) (before : List Char) :
    piece.Gives before (piece.kind? (Position.start.advance before))
      (piece.faults (Position.start.advance before)) := by
  rcases form with proper | ⟨c, rfl, -⟩
  · cases proper with
    | lineFeed =>
      simp only [Piece.kind?, onBlankLine_iff]
      split
      · next blank => exact .blankLine blank
      · next written => exact .lineFeed written
    | blank _ _ => exact .blank _
    | comment _ => exact .comment _
    | mark m => exact .mark m
    | word _ _ => exact gives_word before _
    | @integer digits _ =>
      have bound : largestInteger = Nat.pow 2 63 - 1 := rfl
      simp only [Piece.kind?, Piece.faults, bound, advance_start]
      by_cases small : Text.digitsValue digits ≤ Nat.pow 2 63 - 1
      · rw [if_pos small, if_pos small]
        exact .integer small
      · rw [if_neg small, if_neg small]
        exact .outOfRange small
    | float _ _ => exact .float _ _
    | string enclosed =>
      rw [advance_start]
      exact .string (enclosed.unescapes _)
    | unterminated enclosed ending =>
      rw [faults_unterminated enclosed ending]
      exact .unterminated (enclosed.unescapes _) ending
  · rw [Piece.faults, advance_start]
    exact .unexpected c

/-- A segment gives nothing else than what the scanner makes of it. -/
theorem Piece.Gives.eq {before : List Char} {piece : Piece} {kind : Option TokenKind}
    {faults : List (LexicalFault × Nat)} (given : piece.Gives before kind faults) :
    kind = piece.kind? (Position.start.advance before) ∧
      faults = piece.faults (Position.start.advance before) := by
  cases given with
  | blankLine blank => exact ⟨by rw [Piece.kind?, if_pos (onBlankLine_iff.mpr blank)], rfl⟩
  | lineFeed written => exact ⟨by rw [Piece.kind?, if_neg (written ∘ onBlankLine_iff.mp)], rfl⟩
  | blank _ | comment _ | mark _ | float _ _ => exact ⟨rfl, rfl⟩
  | keyword keyword => exact ⟨by simp only [Piece.kind?, Keyword.ofWord?_spelling], rfl⟩
  | @identifier chars other =>
    have notFound : Keyword.ofWord? chars = none := by
      refine List.find?_eq_none.mpr fun keyword _ => ?_
      simpa using other keyword
    exact ⟨by simp only [Piece.kind?, notFound], rfl⟩
  | integer small => exact ⟨(if_pos small).symm, (if_pos small).symm⟩
  | outOfRange large =>
    simp only [Piece.faults, advance_start]
    exact ⟨(if_neg large).symm, (if_neg large).symm⟩
  | string reads =>
    obtain ⟨-, rfl, rfl⟩ := reads.eq
    rw [advance_start]
    exact ⟨rfl, rfl⟩
  | unterminated reads ending =>
    obtain ⟨enclosed, -, rfl⟩ := reads.eq
    rw [faults_unterminated enclosed ending]
    exact ⟨rfl, rfl⟩
  | unexpected c =>
    rw [advance_start]
    exact ⟨rfl, rfl⟩

/-! ## Tokens and errors -/

/-- The tokens of segments after a text. -/
def tokensOf (source : Source) (before : List Char) (segments : List Piece) : List Token :=
  (located (Position.start.advance before) segments).filterMap fun (position, piece) =>
    piece.token? source position

def errorsOf (source : Source) (before : List Char) (segments : List Piece) : List LexicalError :=
  (located (Position.start.advance before) segments).flatMap fun (position, piece) =>
    piece.errors source position

theorem tokensOf_cons (source : Source) (before : List Char) (piece : Piece) (others : List Piece) :
    tokensOf source before (piece :: others) =
      ((piece.kind? (Position.start.advance before)).toList.map fun kind =>
        ⟨kind, Symbol.of source.table (String.ofList piece.text), source.file, lineAt before⟩) ++
      tokensOf source (before ++ piece.text) others := by
  have line : (Position.start.advance before).line = lineAt before := by rw [advance_start]
  simp only [tokensOf, located, List.filterMap_cons, Piece.token?, Position.advance_append, line]
  cases piece.kind? (Position.start.advance before) <;> rfl

theorem errorsOf_cons (source : Source) (before : List Char) (piece : Piece) (others : List Piece) :
    errorsOf source before (piece :: others) =
      ((piece.faults (Position.start.advance before)).map fun (fault, line) => ⟨fault, source.file, line⟩) ++
      errorsOf source (before ++ piece.text) others := by
  simp only [errorsOf, located, List.flatMap_cons, Piece.errors, Position.advance_append]

/-- Segments that have a form realize their tokens and errors, and no others. -/
theorem realizes_iff {source : Source} {before : List Char} {segments : List Piece} {tokens : List Token}
    {errors : List LexicalError} (forms : ∀ segment ∈ segments, segment.HasForm) :
    Realizes source before segments tokens errors ↔
      tokens = tokensOf source before segments ++
        [endToken source (Position.start.advance (before ++ segments.flatMap Piece.text))] ∧
      errors = errorsOf source before segments := by
  induction segments generalizing before tokens errors with
  | nil =>
    rw [List.flatMap_nil, List.append_nil, advance_start]
    constructor
    · rintro ⟨⟩
      exact ⟨rfl, rfl⟩
    · rintro ⟨rfl, rfl⟩
      exact .finish
  | cons piece others inductionHypothesis =>
    obtain ⟨form, otherForms⟩ := List.forall_mem_cons.mp forms
    rw [tokensOf_cons, errorsOf_cons, List.flatMap_cons, ← List.append_assoc before, List.append_assoc]
    constructor
    · intro realized
      cases realized with
      | segment given later =>
        obtain ⟨rfl, rfl⟩ := given.eq
        obtain ⟨rfl, rfl⟩ := (inductionHypothesis otherForms).mp later
        exact ⟨rfl, rfl⟩
    · rintro ⟨rfl, rfl⟩
      exact .segment (form.gives before) ((inductionHypothesis otherForms).mpr ⟨rfl, rfl⟩)

/-- Scanning is maximal munch: a source is cut into segments in exactly one way, none of them is empty,
    none of them could be longer, and what they give, and nothing else, is what is scanned. -/
theorem scan_realizes_segmentation (source : Source) (text : String) :
    ∃ segments, IsSegmentation text.toList segments ∧
      (∀ others, IsSegmentation text.toList others → others = segments) ∧
      segments.flatMap Piece.text = text.toList ∧
      (∀ segment ∈ segments, segment.text ≠ []) ∧
      (∀ before segment after, segments = before ++ segment :: after →
        ∀ other : Piece, other.HasForm → other.text <+: (segment :: after).flatMap Piece.text →
          other.text.length ≤ segment.text.length) ∧
      ∀ tokens errors, Realizes source [] segments tokens errors ↔
        tokens = (scan source text).tokens ∧ errors = (scan source text).errors := by
  have cut := isSegmentation_iff.mpr (Eq.refl (pieces text.toList))
  refine ⟨pieces text.toList, cut, fun others => isSegmentation_iff.mp, cut.joined, ?_, ?_, ?_⟩
  · exact fun segment member => (cut.forms segment member).text_ne_nil
  · intro before segment after split other form begins
    rw [split] at cut
    exact cut.fits.longest form begins
  · intro tokens errors
    rw [realizes_iff cut.forms, cut.joined]
    rfl

end ScriptFrontend
