import ScriptFrontend.Proofs.MaximalMunch

/-! # Scanning line by line

A text can be cut before any line feed that is not inside a string, and its parts be scanned one after the
other (`scan_append_lineFeed`).  No segment looks past a line feed: one that fits before a text still fits
when a line feed and anything else come after that text, unless it is a string that the end has cut off
(`Piece.Fits.append_lineFeed`).  After the line feed the scanner is where it is at the beginning of a text,
some lines further down, and lines are only ever counted on (`located_shift`).
-/

namespace ScriptFrontend

/-! ## No segment looks past a line feed -/

theorem lineFeed_notMem_spelling (mark : Mark) : '\n' ∉ mark.spelling := by
  cases mark <;> decide

theorem head?_append_lineFeed {rest more : List Char} {c : Char}
    (head : (rest ++ '\n' :: more).head? = some c) : rest.head? = some c ∨ c = '\n' := by
  cases rest with
  | nil => exact .inr (Option.some.inj head).symm
  | cons d rest => exact .inl head

/-- The marks at the beginning of a text do not change when a line feed is put behind it. -/
theorem spelling_isPrefix_of_append_lineFeed {mark : Mark} {text more : List Char}
    (begins : mark.spelling <+: text ++ '\n' :: more) : mark.spelling <+: text := by
  obtain ⟨tail, split⟩ := begins
  rcases List.append_eq_append_iff.mp split with ⟨others, rfl, -⟩ | ⟨others, spelled, following⟩
  · exact List.prefix_append mark.spelling others
  · cases others with
    | nil => exact ⟨[], by simp [spelled]⟩
    | cons c others =>
      cases following
      exact absurd (by simp [spelled]) (lineFeed_notMem_spelling mark)

theorem Piece.EndsBefore.append_lineFeed {piece : Piece} {rest : List Char} (ends : piece.EndsBefore rest)
    (closed : ∀ body, piece ≠ .unterminated body) (more : List Char) :
    piece.EndsBefore (rest ++ '\n' :: more) := by
  cases piece with
  | comment body =>
    intro c head
    rcases head?_append_lineFeed head with known | same
    · exact ends c known
    · exact same
  | mark m =>
    refine ⟨?_, ?_⟩
    · intro other begins
      rw [← List.append_assoc] at begins
      exact ends.1 other (spelling_isPrefix_of_append_lineFeed begins)
    · intro isSlash head
      rcases head?_append_lineFeed head with known | same
      · exact ends.2 isSlash known
      · contradiction
  | word chars =>
    intro c head
    rcases head?_append_lineFeed head with known | rfl
    · exact ends c known
    · rfl
  | integer digits =>
    refine ⟨?_, ?_⟩
    · intro c head
      rcases head?_append_lineFeed head with known | rfl
      · exact ends.1 c known
      · rfl
    · intro d others following
      -- The point may be the last character before the line feed, which is no digit.
      rcases rest with _ | ⟨point, _ | ⟨e, rest⟩⟩
      · cases following
      · cases following
        rfl
      · cases following
        exact ends.2 d rest rfl
  | float whole fraction =>
    intro c head
    rcases head?_append_lineFeed head with known | rfl
    · exact ends c known
    · rfl
  | unterminated body => exact absurd rfl (closed body)
  | lineFeed | blank _ | string _ | unexpected _ => trivial

theorem Piece.Fits.append_lineFeed {piece : Piece} {rest : List Char} (fits : piece.Fits rest)
    (closed : ∀ body, piece ≠ .unterminated body) (more : List Char) : piece.Fits (rest ++ '\n' :: more) :=
  ⟨fits.form, fits.ends.append_lineFeed closed more⟩

/-- Two texts with a line feed between them are cut where each of them is cut. -/
theorem IsSegmentation.append_lineFeed {text more : List Char} {segments others : List Piece}
    (cut : IsSegmentation text segments) (closed : ∀ body, .unterminated body ∉ segments)
    (cutMore : IsSegmentation more others) :
    IsSegmentation (text ++ '\n' :: more) (segments ++ .lineFeed :: others) := by
  induction cut with
  | nil =>
    have fits : Piece.lineFeed.Fits more := ⟨.inl .lineFeed, trivial⟩
    exact .cons fits cutMore
  | @cons piece rest segments fits _ inductionHypothesis =>
    have closedHere : ∀ body, piece ≠ .unterminated body := by
      rintro body rfl
      exact closed body List.mem_cons_self
    have later := inductionHypothesis fun body member => closed body (List.mem_cons_of_mem _ member)
    rw [List.append_assoc]
    exact .cons (fits.append_lineFeed closedHere more) later

theorem pieces_append_lineFeed {text : List Char} (closed : ∀ body, .unterminated body ∉ pieces text)
    (more : List Char) : pieces (text ++ '\n' :: more) = pieces text ++ .lineFeed :: pieces more := by
  have cut := isSegmentation_iff.mpr (Eq.refl (pieces text))
  have cutMore := isSegmentation_iff.mpr (Eq.refl (pieces more))
  exact (cut.append_lineFeed closed cutMore).eq_pieces.symm

/-! ## Counting lines on -/

/-- The same place, some lines further down. -/
def Position.shift (lines : Nat) (position : Position) : Position :=
  ⟨position.line + lines, position.before⟩

theorem Position.advance_shift (lines : Nat) (position : Position) (text : List Char) :
    (position.shift lines).advance text = (position.advance text).shift lines := by
  induction text generalizing position with
  | nil => rfl
  | cons c text inductionHypothesis =>
    have next : (position.shift lines).next c = (position.next c).shift lines := by
      by_cases isLineFeed : c = '\n'
      · simp only [Position.next, Position.shift, isLineFeed, if_true, Nat.add_right_comm]
      · simp only [Position.next, Position.shift, isLineFeed, if_false]
    show ((position.shift lines).next c).advance text = ((position.next c).advance text).shift lines
    rw [next, inductionHypothesis]

/-- A fault or a token counted on by some lines. -/
def shifted {α : Type} (lines : Nat) (seen : α × Nat) : α × Nat := (seen.1, seen.2 + lines)

namespace Text

theorem lineAfter_add (lines line : Nat) (c : Char) :
    lineAfter (line + lines) c = lineAfter line c + lines := by
  by_cases isLineFeed : c = '\n'
  · simp only [lineAfter, isLineFeed, if_true, Nat.add_right_comm]
  · simp only [lineAfter, isLineFeed, if_false]

theorem unknown_add (lines line : Nat) (body : List Char) :
    unknown (line + lines) body = (unknown line body).map fun (line, c) => (line + lines, c) := by
  fun_induction unknown line body with
  | case1 | case2 => rfl
  | case3 line c rest after meant found inductionHypothesis =>
    rw [unknown, lineAfter_add, found]
    exact inductionHypothesis
  | case4 line c rest after noMeaning inductionHypothesis =>
    rw [unknown, lineAfter_add, noMeaning, List.map_cons]
    exact congrArg _ inductionHypothesis
  | case5 line c rest notLast notEscape inductionHypothesis =>
    rw [unknown, lineAfter_add]
    · exact inductionHypothesis
    · exact notLast
    · exact notEscape

end Text

theorem Piece.kind?_shift (lines : Nat) (position : Position) (piece : Piece) :
    piece.kind? (position.shift lines) = piece.kind? position := by
  cases piece <;> rfl

theorem Piece.faults_shift (lines : Nat) (position : Position) (piece : Piece) :
    piece.faults (position.shift lines) = (piece.faults position).map (shifted lines) := by
  have escapes (body : List Char) : ((Text.unknown (position.shift lines).line body).map
        fun (line, c) => (LexicalFault.unknownEscape c, line)) =
      ((Text.unknown position.line body).map fun (line, c) => (LexicalFault.unknownEscape c, line)).map
        (shifted lines) := by
    rw [Position.shift, Text.unknown_add, List.map_map, List.map_map]
    rfl
  cases piece with
  | string body => exact escapes body
  | unterminated body =>
    simp only [Piece.faults, escapes, Position.advance_shift, List.map_append]
    rfl
  | integer digits =>
    simp only [Piece.faults]
    split <;> rfl
  | unexpected c => rfl
  | lineFeed | blank _ | comment _ | mark _ | word _ | float _ _ => rfl

theorem located_shift (lines : Nat) (position : Position) (segments : List Piece) :
    located (position.shift lines) segments =
      (located position segments).map fun (position, piece) => (position.shift lines, piece) := by
  induction segments generalizing position with
  | nil => rfl
  | cons piece rest inductionHypothesis =>
    rw [located, located, Position.advance_shift, inductionHypothesis, List.map_cons]

theorem located_append (position : Position) (left right : List Piece) :
    located position (left ++ right) =
      located position left ++ located (position.advance (left.flatMap Piece.text)) right := by
  induction left generalizing position with
  | nil => rfl
  | cons piece rest inductionHypothesis =>
    rw [List.cons_append, located, inductionHypothesis, located, List.flatMap_cons,
      Position.advance_append, List.cons_append]

/-! ## What is seen of tokens and errors -/

/-- A token without its file and its table: what it looks like, and its line. -/
def Token.seen (token : Token) : (TokenKind × String) × Nat := (token.look, token.line)

def LexicalError.seen (error : LexicalError) : LexicalFault × Nat := (error.fault, error.line)

/-- What is seen of the tokens of located segments. -/
def tokensSeen (found : List (Position × Piece)) : List ((TokenKind × String) × Nat) :=
  found.filterMap fun (position, piece) =>
    (piece.kind? position).map fun kind => ((kind, String.ofList piece.text), position.line)

def faultsSeen (found : List (Position × Piece)) : List (LexicalFault × Nat) :=
  found.flatMap fun (position, piece) => piece.faults position

theorem tokensSeen_append (left right : List (Position × Piece)) :
    tokensSeen (left ++ right) = tokensSeen left ++ tokensSeen right :=
  List.filterMap_append

theorem faultsSeen_append (left right : List (Position × Piece)) :
    faultsSeen (left ++ right) = faultsSeen left ++ faultsSeen right :=
  List.flatMap_append

theorem seen_scan (source : Source) (text : String) :
    (scan source text).tokens.map Token.seen =
      tokensSeen (located .start (pieces text.toList)) ++ [((.finish, ""), lineAt text.toList)] := by
  have line : (Position.start.advance text.toList).line = lineAt text.toList := by rw [advance_start]
  simp only [scan, List.map_append, List.map_filterMap, tokensSeen, Piece.token?, Option.map_map]
  rw [← line]
  rfl

theorem seen_scan_dropLast (source : Source) (text : String) :
    (scan source text).tokens.dropLast.map Token.seen = tokensSeen (located .start (pieces text.toList)) := by
  rw [List.map_dropLast, seen_scan, List.dropLast_concat]

theorem seen_errors (source : Source) (text : String) :
    (scan source text).errors.map LexicalError.seen = faultsSeen (located .start (pieces text.toList)) := by
  simp only [scan, List.map_flatMap, faultsSeen, Piece.errors, List.map_map]
  congr 1
  funext placed
  obtain ⟨position, piece⟩ := placed
  exact List.map_id _

theorem tokensSeen_shift (lines : Nat) (position : Position) (segments : List Piece) :
    tokensSeen (located (position.shift lines) segments) =
      (tokensSeen (located position segments)).map (shifted lines) := by
  simp only [tokensSeen, located_shift, List.filterMap_map, List.map_filterMap, Option.map_map,
    Function.comp_def, Piece.kind?_shift]
  rfl

theorem faultsSeen_shift (lines : Nat) (position : Position) (segments : List Piece) :
    faultsSeen (located (position.shift lines) segments) =
      (faultsSeen (located position segments)).map (shifted lines) := by
  simp only [faultsSeen, located_shift, List.flatMap_map, List.map_flatMap, Piece.faults_shift]

/-- A string that the end of a text has cut off is reported as such. -/
theorem closed_of_errors {source : Source} {text : String}
    (closed : ∀ error ∈ (scan source text).errors, error.fault ≠ .unterminatedString) :
    ∀ body, .unterminated body ∉ pieces text.toList := by
  intro body member
  -- The segment has a place somewhere, and whatever the place, its last fault is the one excluded.
  obtain ⟨before, after, split⟩ := List.append_of_mem member
  have place : ∃ position, (position, Piece.unterminated body) ∈ located .start (pieces text.toList) := by
    refine ⟨Position.start.advance (before.flatMap Piece.text), ?_⟩
    rw [split, located_append, located]
    simp
  obtain ⟨position, found⟩ := place
  have reported : (LexicalFault.unterminatedString, (position.advance (Piece.unterminated body).text).line) ∈
      (scan source text).errors.map LexicalError.seen := by
    rw [seen_errors]
    exact List.mem_flatMap.mpr ⟨_, found, by simp [Piece.faults]⟩
  obtain ⟨error, inErrors, same⟩ := List.mem_map.mp reported
  exact closed error inErrors (congrArg Prod.fst same)

/-! ## Cutting a text before a line feed -/

/-- Where the scanner is after a text and a line feed: at a beginning, further down. -/
theorem advance_lineFeed (text : List Char) :
    Position.start.advance (text ++ ['\n']) = Position.start.shift (lineAt text) := by
  rw [Position.advance_append, advance_start]
  simp [Position.advance, Position.next, Position.shift, Position.start, Nat.add_comm]

theorem located_append_lineFeed {text : List Char} (closed : ∀ body, .unterminated body ∉ pieces text)
    (more : List Char) :
    located .start (pieces (text ++ '\n' :: more)) =
      located .start (pieces text) ++ (Position.start.advance text, .lineFeed) ::
        located (Position.start.shift (lineAt text)) (pieces more) := by
  rw [pieces_append_lineFeed closed, located_append, flatMap_text_pieces, located, ← advance_lineFeed,
    Position.advance_append]
  rfl

/-- What is seen of the token that a line feed gives after a text: a blank line, if there is nothing on
    the last line of the text but perhaps a carriage return. -/
def blankLineSeen (text : List Char) : List ((TokenKind × String) × Nat) :=
  if lastLine text = [] ∨ lastLine text = ['\r'] then [((.blankLine, "\n"), lineAt text)] else []

theorem tokensSeen_lineFeed (text : List Char) (later : List (Position × Piece)) :
    tokensSeen ((Position.start.advance text, .lineFeed) :: later) =
      blankLineSeen text ++ tokensSeen later := by
  have line : (Position.start.advance text).line = lineAt text := by rw [advance_start]
  by_cases blank : lastLine text = [] ∨ lastLine text = ['\r']
  · simp [tokensSeen, blankLineSeen, Piece.kind?, onBlankLine_iff.mpr blank, blank, line, Piece.text]
  · have written : (Position.start.advance text).onBlankLine = false := by
      rw [← Bool.not_eq_true, onBlankLine_iff]
      exact blank
    simp [tokensSeen, blankLineSeen, Piece.kind?, written, blank]

theorem lineAt_append_lineFeed (text more : List Char) :
    lineAt (text ++ '\n' :: more) = lineAt more + lineAt text := by
  simp [lineAt]
  omega

/-- If no string is open at the end of a text, scanning goes on after a line feed as it begins, with all
    lines counted on: the tokens are those of the text without its end mark, a blank line if the last line
    of the text is blank, and those of what follows.  The faults are those of both parts. -/
theorem scan_append_lineFeed (whole left right : Source) {before : String}
    (closed : ∀ error ∈ (scan left before).errors, error.fault ≠ .unterminatedString) (after : String) :
    let lines := 1 + before.toList.count '\n'
    (scan whole (before ++ "\n" ++ after)).tokens.map Token.seen =
        (scan left before).tokens.dropLast.map Token.seen ++
          (if lastLine before.toList = [] ∨ lastLine before.toList = ['\r'] then
            [((.blankLine, "\n"), lines)] else []) ++
          (scan right after).tokens.map (fun token => (token.look, token.line + lines)) ∧
      (scan whole (before ++ "\n" ++ after)).errors.map LexicalError.seen =
        (scan left before).errors.map LexicalError.seen ++
          (scan right after).errors.map (fun error => (error.fault, error.line + lines)) := by
  intro lines
  have text : (before ++ "\n" ++ after).toList = before.toList ++ '\n' :: after.toList := by simp
  have found := located_append_lineFeed (closed_of_errors closed) after.toList
  have tokens : (scan right after).tokens.map (fun token => (token.look, token.line + lines)) =
      ((scan right after).tokens.map Token.seen).map (shifted lines) := by
    rw [List.map_map]
    rfl
  have errors : (scan right after).errors.map (fun error => (error.fault, error.line + lines)) =
      ((scan right after).errors.map LexicalError.seen).map (shifted lines) := by
    rw [List.map_map]
    rfl
  refine ⟨?_, ?_⟩
  · rw [tokens, seen_scan, seen_scan, seen_scan_dropLast, text, found, tokensSeen_append, tokensSeen_lineFeed,
      tokensSeen_shift, lineAt_append_lineFeed, List.map_append]
    simp only [blankLineSeen, List.append_assoc]
    rfl
  · rw [errors, seen_errors, seen_errors, seen_errors, text, found, faultsSeen_append, ← faultsSeen_shift]
    rfl

/-- The text before the line feed has a string over two lines and a character that begins nothing, and its
    last line is blank up to a carriage return; the text after it leaves a string open. -/
theorem scan_append_lineFeed_sample :
    let whole : Source := ⟨"whole", 1⟩
    let left : Source := ⟨"left", 2⟩
    let right : Source := ⟨"right", 3⟩
    let before := "\"x\ny\" @ 1.\n\r"
    let after := "== \"\\q"
    (∀ error ∈ (scan left before).errors, error.fault ≠ .unterminatedString) ∧
      (scan left before).errors ≠ [] ∧ lastLine before.toList = ['\r'] ∧
      (scan whole (before ++ "\n" ++ after)).tokens.map Token.seen =
        (scan left before).tokens.dropLast.map Token.seen ++ [((.blankLine, "\n"), 3)] ++
          (scan right after).tokens.map (fun token => (token.look, token.line + 3)) ∧
      (scan whole (before ++ "\n" ++ after)).errors.map LexicalError.seen =
        (scan left before).errors.map LexicalError.seen ++
          (scan right after).errors.map (fun error => (error.fault, error.line + 3)) := by
  intro whole left right before after
  have closed : ∀ error ∈ (scan left before).errors, error.fault ≠ .unterminatedString := by decide +kernel
  have reported : (scan left before).errors ≠ [] := by decide +kernel
  have lines : 1 + before.toList.count '\n' = 3 := by decide
  have blank : lastLine before.toList = ['\r'] := by decide
  have parts := scan_append_lineFeed whole left right closed after
  simp only [lines, blank, or_true, if_true] at parts
  exact ⟨closed, reported, blank, parts⟩

end ScriptFrontend
