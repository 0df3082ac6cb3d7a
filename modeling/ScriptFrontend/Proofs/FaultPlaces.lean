import ScriptFrontend.Proofs.LoweredStatements
import ScriptFrontend.Proofs.TokenPlaces

/-! # Where faults stand

A lexical error keeps a line, and not the place of the text that is at fault.  `placedFaults` gives every fault
back its place, as the text before it, and `OffendsAt` says without the scanner where a fault is: at the
character that begins nothing, at the first digit of a number that is too large, at the letter after the
backslash, and for a string that is cut off at the end of the text.  Places only move forward
(`placedFaults_apart`), and no fault is left out (`offendsAt_iff`).

The line of an error is that of the place of its fault, with one exception (`scan_error_lines`).  Inside a string
the scanner counts a line feed before it looks whether a backslash stood in front of it, so an escaped line feed is
reported one line too late (`escaped_lineFeed_reported_late`).
-/

namespace ScriptFrontend

/-! ## The text at fault -/

/-- The text at fault.  A string that is cut off is at fault for what is not there. -/
def LexicalFault.offending : LexicalFault → List Char
  | .unexpectedCharacter c | .unknownEscape c => [c]
  | .integerOutOfRange digits => digits
  | .unterminatedString => []

/-- A string, closed or cut off, and the characters after its quotation mark. -/
def Piece.Quotes (piece : Piece) (body : List Char) : Prop :=
  piece = .string body ∨ piece = .unterminated body

/-- What it means that the text at fault begins at an offset. -/
inductive OffendsAt (text : List Char) : LexicalFault → Nat → Prop where
  | unexpected {start : Nat} {c : Char} :
      SegmentAt text start (.unexpected c) → OffendsAt text (.unexpectedCharacter c) start
  | outOfRange {start : Nat} {digits : List Char} :
      SegmentAt text start (.integer digits) → ¬ Text.digitsValue digits ≤ Nat.pow 2 63 - 1 →
      OffendsAt text (.integerOutOfRange digits) start
  -- The letter comes after the quotation mark, some of the inside of the string, and the backslash.
  | unknownEscape {start : Nat} {piece : Piece} {inside more : List Char} {letter : Char} :
      SegmentAt text start piece → piece.Quotes (inside ++ '\\' :: letter :: more) → Text.Enclosed inside →
      Text.meaning? letter = none → OffendsAt text (.unknownEscape letter) (start + 1 + inside.length + 1)
  | unterminated {start : Nat} {body : List Char} :
      SegmentAt text start (.unterminated body) → OffendsAt text .unterminatedString text.length

/-- The offsets at which the faults of a text begin.  They increase, and none is left out at which something is
    at fault. -/
structure FaultPlacement (text : List Char) (faults : List LexicalFault) (places : List Nat) : Prop where
  offends : List.Forall₂ (OffendsAt text) faults places
  forward : places.Pairwise (· < ·)
  complete : ∀ fault place, OffendsAt text fault place → place ∈ places

/-! ## Letters without a meaning -/

namespace Text

/-- The letters without a meaning in the inside of a string, each with all the text before it. -/
def placedLetters (before : List Char) : List Char → List (List Char × Char)
  | [] => []
  | ['\\'] => []
  | '\\' :: letter :: rest =>
    match meaning? letter with
    | some _ => placedLetters (before ++ ['\\', letter]) rest
    | none => (before ++ ['\\'], letter) :: placedLetters (before ++ ['\\', letter]) rest
  | c :: rest => placedLetters (before ++ [c]) rest

theorem lineAt_concat (before : List Char) (c : Char) : lineAt (before ++ [c]) = lineAfter (lineAt before) c := by
  by_cases isLineFeed : c = '\n'
  · simp [lineAt, lineAfter, isLineFeed]
    omega
  · simp [lineAt, lineAfter, isLineFeed]

theorem lineAt_backslash (before : List Char) : lineAt (before ++ ['\\']) = lineAt before := by
  simp [lineAt]

theorem lineAt_escape (before : List Char) (letter : Char) :
    lineAt (before ++ ['\\', letter]) = lineAfter (lineAt before) letter := by
  rw [← List.singleton_append, ← List.append_assoc, lineAt_concat, lineAt_backslash]

/-- A letter is reported on the line on which the scanner stands when it has read the letter. -/
theorem unknown_eq_placedLetters (before body : List Char) :
    unknown (lineAt before) body =
      (placedLetters before body).map fun (place, letter) => (lineAfter (lineAt place) letter, letter) := by
  fun_induction placedLetters before body with
  | case1 | case2 => rfl
  | case3 before letter rest meant found inductionHypothesis =>
    rw [unknown, found, ← inductionHypothesis, lineAt_escape]
  | case4 before letter rest noMeaning inductionHypothesis =>
    simp only [unknown, noMeaning, List.map_cons, ← inductionHypothesis, lineAt_escape, lineAt_backslash]
  | case5 before c rest notLast notEscape inductionHypothesis =>
    rw [unknown, ← inductionHypothesis, lineAt_concat]
    · exact notLast
    · exact notEscape

theorem Enclosed.placedLetters_append {inside : List Char} (enclosed : Enclosed inside) (before rest : List Char) :
    placedLetters before (inside ++ rest) =
      placedLetters before inside ++ placedLetters (before ++ inside) rest := by
  induction enclosed generalizing before with
  | nil => simp [placedLetters]
  | plain notBackslash _ _ inductionHypothesis =>
    rw [List.cons_append, placedLetters, placedLetters, inductionHypothesis]
    · simp
    all_goals
      intros
      contradiction
  | @escaped letter inside _ inductionHypothesis =>
    rw [List.cons_append, List.cons_append, placedLetters, placedLetters, inductionHypothesis]
    cases meaning? letter <;> simp

/-- Every letter without a meaning has its place. -/
theorem Enclosed.mem_placedLetters {inside : List Char} (enclosed : Enclosed inside) (before more : List Char)
    {letter : Char} (noMeaning : meaning? letter = none) :
    (before ++ inside ++ ['\\'], letter) ∈ placedLetters before (inside ++ '\\' :: letter :: more) := by
  rw [enclosed.placedLetters_append, placedLetters, noMeaning]
  exact List.mem_append_right _ (.head _)

/-- The place of a letter is inside the string, after a backslash that is not itself escaped. -/
theorem Enclosed.exists_of_mem_placedLetters {body last : List Char} (enclosed : Enclosed body)
    (ending : last = [] ∨ last = ['\\']) {before : List Char} {placed : List Char × Char}
    (member : placed ∈ placedLetters before (body ++ last)) :
    ∃ inside more, body ++ last = inside ++ '\\' :: placed.2 :: more ∧ Enclosed inside ∧
      meaning? placed.2 = none ∧ placed.1 = before ++ inside ++ ['\\'] := by
  induction enclosed generalizing before with
  | nil => rcases ending with rfl | rfl <;> cases member
  | @plain c body notBackslash notQuote _ inductionHypothesis =>
    rw [List.cons_append, placedLetters] at member
    · obtain ⟨inside, more, split, enclosed, noMeaning, place⟩ := inductionHypothesis member
      refine ⟨c :: inside, more, ?_, .plain notBackslash notQuote enclosed, noMeaning, ?_⟩
      · rw [List.cons_append, split, List.cons_append]
      · simpa using place
    all_goals
      intros
      contradiction
  | @escaped letter body _ inductionHypothesis =>
    rw [List.cons_append, List.cons_append, placedLetters] at member
    have later : placed ∈ placedLetters (before ++ ['\\', letter]) (body ++ last) →
        ∃ inside more, '\\' :: letter :: body ++ last = inside ++ '\\' :: placed.2 :: more ∧ Enclosed inside ∧
          meaning? placed.2 = none ∧ placed.1 = before ++ inside ++ ['\\'] := by
      intro there
      obtain ⟨inside, more, split, enclosed, noMeaning, place⟩ := inductionHypothesis there
      refine ⟨'\\' :: letter :: inside, more, ?_, .escaped enclosed, noMeaning, ?_⟩
      · simp [split]
      · simpa using place
    cases meant : meaning? letter with
    | some _ =>
      rw [meant] at member
      exact later member
    | none =>
      rw [meant] at member
      cases member with
      | head => exact ⟨[], body ++ last, rfl, .nil, meant, by simp⟩
      | tail _ there => exact later there

theorem before_isPrefix_of_mem {before body : List Char} {placed : List Char × Char}
    (member : placed ∈ placedLetters before body) :
    before <+: placed.1 ∧ placed.1 ++ [placed.2] <+: before ++ body := by
  fun_induction placedLetters before body with
  | case1 | case2 => cases member
  | case3 before letter rest meant found inductionHypothesis =>
    obtain ⟨starts, ends⟩ := inductionHypothesis member
    exact ⟨(List.prefix_append _ _).trans starts, by simpa using ends⟩
  | case4 before letter rest noMeaning inductionHypothesis =>
    cases member with
    | head => exact ⟨List.prefix_append _ _, by simp⟩
    | tail _ later =>
      obtain ⟨starts, ends⟩ := inductionHypothesis later
      exact ⟨(List.prefix_append _ _).trans starts, by simpa using ends⟩
  | case5 before c rest notLast notEscape inductionHypothesis =>
    obtain ⟨starts, ends⟩ := inductionHypothesis member
    exact ⟨(List.prefix_append _ _).trans starts, by simpa using ends⟩

theorem placedLetters_apart (before body : List Char) :
    (placedLetters before body).Pairwise fun earlier later => earlier.1 ++ [earlier.2] <+: later.1 := by
  fun_induction placedLetters before body with
  | case1 | case2 => exact .nil
  | case3 before letter rest meant found inductionHypothesis => exact inductionHypothesis
  | case4 before letter rest noMeaning inductionHypothesis =>
    refine List.pairwise_cons.mpr ⟨?_, inductionHypothesis⟩
    intro later member
    simpa using (before_isPrefix_of_mem member).1
  | case5 before c rest notLast notEscape inductionHypothesis => exact inductionHypothesis

end Text

/-! ## Faults and their places -/

/-- The letters without a meaning in the inside of a string, as faults. -/
def placedEscapes (before body : List Char) : List (List Char × LexicalFault) :=
  (Text.placedLetters before body).map fun (place, letter) => (place, .unknownEscape letter)

/-- The faults of a segment after a text, each with all the text before it. -/
def Piece.placedFaults (before : List Char) : Piece → List (List Char × LexicalFault)
  | .unexpected c => [(before, .unexpectedCharacter c)]
  | .integer digits =>
    if Text.digitsValue digits ≤ largestInteger then [] else [(before, .integerOutOfRange digits)]
  | .string body => placedEscapes (before ++ ['"']) body
  | .unterminated body =>
    placedEscapes (before ++ ['"']) body ++ [(before ++ '"' :: body, .unterminatedString)]
  | .lineFeed | .blank _ | .comment _ | .mark _ | .word _ | .float _ _ => []

/-- The faults of segments after a text. -/
def placedFaults (before : List Char) : List Piece → List (List Char × LexicalFault)
  | [] => []
  | piece :: rest => piece.placedFaults before ++ placedFaults (before ++ piece.text) rest

/-- The line on which a fault is reported. -/
def reportedLine (placed : List Char × LexicalFault) : Nat :=
  lineAt placed.1 + if placed.2 = .unknownEscape '\n' then 1 else 0

theorem lineAfter_eq_reportedLine (place : List Char) (letter : Char) :
    Text.lineAfter (lineAt place) letter = reportedLine (place, .unknownEscape letter) := by
  by_cases isLineFeed : letter = '\n' <;> simp [Text.lineAfter, reportedLine, isLineFeed]

theorem unknown_eq_placedEscapes (before body : List Char) :
    ((Text.unknown (lineAt before) body).map fun (line, c) => (LexicalFault.unknownEscape c, line)) =
      (placedEscapes before body).map fun placed => (placed.2, reportedLine placed) := by
  simp only [Text.unknown_eq_placedLetters, placedEscapes, List.map_map, Function.comp_def,
    lineAfter_eq_reportedLine]

theorem lineAt_quote (before : List Char) : lineAt (before ++ ['"']) = lineAt before := by
  simp [lineAt]

theorem Piece.faults_eq_placedFaults (before : List Char) (piece : Piece) :
    piece.faults (Position.start.advance before) =
      (piece.placedFaults before).map fun placed => (placed.2, reportedLine placed) := by
  have escapes (body : List Char) : ((Text.unknown (lineAt before) body).map
        fun (line, c) => (LexicalFault.unknownEscape c, line)) =
      (placedEscapes (before ++ ['"']) body).map fun placed => (placed.2, reportedLine placed) := by
    rw [← unknown_eq_placedEscapes, lineAt_quote]
  cases piece with
  | unexpected c =>
    rw [advance_start]
    simp [Piece.faults, Piece.placedFaults, reportedLine]
  | integer digits =>
    rw [advance_start]
    simp only [Piece.faults, Piece.placedFaults]
    split <;> simp [reportedLine]
  | string body =>
    rw [advance_start]
    exact escapes body
  | unterminated body =>
    have line : ((Position.start.advance before).advance (Piece.unterminated body).text).line =
        lineAt (before ++ '"' :: body) := by
      rw [← Position.advance_append, advance_start]
      rfl
    simp only [Piece.faults, Piece.placedFaults, line, List.map_append]
    rw [advance_start, escapes]
    simp [reportedLine]
  | lineFeed | blank _ | comment _ | mark _ | word _ | float _ _ => rfl

theorem errorsOf_eq_placedFaults (source : Source) (before : List Char) (pieces : List Piece) :
    errorsOf source before pieces =
      (placedFaults before pieces).map fun placed => ⟨placed.2, source.file, reportedLine placed⟩ := by
  induction pieces generalizing before with
  | nil => rfl
  | cons piece rest inductionHypothesis =>
    rw [errorsOf_cons, inductionHypothesis, Piece.faults_eq_placedFaults, placedFaults, List.map_append,
      List.map_map]
    rfl

/-- The placed faults are those of the segments where they stand. -/
theorem mem_placedFaults {before : List Char} {pieces : List Piece} {placed : List Char × LexicalFault} :
    placed ∈ placedFaults before pieces ↔
      ∃ earlier piece later, pieces = earlier ++ piece :: later ∧
        placed ∈ piece.placedFaults (before ++ earlier.flatMap Piece.text) := by
  induction pieces generalizing before with
  | nil => simp [placedFaults]
  | cons first rest inductionHypothesis =>
    rw [placedFaults, List.mem_append, inductionHypothesis]
    constructor
    · rintro (here | ⟨earlier, piece, later, rfl, there⟩)
      · exact ⟨[], first, rest, rfl, by simpa using here⟩
      · exact ⟨first :: earlier, piece, later, rfl, by simpa using there⟩
    · rintro ⟨earlier, piece, later, split, member⟩
      cases earlier with
      | nil =>
        cases split
        exact .inl (by simpa using member)
      | cons _ earlier =>
        cases split
        exact .inr ⟨earlier, piece, later, rfl, by simpa using member⟩

/-! ## Places only move forward -/

/-- What it means that a fault ends where or before another one begins.  A string that is cut off has nothing
    after it. -/
def FaultsApart (earlier later : List Char × LexicalFault) : Prop :=
  earlier.1 ++ earlier.2.offending <+: later.1 ∧ earlier.2.offending ≠ []

theorem placedEscapes_within {before body : List Char} {placed : List Char × LexicalFault}
    (member : placed ∈ placedEscapes before body) :
    before <+: placed.1 ∧ placed.1 ++ placed.2.offending <+: before ++ body ∧ placed.2.offending ≠ [] := by
  obtain ⟨⟨place, letter⟩, inside, rfl⟩ := List.mem_map.mp member
  obtain ⟨starts, ends⟩ := Text.before_isPrefix_of_mem inside
  exact ⟨starts, ends, List.cons_ne_nil letter []⟩

theorem placedEscapes_apart (before body : List Char) : (placedEscapes before body).Pairwise FaultsApart := by
  rw [placedEscapes, List.pairwise_map]
  apply (Text.placedLetters_apart before body).imp
  intro earlier later apart
  exact ⟨apart, List.cons_ne_nil earlier.2 []⟩

/-- The faults of a segment are inside of it, and only a string that is cut off has one at its end. -/
theorem Piece.HasForm.placedFaults_within {piece : Piece} (form : piece.HasForm) {before : List Char}
    {placed : List Char × LexicalFault} (member : placed ∈ piece.placedFaults before) :
    before <+: placed.1 ∧ placed.1 ++ placed.2.offending <+: before ++ piece.text ∧
      (placed.2.offending = [] → ∃ body, piece = .unterminated body) := by
  have escapes (body tail : List Char) (inside : placed ∈ placedEscapes (before ++ ['"']) body) :
      before <+: placed.1 ∧ placed.1 ++ placed.2.offending <+: before ++ '"' :: (body ++ tail) ∧
        placed.2.offending ≠ [] := by
    obtain ⟨starts, ends, something⟩ := placedEscapes_within inside
    refine ⟨(List.prefix_append _ _).trans starts, ends.trans ?_, something⟩
    simp
  cases piece with
  | unexpected c =>
    obtain rfl := List.mem_singleton.mp member
    exact ⟨List.prefix_refl _, List.prefix_refl _, fun nothing => absurd nothing (List.cons_ne_nil c [])⟩
  | integer digits =>
    simp only [Piece.placedFaults] at member
    split at member
    · cases member
    · obtain rfl := List.mem_singleton.mp member
      exact ⟨List.prefix_refl _, List.prefix_refl _, fun nothing => absurd nothing form.text_ne_nil⟩
  | string body =>
    obtain ⟨starts, ends, something⟩ := escapes body ['"'] member
    exact ⟨starts, ends, fun nothing => absurd nothing something⟩
  | unterminated body =>
    rcases List.mem_append.mp member with inside | last
    · obtain ⟨starts, ends, -⟩ := escapes body [] inside
      rw [List.append_nil] at ends
      exact ⟨starts, ends, fun _ => ⟨body, rfl⟩⟩
    · obtain rfl := List.mem_singleton.mp last
      exact ⟨List.prefix_append _ _, by simp [LexicalFault.offending, Piece.text], fun _ => ⟨body, rfl⟩⟩
  | lineFeed | blank _ | comment _ | mark _ | word _ | float _ _ => cases member

theorem Piece.placedFaults_apart (before : List Char) (piece : Piece) :
    (piece.placedFaults before).Pairwise FaultsApart := by
  cases piece with
  | unexpected c => exact List.pairwise_singleton _ _
  | integer digits =>
    simp only [Piece.placedFaults]
    split
    · exact .nil
    · exact List.pairwise_singleton _ _
  | string body => exact placedEscapes_apart _ body
  | unterminated body =>
    refine List.pairwise_append.mpr ⟨placedEscapes_apart _ body, List.pairwise_singleton _ _, ?_⟩
    intro earlier member later last
    obtain rfl := List.mem_singleton.mp last
    obtain ⟨-, ends, something⟩ := placedEscapes_within member
    exact ⟨by simpa using ends, something⟩
  | lineFeed | blank _ | comment _ | mark _ | word _ | float _ _ => exact .nil

theorem placedFaults_within {text : List Char} {pieces : List Piece} (cut : IsSegmentation text pieces)
    {before : List Char} {placed : List Char × LexicalFault} (member : placed ∈ placedFaults before pieces) :
    before <+: placed.1 ∧ placed.1 ++ placed.2.offending <+: before ++ text := by
  obtain ⟨earlier, piece, later, rfl, inside⟩ := mem_placedFaults.mp member
  have form := cut.forms piece (List.mem_append_right earlier (.head _))
  obtain ⟨starts, ends, -⟩ := form.placedFaults_within inside
  refine ⟨(List.prefix_append _ _).trans starts, ends.trans ?_⟩
  rw [← cut.joined]
  simp

/-- Faults are reported in the order of their places. -/
theorem placedFaults_apart {text : List Char} {pieces : List Piece} (cut : IsSegmentation text pieces)
    (before : List Char) : (placedFaults before pieces).Pairwise FaultsApart := by
  induction cut generalizing before with
  | nil => exact .nil
  | @cons piece rest others fits later inductionHypothesis =>
    refine List.pairwise_append.mpr ⟨piece.placedFaults_apart before, inductionHypothesis _, ?_⟩
    intro first here second there
    obtain ⟨-, ends, nothing⟩ := fits.form.placedFaults_within here
    refine ⟨ends.trans (placedFaults_within later there).1, fun empty => ?_⟩
    -- A string that is cut off is the last segment, so that there is no second fault.
    obtain ⟨body, rfl⟩ := nothing empty
    have last : rest = [] := fits.ends
    subst last
    rw [later.eq_pieces] at there
    cases there

/-! ## Every fault has its place -/

theorem Piece.HasForm.placedEscapes_iff {piece : Piece} (form : piece.HasForm) {body : List Char}
    (quotes : piece.Quotes body) {before : List Char} {placed : List Char × LexicalFault} :
    placed ∈ placedEscapes before body ↔
      ∃ inside letter more, body = inside ++ '\\' :: letter :: more ∧ Text.Enclosed inside ∧
        Text.meaning? letter = none ∧ placed = (before ++ inside ++ ['\\'], .unknownEscape letter) := by
  have spelled : ∃ enclosed last, body = enclosed ++ last ∧ Text.Enclosed enclosed ∧
      (last = [] ∨ last = ['\\']) := by
    rcases form with proper | ⟨c, rfl, -⟩
    · rcases quotes with rfl | rfl
      · cases proper with
        | string enclosed => exact ⟨body, [], by simp, enclosed, .inl rfl⟩
      · cases proper with
        | unterminated enclosed ending => exact ⟨_, _, rfl, enclosed, ending⟩
    · rcases quotes with same | same <;> cases same
  obtain ⟨enclosed, last, rfl, isEnclosed, ending⟩ := spelled
  constructor
  · intro member
    obtain ⟨⟨place, letter⟩, here, rfl⟩ := List.mem_map.mp member
    obtain ⟨inside, more, split, isInside, noMeaning, rfl⟩ := isEnclosed.exists_of_mem_placedLetters ending here
    exact ⟨inside, letter, more, split, isInside, noMeaning, rfl⟩
  · rintro ⟨inside, letter, more, split, isInside, noMeaning, rfl⟩
    rw [placedEscapes, split]
    exact List.mem_map.mpr ⟨_, isInside.mem_placedLetters before more noMeaning, rfl⟩

/-- A string that is cut off is the last segment. -/
theorem IsSegmentation.joined_of_unterminated {text body : List Char} {earlier later : List Piece}
    (cut : IsSegmentation text (earlier ++ .unterminated body :: later)) :
    earlier.flatMap Piece.text ++ '"' :: body = text := by
  have ends : later.flatMap Piece.text = [] := cut.fits.ends
  rw [← cut.joined]
  simp [ends, Piece.text]

theorem length_place (before inside : List Char) :
    (before ++ ['"'] ++ inside ++ ['\\']).length = before.length + 1 + inside.length + 1 := by
  simp only [List.length_append, List.length_singleton]

theorem offendsAt_of_mem {text : List Char} {pieces : List Piece} (cut : IsSegmentation text pieces)
    {placed : List Char × LexicalFault} (member : placed ∈ placedFaults [] pieces) :
    OffendsAt text placed.2 placed.1.length := by
  obtain ⟨earlier, piece, later, rfl, inside⟩ := mem_placedFaults.mp member
  rw [List.nil_append] at inside
  have here : SegmentAt text (earlier.flatMap Piece.text).length piece := ⟨earlier, later, cut, rfl⟩
  have escapes (body : List Char) (quotes : piece.Quotes body)
      (found : placed ∈ placedEscapes (earlier.flatMap Piece.text ++ ['"']) body) :
      OffendsAt text placed.2 placed.1.length := by
    obtain ⟨inside, letter, more, rfl, enclosed, noMeaning, rfl⟩ := (here.form.placedEscapes_iff quotes).mp found
    rw [length_place]
    exact .unknownEscape here quotes enclosed noMeaning
  cases piece with
  | unexpected c =>
    obtain rfl := List.mem_singleton.mp inside
    exact .unexpected here
  | integer digits =>
    simp only [Piece.placedFaults] at inside
    split at inside
    · cases inside
    · next large =>
      obtain rfl := List.mem_singleton.mp inside
      exact .outOfRange here large
  | string body => exact escapes body (.inl rfl) inside
  | unterminated body =>
    rcases List.mem_append.mp inside with found | last
    · exact escapes body (.inr rfl) found
    · obtain rfl := List.mem_singleton.mp last
      rw [cut.joined_of_unterminated]
      exact .unterminated here
  | lineFeed | blank _ | comment _ | mark _ | word _ | float _ _ => cases inside

theorem exists_mem_of_offendsAt {text : List Char} {fault : LexicalFault} {place : Nat}
    (offends : OffendsAt text fault place) :
    ∃ before, (before, fault) ∈ placedFaults [] (pieces text) ∧ before.length = place := by
  -- A fault of a segment is a fault of the text.
  have found {earlier later : List Piece} {piece : Piece} (cut : IsSegmentation text (earlier ++ piece :: later))
      {placed : List Char × LexicalFault} (inside : placed ∈ piece.placedFaults (earlier.flatMap Piece.text)) :
      placed ∈ placedFaults [] (pieces text) :=
    mem_placedFaults.mpr ⟨earlier, piece, later, cut.eq_pieces.symm, by simpa using inside⟩
  cases offends with
  | unexpected here =>
    obtain ⟨earlier, later, cut, rfl⟩ := here
    exact ⟨_, found cut (.head _), rfl⟩
  | outOfRange here large =>
    obtain ⟨earlier, later, cut, rfl⟩ := here
    have bound : largestInteger = Nat.pow 2 63 - 1 := rfl
    refine ⟨_, found cut ?_, rfl⟩
    rw [Piece.placedFaults, bound, if_neg large]
    exact .head _
  | @unknownEscape start piece inside more letter here quotes enclosed noMeaning =>
    have form := here.form
    obtain ⟨earlier, later, cut, rfl⟩ := here
    refine ⟨_, found cut ?_, length_place (earlier.flatMap Piece.text) inside⟩
    have member : (earlier.flatMap Piece.text ++ ['"'] ++ inside ++ ['\\'], LexicalFault.unknownEscape letter) ∈
        placedEscapes (earlier.flatMap Piece.text ++ ['"']) (inside ++ '\\' :: letter :: more) :=
      (form.placedEscapes_iff quotes).mpr ⟨inside, letter, more, rfl, enclosed, noMeaning, rfl⟩
    rcases quotes with rfl | rfl
    · exact member
    · exact List.mem_append_left _ member
  | @unterminated start body here =>
    obtain ⟨earlier, later, cut, rfl⟩ := here
    exact ⟨_, found cut (List.mem_append_right _ (.head _)), congrArg List.length cut.joined_of_unterminated⟩

/-- Something is at fault exactly where a fault was placed. -/
theorem offendsAt_iff {text : List Char} {fault : LexicalFault} {place : Nat} :
    OffendsAt text fault place ↔ ∃ before, (before, fault) ∈ placedFaults [] (pieces text) ∧ before.length = place := by
  constructor
  · exact exists_mem_of_offendsAt
  · rintro ⟨before, member, rfl⟩
    exact offendsAt_of_mem (isSegmentation_iff.mpr rfl) member

/-! ## Lines of errors -/

/-- The offsets at which the faults of a text begin. -/
def faultPlaces (text : String) : List Nat :=
  (placedFaults [] (pieces text.toList)).map fun placed => placed.1.length

theorem scan_errors_eq (source : Source) (text : String) :
    (scan source text).errors =
      (placedFaults [] (pieces text.toList)).map fun placed => ⟨placed.2, source.file, reportedLine placed⟩ :=
  errorsOf_eq_placedFaults source [] (pieces text.toList)

theorem FaultsApart.length_lt {earlier later : List Char × LexicalFault} (apart : FaultsApart earlier later) :
    earlier.1.length < later.1.length := by
  obtain ⟨before, something⟩ := apart
  have bound := before.length_le
  have positive := List.length_pos_iff.mpr something
  rw [List.length_append] at bound
  omega

/-- An escaped line feed comes before whatever else is at fault, so that its line is not too late for them. -/
theorem FaultsApart.reportedLine_le {earlier later : List Char × LexicalFault} (apart : FaultsApart earlier later) :
    reportedLine earlier ≤ reportedLine later := by
  have counted := apart.1.sublist.count_le '\n'
  rw [List.count_append] at counted
  by_cases isLineFeed : earlier.2 = .unknownEscape '\n'
  · simp only [isLineFeed, LexicalFault.offending, List.count_singleton_self] at counted
    simp only [reportedLine, isLineFeed, if_true, lineAt]
    omega
  · simp only [reportedLine, isLineFeed, if_false, lineAt]
    omega

theorem scan_faultPlacement (source : Source) (text : String) :
    FaultPlacement text.toList ((scan source text).errors.map LexicalError.fault) (faultPlaces text) where
  offends := by
    rw [scan_errors_eq, List.map_map, faultPlaces, List.forall₂_map_left_iff, List.forall₂_map_right_iff,
      List.forall₂_same]
    intro placed member
    exact offendsAt_of_mem (isSegmentation_iff.mpr rfl) member
  forward := by
    rw [faultPlaces, List.pairwise_map]
    exact (placedFaults_apart (isSegmentation_iff.mpr rfl) []).imp FaultsApart.length_lt
  complete := by
    intro fault place offends
    obtain ⟨before, member, rfl⟩ := offendsAt_iff.mp offends
    exact List.mem_map.mpr ⟨_, member, rfl⟩

/-- Faults have at most one placement: every offset of one is an offset of the other, and both are in order. -/
theorem FaultPlacement.unique {text : List Char} {faults : List LexicalFault} {places others : List Nat}
    (placement : FaultPlacement text faults places) (other : FaultPlacement text faults others) :
    others = places := by
  apply other.forward.eq_of_mem_iff placement.forward
  intro place
  constructor
  · intro member
    obtain ⟨fault, -, offends⟩ := exists_related other.offends.flip member
    exact placement.complete fault place offends
  · intro member
    obtain ⟨fault, -, offends⟩ := exists_related placement.offends.flip member
    exact other.complete fault place offends

theorem scan_error_counts (source : Source) (text : String) :
    List.Forall₂ (fun error place => error.fault.offending <+: text.toList.drop place ∧
      error.line = 1 + (text.toList.take place).count '\n' + if error.fault = .unknownEscape '\n' then 1 else 0)
      (scan source text).errors (faultPlaces text) := by
  rw [scan_errors_eq, faultPlaces, List.forall₂_map_left_iff, List.forall₂_map_right_iff, List.forall₂_same]
  intro placed member
  obtain ⟨-, after, split⟩ := placedFaults_within (isSegmentation_iff.mpr rfl) member
  rw [List.nil_append, List.append_assoc] at split
  rw [← split, List.drop_left, List.take_left]
  exact ⟨List.prefix_append _ _, rfl⟩

/-- There is one way to say where the faults of a text are, and the errors are reported in their order.  Each has
    the line that is counted there, one more than the line feeds before the text at fault, except that an escaped
    line feed is counted with those before it.  So lines never decrease. -/
theorem scan_error_lines (source : Source) (text : String) :
    ∃ places, FaultPlacement text.toList ((scan source text).errors.map LexicalError.fault) places ∧
      (∀ others, FaultPlacement text.toList ((scan source text).errors.map LexicalError.fault) others →
        others = places) ∧
      List.Forall₂ (fun error place => error.fault.offending <+: text.toList.drop place ∧
        error.line = 1 + (text.toList.take place).count '\n' + if error.fault = .unknownEscape '\n' then 1 else 0)
        (scan source text).errors places ∧
      (scan source text).errors.Pairwise fun earlier later => earlier.line ≤ later.line := by
  have placement := scan_faultPlacement source text
  refine ⟨faultPlaces text, placement, fun others => placement.unique, scan_error_counts source text, ?_⟩
  rw [scan_errors_eq, List.pairwise_map]
  exact (placedFaults_apart (isSegmentation_iff.mpr rfl) []).imp FaultsApart.reportedLine_le

/-- An escaped line feed is on the first line and is reported on the second. -/
theorem escaped_lineFeed_reported_late :
    let text := "\"\\\n\""
    (scan ⟨"script", 1⟩ text).errors = [⟨.unknownEscape '\n', "script", 2⟩] ∧
      OffendsAt text.toList (.unknownEscape '\n') 2 ∧ 1 + (text.toList.take 2).count '\n' = 1 := by
  intro text
  have cut : IsSegmentation text.toList ([] ++ .string ['\\', '\n'] :: []) := isSegmentation_iff.mpr (by decide)
  have here : SegmentAt text.toList 0 (.string ['\\', '\n']) := ⟨[], [], cut, rfl⟩
  refine ⟨by decide +kernel, ?_, by decide⟩
  exact OffendsAt.unknownEscape here (.inl rfl) .nil rfl

end ScriptFrontend
