import ScriptFrontend.Proofs.HostLines
import ScriptFrontend.Proofs.TokenPlaces

/-! # Scanning what was written

Two kinds of text that give back what they were written from.  A string of host text is a string of a script,
with the same value (`scan_render_string`).  And the lexemes of any scanned tokens, with a space between them,
give the same tokens again (`scan_spaced`): what a token is depends on its lexeme alone, and no two of them
go together across a space.

A segment that gives a token wherever it stands is `Solid`.  Solid segments fit before a space and at the end of
a text (`Piece.Solid.fits`), so a text that is written from them is cut where it was put together
(`isSegmentation_spaced`).
-/

namespace ScriptFrontend

/-! ## Strings of host text -/

/-- Scanning the host text of a string gives one token, with the string as its value. -/
theorem scan_render_string (source : Source) (value : String) :
    scan source (Host.Constant.string value).render =
      { tokens := [⟨.string value, Symbol.of source.table (Host.Constant.string value).render, source.file, 1⟩,
          ⟨.finish, Symbol.of source.table "", source.file, 1⟩]
        errors := [] } := by
  have cut : pieces (Text.quote value.toList ++ []) = [.string (value.toList.flatMap Text.escape)] :=
    pieces_first (first_quote value.toList []) rfl
  rw [List.append_nil] at cut
  have line : (Position.start.advance (Text.quote value.toList)).line = 1 := by
    rw [advance_start, lineAt, List.count_eq_zero.mpr (Text.oneLine_quote value.toList).1]
  have token : (Piece.string (value.toList.flatMap Text.escape)).token? source .start =
      some ⟨.string value, Symbol.of source.table (Host.Constant.string value).render, source.file, 1⟩ := by
    rw [Piece.token?, Piece.kind?, decode_text, String.ofList_toList]
    rfl
  have silent : (Piece.string (value.toList.flatMap Text.escape)).errors source .start = [] := by
    rw [Piece.errors, Piece.faults, unknown_text]
    rfl
  have rendered : (Host.Constant.string value).render.toList = Text.quote value.toList :=
    String.toList_ofList
  simp only [scan, rendered, cut, located, List.filterMap_cons, token, List.filterMap_nil, List.flatMap_cons,
    silent, List.flatMap_nil, endToken, line]
  rfl

/-! ## Solid segments -/

/-- The kind of token that a segment is wherever it stands.  What a line feed is depends on its line. -/
def Piece.solidKind? : Piece → Option TokenKind
  | .lineFeed => none
  | piece => piece.kind? .start

def Piece.solidLook? (piece : Piece) : Option (TokenKind × String) :=
  piece.solidKind?.map fun kind => (kind, String.ofList piece.text)

/-- A segment that gives a token wherever it stands. -/
structure Piece.Solid (piece : Piece) : Prop where
  form : piece.HasForm
  gives : piece.solidKind?.isSome = true

theorem Piece.kind?_eq_solidKind? {piece : Piece} (notLineFeed : piece ≠ .lineFeed) (position : Position) :
    piece.kind? position = piece.solidKind? := by
  cases piece with
  | lineFeed => exact absurd rfl notLineFeed
  | blank _ | comment _ | mark _ | word _ | integer _ | float _ _ | string _ | unterminated _ | unexpected _ => rfl

theorem Piece.Solid.ne_lineFeed {piece : Piece} (solid : piece.Solid) : piece ≠ .lineFeed := by
  rintro rfl
  cases solid.gives

theorem space_notMem_spelling (mark : Mark) : ' ' ∉ mark.spelling := by
  cases mark <;> decide

/-- No mark goes on across a space. -/
theorem length_spelling_le_of_apart {mark other : Mark} {rest : List Char} (apart : ∀ c ∈ rest.head?, c = ' ')
    (begins : other.spelling <+: mark.spelling ++ rest) : other.spelling.length ≤ mark.spelling.length := by
  apply Nat.le_of_not_lt
  intro longer
  obtain ⟨more, extended⟩ := List.prefix_of_prefix_length_le (List.prefix_append mark.spelling rest) begins
    (Nat.le_of_lt longer)
  obtain ⟨tail, split⟩ := begins
  rw [← extended, List.append_assoc, List.append_cancel_left_eq] at split
  cases more with
  | nil => simp [← extended] at longer
  | cons c more =>
    obtain rfl := apart c (by simp [← split])
    exact space_notMem_spelling other (by simp [← extended])

/-- A solid segment ends at the end of a text and before a space. -/
theorem Piece.Solid.fits {piece : Piece} (solid : piece.Solid) {rest : List Char}
    (apart : ∀ c ∈ rest.head?, c = ' ') : piece.Fits rest := by
  refine ⟨solid.form, ?_⟩
  have detached : Detached rest := by
    intro c head
    obtain rfl := apart c head
    decide
  have gives := solid.gives
  cases piece with
  | mark m =>
    refine ⟨fun other => length_spelling_le_of_apart apart, ?_⟩
    intro _ head
    exact absurd (apart '/' head) (by decide)
  | word _ => exact detached.endsWord
  | integer _ =>
    refine ⟨detached.endsDigits, ?_⟩
    rintro d more rfl
    exact absurd rfl (detached '.' rfl).2
  | float _ _ => exact detached.endsDigits
  | string _ => trivial
  | lineFeed | blank _ | comment _ | unterminated _ | unexpected _ => cases gives

/-- Solid segments with spaces between them are the segments of the text that they spell. -/
theorem isSegmentation_spaced {kept : List Piece} (solid : ∀ piece ∈ kept, piece.Solid) :
    IsSegmentation ((kept.intersperse (.blank ' ')).flatMap Piece.text) (kept.intersperse (.blank ' ')) := by
  induction kept with
  | nil => exact .nil
  | cons piece rest inductionHypothesis =>
    obtain ⟨here, others⟩ := List.forall_mem_cons.mp solid
    have later := inductionHypothesis others
    cases rest with
    | nil => exact .cons (here.fits (by simp)) .nil
    | cons next rest =>
      have space : (Piece.blank ' ').Fits (((next :: rest).intersperse (.blank ' ')).flatMap Piece.text) :=
        ⟨.inl (.blank (by decide) (by decide)), trivial⟩
      rw [List.intersperse_cons_cons, List.flatMap_cons, List.flatMap_cons]
      exact .cons (here.fits (by simp [Piece.text])) (.cons space later)

theorem mem_of_mem_intersperse {α : Type} {separator value : α} {values : List α}
    (member : value ∈ values.intersperse separator) : value ∈ values ∨ value = separator := by
  induction values with
  | nil => cases member
  | cons first rest inductionHypothesis =>
    cases rest with
    | nil => exact .inl member
    | cons next rest =>
      rw [List.intersperse_cons_cons] at member
      rcases List.mem_cons.mp member with rfl | member
      · exact .inl (.head _)
      · rcases List.mem_cons.mp member with rfl | member
        · exact .inr rfl
        · exact (inductionHypothesis member).imp_left (List.mem_cons_of_mem first)

theorem filterMap_intersperse_space (kept : List Piece) :
    (kept.intersperse (.blank ' ')).filterMap Piece.solidLook? = kept.filterMap Piece.solidLook? := by
  have space : Piece.solidLook? (.blank ' ') = none := rfl
  induction kept with
  | nil => rfl
  | cons piece rest inductionHypothesis =>
    cases rest with
    | nil => rfl
    | cons next rest =>
      rw [List.intersperse_cons_cons, List.filterMap_cons, List.filterMap_cons_none space, inductionHypothesis]
      rfl

/-! ## Tokens without layout -/

/-- The tokens that are neither a blank line nor the end mark. -/
def withoutLayout (tokens : List Token) : List Token :=
  tokens.filter fun token => token.kind ≠ .blankLine ∧ token.kind ≠ .finish

/-- The lexemes of tokens, with a space between any two of them. -/
def spaced (tokens : List Token) : String :=
  " ".intercalate (tokens.map fun token => token.lexeme.text)

theorem filterMap_located {α : Type} {given : Position → Piece → Option α} {alike : Piece → Option α}
    {pieces : List Piece} (same : ∀ piece ∈ pieces, ∀ position, given position piece = alike piece)
    (position : Position) :
    (located position pieces).filterMap (fun (position, piece) => given position piece) =
      pieces.filterMap alike := by
  induction pieces generalizing position with
  | nil => rfl
  | cons piece rest inductionHypothesis =>
    obtain ⟨here, others⟩ := List.forall_mem_cons.mp same
    simp only [located, List.filterMap_cons, here position, inductionHypothesis others]

theorem Piece.map_look_token? (source : Source) {piece : Piece} (notLineFeed : piece ≠ .lineFeed)
    (position : Position) : (piece.token? source position).map Token.look = piece.solidLook? := by
  rw [Piece.token?, Option.map_map, Piece.kind?_eq_solidKind? notLineFeed]
  rfl

/-- Only line feeds give layout. -/
theorem Piece.filter_token? (source : Source) (piece : Piece) (position : Position) :
    ((piece.token? source position).filter fun token => token.kind ≠ .blankLine ∧ token.kind ≠ .finish).map
      Token.look = piece.solidLook? := by
  by_cases isLineFeed : piece = .lineFeed
  · subst isLineFeed
    cases blank : position.onBlankLine <;> simp [Piece.token?, Piece.kind?, Piece.solidLook?, Piece.solidKind?, blank]
  · rw [← Piece.map_look_token? source isLineFeed position]
    cases found : piece.token? source position with
    | none => rfl
    | some token =>
      obtain ⟨goesOn, layout⟩ := layout_of_kind? (look_of_token? found).1
      have notBlank : token.kind ≠ .blankLine := isLineFeed ∘ layout
      rw [Option.filter_some_pos (by simp [notBlank, goesOn])]

theorem look_withoutLayout_scan (source : Source) (text : String) :
    (withoutLayout (scan source text).tokens).map Token.look =
      (pieces text.toList).filterMap Piece.solidLook? := by
  have last (position : Position) : withoutLayout [endToken source position] = [] := rfl
  rw [scan, withoutLayout, List.filter_append, ← withoutLayout, ← withoutLayout, last, List.append_nil,
    withoutLayout, List.filter_filterMap, List.map_filterMap]
  exact filterMap_located (fun piece _ => piece.filter_token? source) .start

theorem look_scan (source : Source) {text : String} (noLineFeed : .lineFeed ∉ pieces text.toList) :
    (scan source text).tokens.map Token.look =
      (pieces text.toList).filterMap Piece.solidLook? ++ [(.finish, "")] := by
  have alike : ∀ piece ∈ pieces text.toList, ∀ position,
      (piece.token? source position).map Token.look = piece.solidLook? := by
    intro piece member
    apply Piece.map_look_token? source
    rintro rfl
    exact noLineFeed member
  rw [scan, List.map_append, List.map_filterMap, ← filterMap_located alike .start]
  rfl

/-! ## Scanning again -/

theorem Piece.Solid.solidLook? {piece : Piece} (solid : piece.Solid) :
    (piece.solidLook?).map Prod.snd = some (String.ofList piece.text) := by
  obtain ⟨kind, found⟩ := Option.isSome_iff_exists.mp solid.gives
  simp [Piece.solidLook?, found]

theorem Piece.Solid.faults {piece : Piece} (solid : piece.Solid) (position : Position) :
    ∀ fault ∈ piece.faults position, ∃ c, fault.1 = .unknownEscape c := by
  have gives := solid.gives
  cases piece with
  | integer digits =>
    have small : Text.digitsValue digits ≤ largestInteger := by
      by_contra large
      simp [Piece.solidKind?, Piece.kind?, large] at gives
    simp [Piece.faults, small]
  | string body =>
    intro fault member
    obtain ⟨⟨line, c⟩, -, rfl⟩ := List.mem_map.mp member
    exact ⟨c, rfl⟩
  | mark _ | word _ | float _ _ => simp [Piece.faults]
  | lineFeed | blank _ | comment _ | unterminated _ | unexpected _ => cases gives

theorem intercalate_space (kept : List Piece) :
    [' '].intercalate (kept.map Piece.text) = (kept.intersperse (.blank ' ')).flatMap Piece.text := by
  induction kept with
  | nil => rfl
  | cons piece rest inductionHypothesis =>
    cases rest with
    | nil => rfl
    | cons next rest =>
      rw [List.map_cons] at inductionHypothesis ⊢
      rw [List.map_cons, List.intercalate_cons_cons, inductionHypothesis, List.intersperse_cons_cons,
        List.flatMap_cons, List.flatMap_cons, List.append_assoc]
      rfl

/-- Tokens that look like solid segments are written as these segments with spaces between them. -/
theorem toList_spaced {tokens : List Token} {kept : List Piece} (solid : ∀ piece ∈ kept, piece.Solid)
    (looks : tokens.map Token.look = kept.filterMap Piece.solidLook?) :
    (spaced tokens).toList = (kept.intersperse (.blank ' ')).flatMap Piece.text := by
  have lexemes : tokens.map (fun token => token.lexeme.text) = kept.map fun piece => String.ofList piece.text := by
    have texts := congrArg (List.map Prod.snd) looks
    rw [List.map_map, List.map_filterMap,
      List.filterMap_congr (fun piece member => (solid piece member).solidLook?), List.filterMap_eq_map'] at texts
    exact texts
  rw [spaced, lexemes, String.toList_intercalate, List.map_map, ← intercalate_space]
  simp [Function.comp_def]

/-- The text of tokens that look like solid segments gives tokens that look the same. -/
theorem scan_spaced_of_solid (source : Source) {tokens : List Token} {kept : List Piece}
    (solid : ∀ piece ∈ kept, piece.Solid) (looks : tokens.map Token.look = kept.filterMap Piece.solidLook?) :
    (scan source (spaced tokens)).tokens.map Token.look = tokens.map Token.look ++ [(.finish, "")] ∧
      ∀ error ∈ (scan source (spaced tokens)).errors, ∃ c, error.fault = .unknownEscape c := by
  have cut : pieces (spaced tokens).toList = kept.intersperse (.blank ' ') := by
    rw [toList_spaced solid looks]
    exact (isSegmentation_spaced solid).eq_pieces.symm
  constructor
  · have noLineFeed : .lineFeed ∉ pieces (spaced tokens).toList := by
      rw [cut]
      intro member
      rcases mem_of_mem_intersperse member with inside | same
      · exact (solid _ inside).ne_lineFeed rfl
      · cases same
    rw [look_scan source noLineFeed, cut, filterMap_intersperse_space, looks]
  · intro error member
    obtain ⟨⟨position, piece⟩, here, inside⟩ := List.mem_flatMap.mp member
    obtain ⟨fault, reported, rfl⟩ := List.mem_map.mp inside
    have found := mem_of_mem_located here
    rw [cut] at found
    rcases mem_of_mem_intersperse found with found | rfl
    · exact (solid piece found).faults position fault reported
    · cases reported

/-- The tokens of a text look like its solid segments, layout aside. -/
theorem exists_solid (source : Source) (text : String) :
    ∃ kept : List Piece, (∀ piece ∈ kept, piece.Solid) ∧
      (withoutLayout (scan source text).tokens).map Token.look = kept.filterMap Piece.solidLook? := by
  have forms := (isSegmentation_iff.mpr (Eq.refl (pieces text.toList))).forms
  refine ⟨(pieces text.toList).filter fun piece => piece.solidKind?.isSome, ?_, ?_⟩
  · intro piece member
    obtain ⟨inside, gives⟩ := List.mem_filter.mp member
    exact ⟨forms piece inside, gives⟩
  · rw [look_withoutLayout_scan, List.filterMap_filter]
    apply List.filterMap_congr
    intro piece _
    cases gives : piece.solidKind? <;> simp [Piece.solidLook?, gives]

/-- The lexemes of scanned tokens, with spaces between them and without blank lines, give tokens of the same
    kinds, with the same values and lexemes, in the same order.  All that may be reported are escapes without a
    meaning.  So the lexeme of a token gives back the token. -/
theorem scan_spaced (first second : Source) (text : String) :
    let kept := withoutLayout (scan first text).tokens
    (scan second (spaced kept)).tokens.map Token.look = kept.map Token.look ++ [(.finish, "")] ∧
      (∀ token ∈ (scan second (spaced kept)).tokens, token.kind ≠ .blankLine) ∧
      (∀ error ∈ (scan second (spaced kept)).errors, ∃ c, error.fault = .unknownEscape c) ∧
      ∀ token ∈ kept, (scan second token.lexeme.text).tokens.map Token.look = [token.look, (.finish, "")] ∧
        ∀ error ∈ (scan second token.lexeme.text).errors, ∃ c, error.fault = .unknownEscape c := by
  intro kept
  obtain ⟨segments, solid, looks⟩ := exists_solid first text
  obtain ⟨tokens, errors⟩ := scan_spaced_of_solid second solid looks
  refine ⟨tokens, ?_, errors, ?_⟩
  · intro token member blank
    have look : token.look ∈ kept.map Token.look ++ [(.finish, "")] := tokens ▸ List.mem_map_of_mem member
    rcases List.mem_append.mp look with inside | last
    · obtain ⟨same, inKept, alike⟩ := List.mem_map.mp inside
      have written : same.kind ≠ .blankLine := by
        have kinds := (List.mem_filter.mp inKept).2
        simp only [decide_eq_true_eq] at kinds
        exact kinds.1
      exact written ((congrArg Prod.fst alike).trans blank)
    · have finishes := congrArg Prod.fst (List.mem_singleton.mp last)
      exact absurd (blank.symm.trans finishes) (by decide)
  · intro token member
    have look : token.look ∈ segments.filterMap Piece.solidLook? := looks ▸ List.mem_map_of_mem member
    obtain ⟨piece, inside, alike⟩ := List.mem_filterMap.mp look
    -- The lexeme of one token is the text of the one segment that it looks like.
    have alone : [token].map Token.look = [piece].filterMap Piece.solidLook? := by simp [alike]
    have single : spaced [token] = token.lexeme.text := by simp [spaced]
    have again := scan_spaced_of_solid second (by simpa using solid piece inside) alone
    rwa [single] at again

-- The comment, the blank line, the number out of range and the `@` are gone; the line feed inside the string stays.
example : spaced (withoutLayout (scan ⟨"script", 1⟩ "a=1.//b\n\n\"\\q\n\"/ 99999999999999999999!==@x").tokens) =
    "a = 1 . \"\\q\n\" / != = x" := by decide +kernel

end ScriptFrontend
