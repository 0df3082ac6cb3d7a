import ScriptFrontend.Proofs.Boundary
import ScriptFrontend.Token.Piece.Lemmas
import ScriptFrontend.Token.Scan

/-! # Scanning scripts piece by piece

Two facts about scanning that do not depend on where a text stands.

* `ScansAs`: the tokens of a text are those of its pieces, provided that no piece goes on into the
  next.  Only the look of a token is said, its kind and its lexeme; the place differs.
* `scan_faithful`: the lexeme of a scanned token fits its kind.
-/

namespace ScriptFrontend

/-- What a token looks like, apart from its place and the table of its symbol. -/
def Token.look (token : Token) : TokenKind × String := (token.kind, token.lexeme.text)

def tokensFrom (source : Source) (position : Position) (text : List Char) : List Token :=
  (located position (pieces text)).filterMap fun (position, piece) => piece.token? source position

def errorsFrom (source : Source) (position : Position) (text : List Char) : List LexicalError :=
  (located position (pieces text)).flatMap fun (position, piece) => piece.errors source position

/-- What it means that a text gives tokens of some look and no errors, and leaves what follows it
    alone. -/
def ScansAs (text : List Char) (looks : List (TokenKind × String)) (rest : List Char) : Prop :=
  ∀ source position, ∃ tokens, tokens.map Token.look = looks ∧
    tokensFrom source position (text ++ rest) =
      tokens ++ tokensFrom source (position.advance text) rest ∧
    errorsFrom source position (text ++ rest) = errorsFrom source (position.advance text) rest

theorem ScansAs.append {left right rest : List Char} {first second : List (TokenKind × String)}
    (earlier : ScansAs left first (right ++ rest)) (later : ScansAs right second rest) :
    ScansAs (left ++ right) (first ++ second) rest := by
  intro source position
  obtain ⟨leftTokens, leftLooks, leftScanned, leftErrors⟩ := earlier source position
  obtain ⟨rightTokens, rightLooks, rightScanned, rightErrors⟩ := later source (position.advance left)
  refine ⟨leftTokens ++ rightTokens, by rw [List.map_append, leftLooks, rightLooks], ?_, ?_⟩
  · rw [List.append_assoc, leftScanned, rightScanned, List.append_assoc, Position.advance_append]
  · rw [List.append_assoc, leftErrors, rightErrors, Position.advance_append]

/-- A text by itself looks one way only. -/
theorem ScansAs.unique {text : List Char} {looks others : List (TokenKind × String)}
    (scanned : ScansAs text looks []) (otherScanned : ScansAs text others []) : looks = others := by
  obtain ⟨tokens, rfl, found, -⟩ := scanned ⟨"", 0⟩ .start
  obtain ⟨otherTokens, rfl, otherFound, -⟩ := otherScanned ⟨"", 0⟩ .start
  rw [List.append_cancel_right (found.symm.trans otherFound)]

theorem piecesAfter_covered (covered rest : List Char) :
    piecesAfter covered.length (covered ++ rest) = pieces rest := by
  induction covered with
  | nil => rfl
  | cons c covered inductionHypothesis => exact inductionHypothesis

theorem pieces_first {c : Char} {others rest : List Char} {piece : Piece}
    (cut : Piece.first c (others ++ rest) = piece) (spelled : piece.text = c :: others) :
    pieces (c :: others ++ rest) = piece :: pieces rest := by
  rw [pieces, List.cons_append, piecesAfter, cut, spelled]
  exact congrArg _ (piecesAfter_covered others rest)

theorem scansAs_piece {c : Char} {others rest : List Char} {piece : Piece} (kind : Option TokenKind)
    (cut : Piece.first c (others ++ rest) = piece) (spelled : piece.text = c :: others)
    (classified : ∀ position, piece.kind? position = kind)
    (faultless : ∀ position, piece.faults position = []) :
    ScansAs (c :: others) (kind.toList.map fun kind => (kind, String.ofList (c :: others))) rest := by
  intro source position
  -- Where the piece stands changes the line of its token and nothing else.
  refine ⟨(piece.token? source position).toList, ?_, ?_, ?_⟩
  · rw [Piece.token?, classified, spelled]
    cases kind <;> rfl
  · rw [tokensFrom, pieces_first cut spelled, located, spelled]
    cases found : piece.token? source position <;> simp [found, tokensFrom]
  · rw [errorsFrom, pieces_first cut spelled, located, spelled]
    simp [Piece.errors, faultless, errorsFrom]

theorem scansAs_space (rest : List Char) : ScansAs [' '] [] rest :=
  scansAs_piece none rfl rfl (fun _ => rfl) (fun _ => rfl)

/-! ## Words, numbers and marks -/

def wordKind (word : List Char) : TokenKind :=
  match Keyword.ofWord? word with
  | some keyword => .keyword keyword
  | none => .identifier (String.ofList word)

theorem first_word {c : Char} {others rest : List Char} (begins : beginsWord c = true)
    (inside : ∀ d ∈ others, inWord d = true) (ends : ∀ d ∈ rest.head?, inWord d = false) :
    Piece.first c (others ++ rest) = .word (c :: others) := by
  have other : ∀ d, beginsWord d = false → c ≠ d := by
    rintro d outside rfl
    rw [begins] at outside
    contradiction
  unfold Piece.first
  rw [if_neg (other '\n' rfl), isBlank_of_inWord (inWord_of_beginsWord begins), if_neg Bool.false_ne_true,
    if_neg (other '/' rfl), if_neg (other '"' rfl), if_pos begins, takeWhile_run inside ends]

theorem scansAs_word {c : Char} {others rest : List Char} (begins : beginsWord c = true)
    (inside : ∀ d ∈ others, inWord d = true) (detached : Detached rest) :
    ScansAs (c :: others) [(wordKind (c :: others), String.ofList (c :: others))] rest := by
  refine scansAs_piece (some _) (first_word begins inside detached.endsWord) rfl ?_ (fun _ => rfl)
  intro position
  simp only [Piece.kind?, wordKind]
  cases Keyword.ofWord? (c :: others) <;> rfl

theorem first_of_isDigit {c : Char} {rest : List Char} (digit : c.isDigit = true) :
    Piece.first c rest = Piece.number c rest := by
  have other : ∀ d, d.isDigit = false → c ≠ d := by
    rintro d outside rfl
    rw [digit] at outside
    contradiction
  unfold Piece.first
  rw [if_neg (other '\n' rfl), isBlank_of_inWord (inWord_of_isDigit digit), if_neg Bool.false_ne_true,
    if_neg (other '/' rfl), if_neg (other '"' rfl), beginsWord_of_isDigit digit,
    if_neg Bool.false_ne_true, if_pos digit]

/-- Digits are an integer if no point with a digit behind it follows them. -/
theorem number_integer {c : Char} {others rest : List Char} (inside : ∀ d ∈ others, d.isDigit = true)
    (ends : EndsDigits rest) (pointless : ∀ d more, rest = '.' :: d :: more → d.isDigit = false) :
    Piece.number c (others ++ rest) = .integer (c :: others) := by
  unfold Piece.number
  rw [takeWhile_run inside ends, dropWhile_run inside ends]
  split
  · rw [pointless _ _ rfl, if_neg Bool.false_ne_true]
  · rfl

theorem first_digits {c : Char} {others rest : List Char} (digit : c.isDigit = true)
    (inside : ∀ d ∈ others, d.isDigit = true) (detached : Detached rest) :
    Piece.first c (others ++ rest) = .integer (c :: others) := by
  rw [first_of_isDigit digit]
  -- What follows is no point, so the number has no places.
  refine number_integer inside detached.endsDigits ?_
  rintro d more rfl
  exact absurd rfl (detached '.' rfl).2

theorem scansAs_integer {n : Nat} (small : n ≤ largestInteger) {rest : List Char}
    (detached : Detached rest) :
    ScansAs (Text.digits n) [(.integer n, String.ofList (Text.digits n))] rest := by
  have value := Text.digitsValue_digits n
  obtain ⟨digit, others, spelled, isDigit, areDigits⟩ := Text.digits_eq_cons n
  rw [spelled] at value ⊢
  refine scansAs_piece (some _) (first_digits isDigit areDigits detached) rfl ?_ ?_
  · intro position
    simp [Piece.kind?, value, small]
  · intro position
    simp [Piece.faults, value, small]

theorem slashed_alone {rest : List Char} (alone : rest.head? ≠ some '/') :
    Piece.slashed rest = .mark .slash := by
  unfold Piece.slashed
  split
  · contradiction
  · rfl

/-- A mark by itself.  A minus sign always is, since two of them are two tokens. -/
theorem first_mark {mark : Mark} {rest : List Char} (alone : mark = .minus ∨ StandsAlone rest mark) :
    ∃ c others, mark.spelling = c :: others ∧ Piece.first c (others ++ rest) = .mark mark := by
  rcases alone with rfl | alone
  · exact ⟨'-', [], rfl, rfl⟩
  · cases mark with
    | slash => exact ⟨'/', [], rfl, slashed_alone alone⟩
    | bang => exact ⟨'!', [], rfl, congrArg Piece.mark (if_neg alone)⟩
    | equal => exact ⟨'=', [], rfl, congrArg Piece.mark (if_neg alone)⟩
    | less => exact ⟨'<', [], rfl, congrArg Piece.mark (if_neg alone)⟩
    | greater => exact ⟨'>', [], rfl, congrArg Piece.mark (if_neg alone)⟩
    | _ => exact ⟨_, _, rfl, rfl⟩

theorem scansAs_mark (mark : Mark) {rest : List Char} (alone : mark = .minus ∨ StandsAlone rest mark) :
    ScansAs mark.spelling [(.mark mark, String.ofList mark.spelling)] rest := by
  obtain ⟨c, others, spelled, cut⟩ := first_mark alone
  rw [spelled]
  exact scansAs_piece (some _) cut spelled (fun _ => rfl) (fun _ => rfl)

/-! ## Strings -/

theorem stringBody_escape (c : Char) (rest : List Char) :
    stringBody (Text.escape c ++ rest) = (Text.escape c ++ (stringBody rest).1, (stringBody rest).2) := by
  rcases Text.escape_cases c with ⟨letter, written, meant⟩ | ⟨written, notQuote, notBackslash⟩
  · rw [written]
    rfl
  · rw [written, List.singleton_append, stringBody]
    · rfl
    · intro same
      exact absurd same notBackslash
    · intro _ _ same
      exact absurd same notBackslash
    · exact notQuote

theorem stringBody_text (text rest : List Char) :
    stringBody (text.flatMap Text.escape ++ '"' :: rest) = (text.flatMap Text.escape, true) := by
  induction text with
  | nil => rfl
  | cons c text inductionHypothesis =>
    rw [List.flatMap_cons, List.append_assoc, stringBody_escape, inductionHypothesis]

theorem decode_escape (c : Char) (rest : List Char) :
    Text.decode (Text.escape c ++ rest) = c :: Text.decode rest := by
  rcases Text.escape_cases c with ⟨letter, written, meant⟩ | ⟨written, notQuote, notBackslash⟩
  · rw [written]
    show (Text.meaning? letter).getD letter :: Text.decode rest = _
    rw [meant]
    rfl
  · rw [written, List.singleton_append, Text.decode]
    · intro same
      exact absurd same notBackslash
    · intro _ _ same
      exact absurd same notBackslash

theorem decode_text (text : List Char) : Text.decode (text.flatMap Text.escape) = text := by
  induction text with
  | nil => rfl
  | cons c text inductionHypothesis => rw [List.flatMap_cons, decode_escape, inductionHypothesis]

theorem unknown_escape (line : Nat) (c : Char) (rest : List Char) :
    ∃ after, Text.unknown line (Text.escape c ++ rest) = Text.unknown after rest := by
  rcases Text.escape_cases c with ⟨letter, written, meant⟩ | ⟨written, notQuote, notBackslash⟩
  · refine ⟨Text.lineAfter line letter, ?_⟩
    rw [written]
    show Text.unknown line ('\\' :: letter :: rest) = _
    rw [Text.unknown, meant]
  · refine ⟨Text.lineAfter line c, ?_⟩
    rw [written, List.singleton_append, Text.unknown]
    · intro same
      exact absurd same notBackslash
    · intro _ _ same
      exact absurd same notBackslash

theorem unknown_text (line : Nat) (text : List Char) : Text.unknown line (text.flatMap Text.escape) = [] := by
  induction text generalizing line with
  | nil => rfl
  | cons c text inductionHypothesis =>
    obtain ⟨after, passed⟩ := unknown_escape line c (text.flatMap Text.escape)
    rw [List.flatMap_cons, passed, inductionHypothesis]

theorem first_quote (text rest : List Char) :
    Piece.first '"' (text.flatMap Text.escape ++ ['"'] ++ rest) = .string (text.flatMap Text.escape) := by
  rw [List.append_assoc, List.singleton_append]
  show Piece.quoted _ = _
  rw [Piece.quoted, stringBody_text]

theorem scansAs_quote (text rest : List Char) :
    ScansAs (Text.quote text) [(.string (String.ofList text), String.ofList (Text.quote text))] rest := by
  refine scansAs_piece (some _) (first_quote text rest) rfl ?_ ?_
  · intro position
    rw [Piece.kind?, decode_text]
  · intro position
    rw [Piece.faults, unknown_text]
    rfl

/-! ## Faithful tokens -/

/-- What holds of tokens that were scanned and not made by hand: marks are spelled as they are, names
    are words and no keywords, and integers are in range. -/
def Token.Faithful (token : Token) : Prop :=
  match token.kind with
  | .mark mark => token.lexeme.text = String.ofList mark.spelling
  | .identifier name =>
    token.lexeme.text = name ∧ Keyword.ofWord? name.toList = none ∧
      ∃ c others, name.toList = c :: others ∧ beginsWord c = true ∧ ∀ d ∈ others, inWord d = true
  | .integer value => ∃ n : Nat, value = n ∧ n ≤ largestInteger
  | _ => True

theorem word_of_first {c : Char} {rest chars : List Char} (cut : Piece.first c rest = .word chars) :
    ∃ others, chars = c :: others ∧ beginsWord c = true ∧ ∀ d ∈ others, inWord d = true := by
  have notNumber : Piece.number c rest ≠ .word chars := by
    unfold Piece.number
    grind
  have notQuoted : Piece.quoted rest ≠ .word chars := by
    unfold Piece.quoted
    grind
  have notSlashed : Piece.slashed rest ≠ .word chars := by
    unfold Piece.slashed
    grind
  -- Only one of the cases gives a word.
  unfold Piece.first at cut
  split at cut
  · contradiction
  split at cut
  · contradiction
  split at cut
  · contradiction
  split at cut
  · contradiction
  split at cut
  · next begins =>
    cases cut
    exact ⟨_, rfl, begins, List.all_eq_true.mp List.all_takeWhile⟩
  split at cut
  · contradiction
  split at cut <;> contradiction

theorem exists_first_of_mem {covered : Nat} {source : List Char} {piece : Piece}
    (member : piece ∈ piecesAfter covered source) : ∃ c rest, Piece.first c rest = piece := by
  fun_induction piecesAfter covered source with
  | case1 => contradiction
  | case2 _ _ _ inductionHypothesis => exact inductionHypothesis member
  | case3 c rest _ inductionHypothesis =>
    cases List.mem_cons.mp member with
    | inl same => exact ⟨c, rest, same.symm⟩
    | inr later => exact inductionHypothesis later

theorem mem_of_mem_located {position place : Position} {pieces : List Piece} {piece : Piece}
    (member : (place, piece) ∈ located position pieces) : piece ∈ pieces := by
  induction pieces generalizing position with
  | nil => contradiction
  | cons first rest inductionHypothesis =>
    cases member with
    | head => exact List.mem_cons_self
    | tail _ later => exact List.mem_cons_of_mem _ (inductionHypothesis later)

theorem token?_faithful {source : Source} {position : Position} {c : Char} {rest : List Char}
    {token : Token} (found : (Piece.first c rest).token? source position = some token) :
    token.Faithful := by
  rw [Piece.token?, Option.map_eq_some_iff] at found
  obtain ⟨kind, classified, rfl⟩ := found
  cases cut : Piece.first c rest with
  | mark mark =>
    rw [cut] at classified
    cases classified
    simp [Token.Faithful, Piece.text]
  | word chars =>
    rw [cut] at classified
    obtain ⟨others, rfl, begins, inside⟩ := word_of_first cut
    simp only [Piece.kind?] at classified
    -- A keyword may have any lexeme, a name must have its own.
    cases keyword : Keyword.ofWord? (c :: others) with
    | some _ =>
      rw [keyword] at classified
      cases classified
      trivial
    | none =>
      rw [keyword] at classified
      cases classified
      refine ⟨rfl, ?_, c, others, String.toList_ofList, begins, inside⟩
      rw [String.toList_ofList, keyword]
  | integer digits =>
    rw [cut] at classified
    simp only [Piece.kind?] at classified
    split at classified
    · next small =>
      cases classified
      exact ⟨_, rfl, small⟩
    · contradiction
  | lineFeed =>
    rw [cut] at classified
    simp only [Piece.kind?] at classified
    split at classified
    · cases classified
      trivial
    · contradiction
  | blank _ | comment _ | unterminated _ | unexpected _ =>
    rw [cut] at classified
    contradiction
  | float _ _ | string _ =>
    rw [cut] at classified
    cases classified
    trivial

theorem scan_faithful (source : Source) (text : String) :
    ∀ token ∈ (scan source text).tokens, token.Faithful := by
  intro token member
  simp only [scan, List.mem_append, List.mem_filterMap, List.mem_singleton] at member
  rcases member with ⟨⟨position, piece⟩, here, found⟩ | rfl
  · obtain ⟨c, rest, rfl⟩ := exists_first_of_mem (mem_of_mem_located here)
    exact token?_faithful found
  · trivial

end ScriptFrontend
