import Mathlib.Data.List.Sort
import ScriptFrontend.Proofs.LineEnds
import ScriptFrontend.Tree

/-! # Where tokens stand

A token keeps the line that the scanner counted, and not its place.  `placedTokens` gives it back its place,
as the text before it, so that its line can be counted again (`placedAfter_place`).  Places only move forward
(`placedAfter_forward`).

The place of a token can also be said without the scanner: a token begins at an offset if the segment that
begins there gives it (`BeginsAt`).  There is one way to give every token of a text its offset (`Placement`),
and it has two consequences.  The line of a token is the number of line feeds before its offset, counted from
one (`scan_lines`); and a line feed is a blank line exactly if it is not inside a string and has nothing before
it on its line, a carriage return aside (`scan_blankLines`).
-/

namespace ScriptFrontend

/-! ## Tokens and their places -/

/-- The tokens that pieces after a text give, each with all the text before it. -/
def placedAfter (source : Source) (before : List Char) : List Piece → List (List Char × Token)
  | [] => []
  | piece :: rest =>
    (piece.token? source (Position.start.advance before)).toList.map (fun token => (before, token)) ++
      placedAfter source (before ++ piece.text) rest

/-- The tokens of a text, each with all the text before it.  The end mark is not among them. -/
def placedTokens (source : Source) (text : String) : List (List Char × Token) :=
  placedAfter source [] (pieces text.toList)

theorem map_placedAfter (source : Source) (before : List Char) (pieces : List Piece) :
    (placedAfter source before pieces).map Prod.snd = tokensOf source before pieces := by
  induction pieces generalizing before with
  | nil => rfl
  | cons piece rest inductionHypothesis =>
    rw [placedAfter, List.map_append, inductionHypothesis]
    simp only [tokensOf, located, List.filterMap_cons, Position.advance_append]
    cases piece.token? source (Position.start.advance before) <;> simp

theorem scan_eq_placedTokens (source : Source) (text : String) :
    (scan source text).tokens =
      (placedTokens source text).map Prod.snd ++ [endToken source (Position.start.advance text.toList)] := by
  rw [placedTokens, map_placedAfter]
  rfl

/-- The placed tokens are what the pieces give where they stand. -/
theorem mem_placedAfter {source : Source} {before : List Char} {pieces : List Piece}
    {placed : List Char × Token} :
    placed ∈ placedAfter source before pieces ↔
      ∃ earlier piece later, pieces = earlier ++ piece :: later ∧
        placed.1 = before ++ earlier.flatMap Piece.text ∧
        piece.token? source (Position.start.advance placed.1) = some placed.2 := by
  induction pieces generalizing before with
  | nil => simp [placedAfter]
  | cons first rest inductionHypothesis =>
    rw [placedAfter, List.mem_append, inductionHypothesis]
    constructor
    · rintro (here | ⟨earlier, piece, later, rfl, place, found⟩)
      · obtain ⟨token, found, rfl⟩ := List.mem_map.mp here
        exact ⟨[], first, rest, rfl, by simp, Option.mem_toList.mp found⟩
      · exact ⟨first :: earlier, piece, later, rfl, by simpa using place, found⟩
    · rintro ⟨earlier, piece, later, split, place, found⟩
      cases earlier with
      | nil =>
        cases split
        rw [List.flatMap_nil, List.append_nil] at place
        refine .inl (List.mem_map.mpr ⟨placed.2, ?_, by rw [← place]⟩)
        rw [← place, found]
        exact Option.mem_toList.mpr rfl
      | cons _ earlier =>
        cases split
        exact .inr ⟨earlier, piece, later, rfl, by simpa using place, found⟩

/-- A placed token begins where its place ends, and its line is counted there. -/
structure StandsIn (source : Source) (text : List Char) (placed : List Char × Token) : Prop where
  spelled : placed.1 ++ placed.2.lexeme.text.toList <+: text
  origin_eq : placed.2.origin = ⟨source.file, 1 + placed.1.count '\n'⟩
  goesOn : placed.2.kind ≠ .finish

/-- A segment is never the end mark, and a blank line only if it is a line feed. -/
theorem layout_of_kind? {position : Position} {piece : Piece} {kind : TokenKind}
    (classified : piece.kind? position = some kind) :
    kind ≠ .finish ∧ (kind = .blankLine → piece = .lineFeed) := by
  cases piece with
  | lineFeed =>
    simp only [Piece.kind?] at classified
    split at classified
    · cases classified
      exact ⟨by simp, fun _ => rfl⟩
    · cases classified
  | integer _ | word _ =>
    simp only [Piece.kind?] at classified
    split at classified <;> cases classified <;> simp
  | mark _ | float _ _ | string _ =>
    cases classified
    simp
  | blank _ | comment _ | unterminated _ | unexpected _ => cases classified

theorem standsIn_of_token? {source : Source} {before after : List Char} {piece : Piece} {token : Token}
    (found : piece.token? source (Position.start.advance before) = some token) :
    StandsIn source (before ++ (piece.text ++ after)) (before, token) := by
  obtain ⟨kind, classified, rfl⟩ := Option.map_eq_some_iff.mp found
  refine ⟨?_, ?_, ?_⟩
  · simp
  · simp [Token.origin, advance_start, lineAt]
  · exact (layout_of_kind? classified).1

theorem placedAfter_place (source : Source) (before : List Char) (pieces : List Piece) :
    ∀ placed ∈ placedAfter source before pieces, before <+: placed.1 ∧
      StandsIn source (before ++ pieces.flatMap Piece.text) placed := by
  induction pieces generalizing before with
  | nil => simp [placedAfter]
  | cons piece rest inductionHypothesis =>
    intro placed member
    cases List.mem_append.mp member with
    | inl here =>
      obtain ⟨token, found, rfl⟩ := List.mem_map.mp here
      refine ⟨List.prefix_refl before, ?_⟩
      exact standsIn_of_token? (Option.mem_toList.mp found)
    | inr later =>
      obtain ⟨beyond, stands⟩ := inductionHypothesis (before ++ piece.text) placed later
      refine ⟨(List.prefix_append before piece.text).trans beyond, ?_⟩
      rwa [List.flatMap_cons, ← List.append_assoc]

theorem look_of_token? {source : Source} {position : Position} {piece : Piece} {token : Token}
    (found : piece.token? source position = some token) :
    piece.kind? position = some token.kind ∧ token.lexeme.text.toList = piece.text := by
  obtain ⟨kind, classified, rfl⟩ := Option.map_eq_some_iff.mp found
  exact ⟨classified, String.toList_ofList⟩

/-- A token ends before the next one begins. -/
theorem placedAfter_apart (source : Source) (before : List Char) (pieces : List Piece) :
    (placedAfter source before pieces).Pairwise fun earlier later =>
      earlier.1 ++ earlier.2.lexeme.text.toList <+: later.1 := by
  induction pieces generalizing before with
  | nil => exact .nil
  | cons piece rest inductionHypothesis =>
    rw [placedAfter, List.pairwise_append]
    refine ⟨?_, inductionHypothesis _, ?_⟩
    · cases piece.token? source (Position.start.advance before) <;> simp
    · intro earlier here later there
      obtain ⟨token, found, rfl⟩ := List.mem_map.mp here
      rw [(look_of_token? (Option.mem_toList.mp found)).2]
      exact (placedAfter_place source _ rest later there).1

theorem placedAfter_forward (source : Source) (before : List Char) (pieces : List Piece) :
    (placedAfter source before pieces).Pairwise fun earlier later => earlier.1 <+: later.1 := by
  apply (placedAfter_apart source before pieces).imp
  intro earlier later apart
  exact (List.prefix_append _ _).trans apart

theorem placedTokens_place (source : Source) (text : String) :
    ∀ placed ∈ placedTokens source text, StandsIn source text.toList placed := by
  intro placed member
  have stands := (placedAfter_place source [] _ placed member).2
  rwa [flatMap_text_pieces, List.nil_append] at stands

/-! ## Segments and their places -/

/-- A segment of a text that begins at an offset. -/
def SegmentAt (text : List Char) (start : Nat) (piece : Piece) : Prop :=
  ∃ before after, IsSegmentation text (before ++ piece :: after) ∧
    (before.flatMap Piece.text).length = start

/-- What it means that a token begins at an offset of a text: it is what the segment there gives, or it is
    the end mark and there is nothing more. -/
inductive BeginsAt (text : List Char) (token : Token) : Nat → Prop where
  | segment {start : Nat} {piece : Piece} {faults : List (LexicalFault × Nat)} :
      SegmentAt text start piece → piece.Gives (text.take start) (some token.kind) faults →
      token.lexeme.text.toList = piece.text → BeginsAt text token start
  | finish : token.kind = .finish → token.lexeme.text = "" → BeginsAt text token text.length

/-- The offsets at which the tokens of a text begin.  They increase, and none is left out at which a token
    can begin. -/
structure Placement (text : List Char) (tokens : List Token) (starts : List Nat) : Prop where
  begins : List.Forall₂ (BeginsAt text) tokens starts
  forward : starts.Pairwise (· < ·)
  complete : ∀ token start, BeginsAt text token start → start ∈ starts

/-- A text is what comes before a segment, the segment, and what comes after it. -/
theorem SegmentAt.split {text : List Char} {start : Nat} {piece : Piece} (here : SegmentAt text start piece) :
    ∃ before after, text = before ++ piece.text ++ after ∧ before.length = start := by
  obtain ⟨before, after, cut, rfl⟩ := here
  refine ⟨before.flatMap Piece.text, after.flatMap Piece.text, ?_, rfl⟩
  rw [← cut.joined]
  simp

theorem SegmentAt.form {text : List Char} {start : Nat} {piece : Piece} (here : SegmentAt text start piece) :
    piece.HasForm := by
  obtain ⟨before, after, cut, -⟩ := here
  exact cut.forms piece (List.mem_append_right before (.head _))

/-! ## Segments cover a text once -/

theorem exists_covering {pieces : List Piece} {k : Nat} (inside : k < (pieces.flatMap Piece.text).length) :
    ∃ before piece after, pieces = before ++ piece :: after ∧ (before.flatMap Piece.text).length ≤ k ∧
      k < (before.flatMap Piece.text).length + piece.text.length := by
  induction pieces generalizing k with
  | nil => cases inside
  | cons piece rest inductionHypothesis =>
    rw [List.flatMap_cons, List.length_append] at inside
    by_cases here : k < piece.text.length
    · exact ⟨[], piece, rest, rfl, Nat.zero_le k, by simpa using here⟩
    · have later : k - piece.text.length < (rest.flatMap Piece.text).length := by omega
      obtain ⟨before, covering, after, rfl, low, high⟩ := inductionHypothesis later
      refine ⟨piece :: before, covering, after, rfl, ?_, ?_⟩
      · rw [List.flatMap_cons, List.length_append]
        omega
      · rw [List.flatMap_cons, List.length_append]
        omega

/-- Every character of a text belongs to a segment. -/
theorem exists_segmentAt {text : List Char} {k : Nat} (inside : k < text.length) :
    ∃ start piece, SegmentAt text start piece ∧ start ≤ k ∧ k < start + piece.text.length := by
  have cut := isSegmentation_iff.mpr (Eq.refl (pieces text))
  rw [← flatMap_text_pieces text] at inside
  obtain ⟨before, piece, after, split, low, high⟩ := exists_covering inside
  exact ⟨_, piece, ⟨before, after, split ▸ cut, rfl⟩, low, high⟩

/-- A segment that ends after another one begins does not come before it. -/
theorem eq_of_overlap {before between after otherAfter : List Piece} {piece other : Piece} {k : Nat}
    (following : piece :: after = between ++ other :: otherAfter)
    (low : ((before ++ between).flatMap Piece.text).length ≤ k)
    (high : k < (before.flatMap Piece.text).length + piece.text.length) : piece = other := by
  cases between with
  | nil => exact (List.cons.inj following).1
  | cons first between =>
    obtain ⟨rfl, -⟩ := List.cons.inj following
    rw [List.flatMap_append, List.flatMap_cons, List.length_append, List.length_append] at low
    omega

/-- Two segments that overlap are the same. -/
theorem SegmentAt.unique {text : List Char} {start otherStart k : Nat} {piece other : Piece}
    (here : SegmentAt text start piece) (otherHere : SegmentAt text otherStart other)
    (low : start ≤ k) (high : k < start + piece.text.length)
    (otherLow : otherStart ≤ k) (otherHigh : k < otherStart + other.text.length) : piece = other := by
  obtain ⟨before, after, cut, rfl⟩ := here
  obtain ⟨otherBefore, otherAfter, otherCut, rfl⟩ := otherHere
  have same := cut.eq_pieces.trans otherCut.eq_pieces.symm
  rcases List.append_eq_append_iff.mp same with ⟨between, rfl, following⟩ | ⟨between, rfl, following⟩
  · exact eq_of_overlap following otherLow high
  · exact (eq_of_overlap following low otherHigh).symm

/-! ## The offsets of scanned tokens -/

/-- The offsets at which the tokens of a text begin, and that of the end mark. -/
def tokenStarts (source : Source) (text : String) : List Nat :=
  (placedTokens source text).map (fun placed => placed.1.length) ++ [text.toList.length]

/-- What holds of every placed token and of the end mark holds of the tokens and their offsets. -/
theorem forall₂_tokenStarts {source : Source} {text : String} {holds : Token → Nat → Prop}
    (placed : ∀ placed ∈ placedTokens source text, holds placed.2 placed.1.length)
    (finish : holds (endToken source (Position.start.advance text.toList)) text.toList.length) :
    List.Forall₂ holds (scan source text).tokens (tokenStarts source text) := by
  rw [scan_eq_placedTokens, tokenStarts]
  apply List.rel_append
  · rw [List.forall₂_map_left_iff, List.forall₂_map_right_iff, List.forall₂_same]
    exact placed
  · exact .cons finish .nil

theorem IsSegmentation.take_joined {text : List Char} {before after : List Piece}
    (cut : IsSegmentation text (before ++ after)) :
    text.take (before.flatMap Piece.text).length = before.flatMap Piece.text := by
  rw [← cut.joined, List.flatMap_append, List.take_left]

theorem beginsAt_of_mem {source : Source} {text : String} {placed : List Char × Token}
    (member : placed ∈ placedTokens source text) : BeginsAt text.toList placed.2 placed.1.length := by
  obtain ⟨before, token⟩ := placed
  obtain ⟨earlier, piece, later, split, place, found⟩ := mem_placedAfter.mp member
  have cut := isSegmentation_iff.mpr split.symm
  obtain rfl : before = earlier.flatMap Piece.text := place
  have here : SegmentAt text.toList (earlier.flatMap Piece.text).length piece := ⟨earlier, later, cut, rfl⟩
  obtain ⟨classified, spelled⟩ := look_of_token? found
  have given := here.form.gives (earlier.flatMap Piece.text)
  rw [classified, ← cut.take_joined] at given
  exact .segment here given spelled

/-- Wherever a token can begin, one was scanned. -/
theorem mem_tokenStarts {text : String} {token : Token} {start : Nat} (begins : BeginsAt text.toList token start)
    (source : Source) : start ∈ tokenStarts source text := by
  cases begins with
  | finish _ _ => exact List.mem_append_right _ (.head _)
  | @segment _ piece _ here given spelled =>
    obtain ⟨before, after, cut, rfl⟩ := here
    rw [cut.take_joined] at given
    -- The segment gives the scanner a token as well, if perhaps of another file or table.
    have found : ∃ scanned, piece.token? source (Position.start.advance (before.flatMap Piece.text)) =
        some scanned := by
      rw [Piece.token?, ← given.eq.1]
      exact ⟨_, rfl⟩
    obtain ⟨scanned, found⟩ := found
    have member : (before.flatMap Piece.text, scanned) ∈ placedTokens source text :=
      mem_placedAfter.mpr ⟨before, piece, after, cut.eq_pieces.symm, rfl, found⟩
    exact List.mem_append_left _ (List.mem_map.mpr ⟨_, member, rfl⟩)

theorem BeginsAt.lexeme_ne_nil {text : List Char} {token : Token} {start : Nat}
    (begins : BeginsAt text token start) (goesOn : token.kind ≠ .finish) : token.lexeme.text.toList ≠ [] := by
  cases begins with
  | finish finishes _ => exact absurd finishes goesOn
  | segment here _ spelled =>
    rw [spelled]
    exact here.form.text_ne_nil

/-- The offsets increase, since no token is empty but the end mark. -/
theorem tokenStarts_forward (source : Source) (text : String) :
    (tokenStarts source text).Pairwise (· < ·) := by
  have longer : ∀ placed ∈ placedTokens source text, ∀ later : List Char,
      placed.1 ++ placed.2.lexeme.text.toList <+: later → placed.1.length < later.length := by
    intro placed member later apart
    have stands := placedTokens_place source text placed member
    have positive := List.length_pos_iff.mpr ((beginsAt_of_mem member).lexeme_ne_nil stands.goesOn)
    have bound := apart.length_le
    rw [List.length_append] at bound
    omega
  rw [tokenStarts, List.pairwise_append, List.pairwise_map]
  refine ⟨?_, List.pairwise_singleton _ _, ?_⟩
  · refine (placedAfter_apart source [] (pieces text.toList)).imp_of_mem ?_
    intro earlier later member _ apart
    exact longer earlier member later.1 apart
  · intro start member stop last
    obtain ⟨placed, inside, rfl⟩ := List.mem_map.mp member
    rw [List.mem_singleton.mp last]
    exact longer placed inside _ (placedTokens_place source text placed inside).spelled

theorem scan_placement (source : Source) (text : String) :
    Placement text.toList (scan source text).tokens (tokenStarts source text) where
  begins := by
    apply forall₂_tokenStarts
    · intro placed member
      exact beginsAt_of_mem member
    · exact .finish rfl rfl
  forward := tokenStarts_forward source text
  complete := by
    intro token start begins
    exact mem_tokenStarts begins source

namespace Placement

variable {text : List Char} {tokens : List Token} {starts others : List Nat}

theorem beginsAt (placement : Placement text tokens starts) {token : Token} {start : Nat}
    (member : (token, start) ∈ tokens.zip starts) : BeginsAt text token start :=
  (List.forall₂_iff_zip.mp placement.begins).2 member

theorem exists_token (placement : Placement text tokens starts) {start : Nat} (member : start ∈ starts) :
    ∃ token, (token, start) ∈ tokens.zip starts := by
  have lengths := placement.begins.length_eq
  rw [← List.map_snd_zip (Nat.le_of_eq lengths.symm)] at member
  obtain ⟨⟨token, _⟩, inside, rfl⟩ := List.mem_map.mp member
  exact ⟨token, inside⟩

theorem exists_start (placement : Placement text tokens starts) {token : Token} (member : token ∈ tokens) :
    ∃ start, (token, start) ∈ tokens.zip starts := by
  have lengths := placement.begins.length_eq
  rw [← List.map_fst_zip (Nat.le_of_eq lengths)] at member
  obtain ⟨⟨_, start⟩, inside, rfl⟩ := List.mem_map.mp member
  exact ⟨start, inside⟩

theorem subset (placement : Placement text tokens starts) (other : Placement text tokens others) :
    starts ⊆ others := by
  intro start member
  obtain ⟨token, here⟩ := placement.exists_token member
  exact other.complete token start (placement.beginsAt here)

/-- Tokens have at most one placement: every offset of one is an offset of the other, and both are in order. -/
theorem unique (placement : Placement text tokens starts) (other : Placement text tokens others) :
    others = starts := by
  apply other.forward.eq_of_mem_iff placement.forward
  intro start
  exact ⟨fun member => other.subset placement member, fun member => placement.subset other member⟩

end Placement

/-! ## Lines of tokens -/

/-- A token stands at its offset, and its line is the number of line feeds before that offset, counted from
    one. -/
theorem scan_counts (source : Source) (text : String) :
    List.Forall₂ (fun token start => token.lexeme.text.toList <+: text.toList.drop start ∧
      token.line = 1 + (text.toList.take start).count '\n') (scan source text).tokens (tokenStarts source text) := by
  apply forall₂_tokenStarts
  · intro placed member
    have stands := placedTokens_place source text placed member
    obtain ⟨after, split⟩ := stands.spelled
    rw [List.append_assoc] at split
    rw [← split, List.drop_left, List.take_left]
    exact ⟨List.prefix_append _ _, congrArg Origin.line stands.origin_eq⟩
  · rw [List.take_length, advance_start]
    exact ⟨List.nil_prefix, rfl⟩

/-- There is one way to say where the tokens of a text begin, and each of them has the line that is counted
    there: one more than the line feeds before its first character.  So lines never decrease. -/
theorem scan_lines (source : Source) (text : String) :
    ∃ starts, Placement text.toList (scan source text).tokens starts ∧
      (∀ others, Placement text.toList (scan source text).tokens others → others = starts) ∧
      List.Forall₂ (fun token start => token.lexeme.text.toList <+: text.toList.drop start ∧
        token.line = 1 + (text.toList.take start).count '\n') (scan source text).tokens starts ∧
      (scan source text).tokens.Pairwise fun earlier later => earlier.line ≤ later.line := by
  have placement := scan_placement source text
  have counts := scan_counts source text
  refine ⟨tokenStarts source text, placement, fun others => placement.unique, counts, ?_⟩
  have lines : (scan source text).tokens.map Token.line =
      (tokenStarts source text).map fun start => 1 + (text.toList.take start).count '\n' := by
    rw [← List.forall₂_eq_eq_eq, List.forall₂_map_left_iff, List.forall₂_map_right_iff]
    exact counts.imp fun token start => And.right
  rw [← List.pairwise_map (f := Token.line), lines, List.pairwise_map]
  apply placement.forward.imp
  intro earlier later before
  have more := (List.take_prefix_take_left (l := text.toList) (Nat.le_of_lt before)).sublist.count_le '\n'
  exact Nat.add_le_add_left more 1

/-! ## Blank lines -/

/-- A character inside a string, whether the string is closed or the end of the text cuts it off. -/
def InsideString (text : List Char) (k : Nat) : Prop :=
  ∃ start piece, SegmentAt text start piece ∧ start ≤ k ∧ k < start + piece.text.length ∧
    ∃ body, piece = .string body ∨ piece = .unterminated body

/-- A segment with a line feed in it is the line feed itself or a string. -/
theorem Piece.HasForm.of_lineFeed {piece : Piece} (form : piece.HasForm) (member : '\n' ∈ piece.text) :
    piece = .lineFeed ∨ ∃ body, piece = .string body ∨ piece = .unterminated body := by
  rcases form with proper | ⟨c, rfl, none⟩
  · cases proper with
    | lineFeed => exact .inl rfl
    | string _ => exact .inr ⟨_, .inl rfl⟩
    | unterminated _ _ => exact .inr ⟨_, .inr rfl⟩
    | blank _ notLineFeed => exact absurd (List.mem_singleton.mp member).symm notLineFeed
    | comment inside => simp [Piece.text, inside] at member
    | mark m => exact absurd member (lineFeed_notMem_spelling m)
    | word begins inside =>
      rcases List.mem_cons.mp member with rfl | later
      · contradiction
      · exact absurd (inside _ later) (by decide)
    | integer numeral => exact absurd (numeral.2 _ member) (by decide)
    | float whole fraction =>
      rcases List.mem_append.mp member with early | late
      · exact absurd (whole.2 _ early) (by decide)
      · rcases List.mem_cons.mp late with point | place
        · contradiction
        · exact absurd (fraction.2 _ place) (by decide)
  · rw [Piece.text, List.mem_singleton] at member
    exact absurd (congrArg some member) (none .lineFeed .lineFeed)

/-- A line feed outside of strings is a segment of its own. -/
theorem segmentAt_lineFeed_iff {text : List Char} {k : Nat} :
    SegmentAt text k .lineFeed ↔ text[k]? = some '\n' ∧ ¬ InsideString text k := by
  constructor
  · intro here
    obtain ⟨before, after, split, rfl⟩ := here.split
    refine ⟨by simp [split, Piece.text], ?_⟩
    rintro ⟨start, piece, there, low, high, body, quoted⟩
    obtain rfl := there.unique here low high (Nat.le_refl _) (by simp [Piece.text])
    rcases quoted with quoted | quoted <;> cases quoted
  · rintro ⟨character, outside⟩
    obtain ⟨bound, -⟩ := List.getElem?_eq_some_iff.mp character
    obtain ⟨start, piece, here, low, high⟩ := exists_segmentAt bound
    obtain ⟨before, after, split, rfl⟩ := here.split
    have member : '\n' ∈ piece.text := by
      rw [split, List.append_assoc, List.getElem?_append_right low,
        List.getElem?_append_left (by omega)] at character
      exact List.mem_of_getElem? character
    rcases here.form.of_lineFeed member with rfl | quoted
    · have same : before.length = k := by
        have single : (Piece.lineFeed.text).length = 1 := rfl
        omega
      exact same ▸ here
    · exact absurd ⟨_, piece, here, low, high, quoted⟩ outside

theorem BeginsAt.of_blankLine {text : List Char} {token : Token} {k : Nat} (begins : BeginsAt text token k)
    (blank : token.kind = .blankLine) :
    SegmentAt text k .lineFeed ∧ (lastLine (text.take k) = [] ∨ lastLine (text.take k) = ['\r']) ∧
      token.lexeme.text = "\n" := by
  cases begins with
  | finish finishes _ =>
    rw [blank] at finishes
    cases finishes
  | segment here given spelled =>
    rw [blank] at given
    cases given with
    | blankLine nothing => exact ⟨here, nothing, String.toList_inj.mp spelled⟩

/-- What a line feed gives is a blank line, if it gives a token at all. -/
theorem BeginsAt.of_lineFeed {text : List Char} {token : Token} {k : Nat} (begins : BeginsAt text token k)
    (lineFeed : SegmentAt text k .lineFeed) : token.kind = .blankLine := by
  cases begins with
  | finish _ _ =>
    obtain ⟨before, after, split, length⟩ := lineFeed.split
    have lengths := congrArg List.length split
    rw [List.length_append, List.length_append, length] at lengths
    have single : (Piece.lineFeed.text).length = 1 := rfl
    omega
  | segment here given _ =>
    have positive := List.length_pos_iff.mpr here.form.text_ne_nil
    obtain rfl := here.unique lineFeed (Nat.le_refl k) (by omega) (Nat.le_refl k) (by simp [Piece.text])
    generalize token.kind = kind at given ⊢
    cases given
    rfl

/-- A line feed is a blank line exactly if it is not inside a string and there is nothing before it on its line,
    a carriage return aside.  Blank lines stand among the other tokens in the order of their offsets. -/
theorem scan_blankLines (source : Source) (text : String) :
    ∃ starts, Placement text.toList (scan source text).tokens starts ∧
      (∀ others, Placement text.toList (scan source text).tokens others → others = starts) ∧
      (∀ k, (∃ token, (token, k) ∈ (scan source text).tokens.zip starts ∧ token.kind = .blankLine) ↔
        text.toList[k]? = some '\n' ∧ ¬ InsideString text.toList k ∧
          (lastLine (text.toList.take k) = [] ∨ lastLine (text.toList.take k) = ['\r'])) ∧
      ∀ token ∈ (scan source text).tokens, token.kind = .blankLine → token.lexeme.text = "\n" := by
  have placement := scan_placement source text
  refine ⟨tokenStarts source text, placement, fun others => placement.unique, ?_, ?_⟩
  · intro k
    rw [← and_assoc, ← segmentAt_lineFeed_iff]
    constructor
    · rintro ⟨token, member, blank⟩
      obtain ⟨here, nothing, -⟩ := (placement.beginsAt member).of_blankLine blank
      exact ⟨here, nothing⟩
    · rintro ⟨here, nothing⟩
      have given : Piece.lineFeed.Gives (text.toList.take k) (some .blankLine) [] := .blankLine nothing
      have begins : BeginsAt text.toList ⟨.blankLine, Symbol.of 0 "\n", "", 0⟩ k := .segment here given rfl
      obtain ⟨token, member⟩ := placement.exists_token (placement.complete _ k begins)
      exact ⟨token, member, (placement.beginsAt member).of_lineFeed here⟩
  · intro token member blank
    obtain ⟨start, inside⟩ := placement.exists_start member
    exact ((placement.beginsAt inside).of_blankLine blank).2.2

-- The string over three lines has an empty one, the fourth line has only a carriage return, and the `@` on the
-- fifth begins nothing.
example : let source : Source := ⟨"script", 1⟩
    let text := "\"\n\n\"\n\r\n@x"
    ((scan source text).tokens.zip (tokenStarts source text)).map
        (fun (token, start) => (token.kind, token.line, start)) =
      [(.string "\n\n", 1, 0), (.blankLine, 4, 6), (.identifier "x", 5, 8), (.finish, 5, 9)] := by
  decide +kernel

end ScriptFrontend
