import ScriptFrontend.Token.Piece

/-! # Pieces cover the source

Cutting loses nothing: joined together, the texts of the pieces are the source (`flatMap_text_pieces`).
The step is `Piece.text_first`: whatever a piece is, its text is the character at which it was cut, and
a part of what follows that character.
-/

namespace ScriptFrontend

/-- A string body is what the source goes on with, up to the quotation mark that ends it or to the end
    of the source. -/
theorem stringBody_append (source : List Char) :
    ∃ rest, source = (stringBody source).1 ++ (if (stringBody source).2 then '"' :: rest else []) := by
  fun_induction stringBody source with
  | case1 => exact ⟨[], rfl⟩
  | case2 => exact ⟨[], rfl⟩
  | case3 c rest body closed found ih =>
    obtain ⟨after, spelled⟩ := ih
    refine ⟨after, ?_⟩
    simp only [found, List.cons_append] at spelled ⊢
    rw [← spelled]
  | case4 rest => exact ⟨rest, rfl⟩
  | case5 c rest _ _ _ body closed found ih =>
    obtain ⟨after, spelled⟩ := ih
    refine ⟨after, ?_⟩
    simp only [found, List.cons_append] at spelled ⊢
    rw [← spelled]

theorem spelling_of_plainMark? {c : Char} {m : Mark} (found : plainMark? c = some m) :
    m.spelling = [c] := by
  unfold plainMark? at found
  split at found <;> simp_all <;> subst found <;> rfl

/-- Marks found by a character that an equals sign may follow are written so. -/
theorem spelling_of_equalsMark? {c : Char} {alone withEquals : Mark}
    (found : equalsMark? c = some (alone, withEquals)) :
    alone.spelling = [c] ∧ withEquals.spelling = [c, '='] := by
  unfold equalsMark? at found
  split at found <;> simp_all <;> obtain ⟨rfl, rfl⟩ := found <;> exact ⟨rfl, rfl⟩

namespace Piece

theorem text_number (digit : Char) (rest : List Char) :
    ∃ body tail, (number digit rest).text = digit :: body ∧ rest = body ++ tail := by
  have digits := List.takeWhile_append_dropWhile (p := Char.isDigit) (l := rest)
  unfold number
  dsimp only
  split
  · next d more following =>
    split
    · refine ⟨rest.takeWhile Char.isDigit ++ '.' :: d :: more.takeWhile Char.isDigit,
        more.dropWhile Char.isDigit, by simp [text], ?_⟩
      simp [List.takeWhile_append_dropWhile, ← following, digits]
    · exact ⟨_, _, rfl, digits.symm⟩
  · exact ⟨_, _, rfl, digits.symm⟩

/-- A piece covers the character it begins with and some of what follows. -/
theorem text_first (c : Char) (rest : List Char) :
    ∃ body tail, (first c rest).text = c :: body ∧ rest = body ++ tail := by
  unfold first
  split
  · next isLineFeed => exact ⟨[], rest, by simp [text, isLineFeed], rfl⟩
  split
  · exact ⟨[], rest, rfl, rfl⟩
  split
  · next isSlash =>
    subst isSlash
    unfold slashed
    split
    · next more => exact ⟨_, more.dropWhile (· ≠ '\n'), rfl, by simp [List.takeWhile_append_dropWhile]⟩
    · exact ⟨[], rest, rfl, rfl⟩
  split
  · next isQuote =>
    subst isQuote
    obtain ⟨after, spelled⟩ := stringBody_append rest
    unfold quoted
    split
    · next body found => exact ⟨body ++ ['"'], after, rfl, by simp_all⟩
    · next body found => exact ⟨body, [], rfl, by simp_all⟩
  split
  · exact ⟨_, _, rfl, List.takeWhile_append_dropWhile.symm⟩
  split
  · exact text_number c rest
  split
  · next m _ found => exact ⟨[], rest, spelling_of_plainMark? found, rfl⟩
  · next alone withEquals _ found =>
    obtain ⟨aloneSpelled, equalsSpelled⟩ := spelling_of_equalsMark? found
    split
    · next followed =>
      cases rest with
      | nil => simp at followed
      | cons d more => exact ⟨['='], more, equalsSpelled, by simp_all⟩
    · exact ⟨[], rest, aloneSpelled, rfl⟩
  · exact ⟨[], rest, rfl, rfl⟩

end Piece

theorem flatMap_text_piecesAfter (covered : Nat) (source : List Char) :
    (piecesAfter covered source).flatMap Piece.text = source.drop covered := by
  fun_induction piecesAfter covered source with
  | case1 => simp
  | case2 rest covered c ih => simpa using ih
  | case3 c rest piece ih =>
    obtain ⟨body, tail, spelled, follows⟩ := Piece.text_first c rest
    have covers : piece.text = c :: body := spelled
    rw [List.flatMap_cons, ih, covers]
    simp [follows]

/-- Cutting loses nothing: the pieces spell the source. -/
theorem flatMap_text_pieces (source : List Char) : (pieces source).flatMap Piece.text = source :=
  flatMap_text_piecesAfter 0 source

end ScriptFrontend
