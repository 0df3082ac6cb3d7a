import ScriptFrontend.Proofs.HostLines
import ScriptFrontend.Proofs.TokenPlaces
import ScriptFrontend.Proofs.WellScoped

/-! # Lines of the script and lines of its program

A statement of the program stands on a line of its own in the host text, and names the line of the script on
which it began.  `LineMap` says both: the text is cut into lines, one for each statement, and the tokens of
the script are cut into stretches, one for each statement.

The tokens are taken with their places (`placedTokens`).  Places only move forward, and so do the lines of the
statements.
-/

namespace ScriptFrontend

/-! ## The tokens of a script -/

theorem beforeFinish_scan (source : Source) (text : String) :
    beforeFinish (scan source text).tokens = (placedTokens source text).map Prod.snd := by
  have goesOn : ∀ token ∈ (placedTokens source text).map Prod.snd, token.kind ≠ .finish := by
    intro token member
    obtain ⟨placed, inside, rfl⟩ := List.mem_map.mp member
    exact (placedTokens_place source text placed inside).goesOn
  rw [scan_eq_placedTokens, beforeFinish, List.takeWhile_append_of_pos (by simpa using goesOn)]
  simp [endToken]

/-! ## Lines up to lines -/

/-- How a statement is shown on its line. -/
inductive ShownAs : Host.Action → List Char → Prop where
  | empty : ShownAs .empty []
  | indented {action : Host.Action} : action ≠ .empty →
      ShownAs action (List.replicate 8 ' ' ++ action.render.toList)

/-- What it means that a host statement comes from a stretch of tokens: they are the tokens of a statement
    that is lowered to it, and it names the line on which the first of them begins. -/
structure ComesFrom (text file : String) (stretch : List (List Char × Token)) (lowered : Host.Stmt) : Prop where
  lowers : ∃ (segment : Segment) (statement : Stmt), segment.Valid ∧ segment.tokens = stretch.map Prod.snd ∧
    segment.statements = [statement] ∧ statement.lower = .ok lowered
  origin_eq : ∃ before first others, stretch = (before, first) :: others ∧
    before ++ first.lexeme.text.toList <+: text.toList ∧
    lowered.origin = some ⟨file, 1 + before.count '\n'⟩

/-- How a script and the text of its program belong together line by line. -/
structure LineMap (text file : String) (program : Host.Program) : Prop where
  -- There are six lines, then one for each statement, then two, and each is ended by a line feed.
  lines : ∃ written, List.Forall₂ (fun statement => ShownAs statement.action) program.entry.body written ∧
    program.render.toList.splitOn '\n' =
      Host.openingLines.map String.toList ++ written ++ Host.closingLines.map String.toList ++ [[]]
  -- No line is broken by what is written on it.
  unbroken : ∀ line ∈ program.render.toList.splitOn '\n', '\n' ∉ line ∧ '\r' ∉ line
  -- The tokens that have places are the tokens of the script.
  scanned : ∃ stop, (scan ⟨file, 0⟩ text).tokens = (placedTokens ⟨file, 0⟩ text).map Prod.snd ++ [stop]
  -- They are the tokens of the statements, one statement after the other.
  stretches : ∃ stretches, stretches.flatten = placedTokens ⟨file, 0⟩ text ∧
    List.Forall₂ (ComesFrom text file) stretches program.entry.body
  -- The lines that the statements name never decrease.
  ordered : ∃ origins : List Nat, program.entry.body.map Host.Stmt.origin =
    origins.map (fun line => some ⟨file, line⟩) ∧ origins.Pairwise (· ≤ ·)

theorem shownAs_line (statement : Host.Stmt) : ShownAs statement.action statement.line.toList := by
  rcases statement.line_cases with ⟨empty, line⟩ | ⟨something, line⟩
  · rw [empty, line]
    exact .empty
  · rw [line, String.toList_append]
    exact .indented something

/-! ## Stretches of an accepted script -/

/-- A cut of the images is a cut of the values. -/
theorem exists_cut_of_map {α β : Type} {f : α → β} {values : List α} {lists : List (List β)}
    (same : lists.flatten = values.map f) :
    ∃ cut : List (List α), cut.flatten = values ∧ cut.map (List.map f) = lists := by
  induction lists generalizing values with
  | nil =>
    obtain rfl := List.map_eq_nil_iff.mp same.symm
    exact ⟨[], rfl, rfl⟩
  | cons list lists inductionHypothesis =>
    obtain ⟨here, later, rfl, rfl, rest⟩ := List.map_eq_append_iff.mp same.symm
    obtain ⟨cut, rfl, rfl⟩ := inductionHypothesis rest.symm
    exact ⟨here :: cut, rfl, rfl⟩

/-- A statement stands where the first token of its stretch does. -/
theorem Segment.Valid.exists_first {segment : Segment} (valid : segment.Valid) {statement : Stmt}
    (given : segment.statements = [statement]) :
    ∃ first others, segment.tokens = first :: others ∧ statement.origin = first.origin := by
  cases segment with
  | blank line =>
    cases given
    exact ⟨line, [], rfl, rfl⟩
  | kept tokens kept reports =>
    cases given
    obtain ⟨first, rest, split, -, -, origin, -⟩ := valid
    exact ⟨first, rest, split, origin⟩
  | skipped tokens reports => cases given

theorem comesFrom_of_valid {text file : String} {stretch : List (List Char × Token)} {segment : Segment}
    {statement : Stmt} {lowered : Host.Stmt} (valid : segment.Valid)
    (tokens : segment.tokens = stretch.map Prod.snd) (given : segment.statements = [statement])
    (lowers : statement.lower = .ok lowered)
    (places : ∀ placed ∈ stretch, StandsIn ⟨file, 0⟩ text.toList placed) :
    ComesFrom text file stretch lowered := by
  refine ⟨⟨segment, statement, valid, tokens, given, lowers⟩, ?_⟩
  obtain ⟨first, others, split, origin⟩ := valid.exists_first given
  rw [split] at tokens
  obtain ⟨⟨before, token⟩, rest, rfl, rfl, -⟩ := List.map_eq_cons_iff.mp tokens.symm
  have stands := places (before, token) (.head _)
  refine ⟨before, token, rest, rfl, stands.spelled, ?_⟩
  obtain ⟨action, -, same⟩ := bind_eq_ok.mp lowers
  rw [← Except.ok.inj same]
  exact congrArg some (origin.trans stands.origin_eq)

theorem forall₂_comesFrom {text file : String} {segments : List Segment}
    {stretches : List (List (List Char × Token))} {body : List Host.Stmt}
    (valid : ∀ segment ∈ segments, segment.Valid)
    (single : ∀ segment ∈ segments, ∃ statement, segment.statements = [statement])
    (tokens : stretches.map (List.map Prod.snd) = segments.map Segment.tokens)
    (places : ∀ placed ∈ stretches.flatten, StandsIn ⟨file, 0⟩ text.toList placed)
    (lowers : Lowers (segments.flatMap Segment.statements) body) :
    List.Forall₂ (ComesFrom text file) stretches body := by
  induction segments generalizing stretches body with
  | nil =>
    obtain rfl := List.map_eq_nil_iff.mp tokens
    cases lowers
    exact .nil
  | cons segment segments inductionHypothesis =>
    obtain ⟨stretch, rest, rfl, here, later⟩ := List.map_eq_cons_iff.mp tokens
    obtain ⟨statement, given⟩ := single segment (.head _)
    rw [List.flatMap_cons, given] at lowers
    rw [List.flatten_cons, List.forall_mem_append] at places
    cases lowers with
    | cons lowered others =>
      apply List.Forall₂.cons
      · exact comesFrom_of_valid (valid segment (.head _)) here.symm given lowered places.1
      · exact inductionHypothesis (fun other member => valid other (.tail _ member))
          (fun other member => single other (.tail _ member)) later places.2 others

theorem exists_stretches {text file : String} {program : Host.Program}
    (emitted : emit text file = .ok program) :
    ∃ stretches, stretches.flatten = placedTokens ⟨file, 0⟩ text ∧
      List.Forall₂ (ComesFrom text file) stretches program.entry.body := by
  obtain ⟨accepted, lowered⟩ := emit_eq_ok emitted
  have nonempty : (scan ⟨file, 0⟩ text).tokens ≠ [] := by simp [scan]
  obtain ⟨segments, cut⟩ := parse_isCut nonempty
  rw [accepted, beforeFinish_scan] at cut
  obtain ⟨stretches, joined, tokens⟩ := exists_cut_of_map cut.tokens_eq
  refine ⟨stretches, joined, forall₂_comesFrom cut.valid (single_of_accepted cut) tokens ?_ ?_⟩
  · rw [joined]
    exact placedTokens_place ⟨file, 0⟩ text
  · rw [cut.statements_eq]
    exact lowers_of_lower lowered

/-! ## Lines never decrease -/

/-- The line on which a stretch begins. -/
def firstLine (stretch : List (List Char × Token)) : Nat :=
  1 + (stretch.head?.map Prod.fst).elim 0 (List.count '\n')

theorem origins_eq {text file : String} {stretches : List (List (List Char × Token))} {body : List Host.Stmt}
    (comes : List.Forall₂ (ComesFrom text file) stretches body) :
    body.map Host.Stmt.origin = (stretches.map firstLine).map fun line => some ⟨file, line⟩ := by
  induction comes with
  | nil => rfl
  | cons here _ inductionHypothesis =>
    obtain ⟨before, first, others, rfl, -, origin⟩ := here.origin_eq
    rw [List.map_cons, List.map_cons, List.map_cons, inductionHypothesis, origin]
    rfl

theorem firstLine_ordered {text file : String} {stretches : List (List (List Char × Token))}
    {body : List Host.Stmt} (comes : List.Forall₂ (ComesFrom text file) stretches body)
    (forward : stretches.flatten.Pairwise fun earlier later => earlier.1 <+: later.1) :
    (stretches.map firstLine).Pairwise (· ≤ ·) := by
  rw [List.pairwise_map]
  refine (List.pairwise_flatten.mp forward).2.imp_of_mem ?_
  intro earlier later earlierMember laterMember forward
  obtain ⟨lowered, -, comesEarlier⟩ := exists_related comes earlierMember
  obtain ⟨loweredLater, -, comesLater⟩ := exists_related comes laterMember
  obtain ⟨before, first, others, rfl, -⟩ := comesEarlier.origin_eq
  obtain ⟨beforeLater, firstLater, othersLater, rfl, -⟩ := comesLater.origin_eq
  have prefixed := forward (before, first) (.head _) (beforeLater, firstLater) (.head _)
  exact Nat.add_le_add_left (prefixed.sublist.count_le '\n') 1

/-- Every statement of the program of an accepted script is shown on one line of the text, six lines below its
    number, and names the line of the script on which its first token begins. -/
theorem emit_lineMap {text file : String} {program : Host.Program} (emitted : emit text file = .ok program) :
    LineMap text file program where
  lines := by
    refine ⟨program.entry.body.map fun statement => statement.line.toList, ?_, ?_⟩
    · rw [List.forall₂_map_right_iff, List.forall₂_same]
      intro statement _
      exact shownAs_line statement
    · rw [lines_render emitted]
      simp [Function.comp_def]
  unbroken := by
    intro line member
    rw [lines_render emitted, ← emit_lines emitted] at member
    cases List.mem_append.mp member with
    | inl inside =>
      obtain ⟨written, found, rfl⟩ := List.mem_map.mp inside
      exact emit_oneLine emitted written found
    | inr last => simp [List.mem_singleton.mp last]
  scanned := ⟨_, scan_eq_placedTokens ⟨file, 0⟩ text⟩
  stretches := exists_stretches emitted
  ordered := by
    obtain ⟨stretches, joined, comes⟩ := exists_stretches emitted
    refine ⟨stretches.map firstLine, origins_eq comes, firstLine_ordered comes ?_⟩
    rw [joined]
    exact placedAfter_forward ⟨file, 0⟩ [] (pieces text.toList)

/-- A string that goes over two lines, an empty line, and a statement that begins after another on its line. -/
theorem emit_lineMap_sample :
    ∃ program, emit "string s = \"a\nb\";\n\nprint s; print\ns;" "script" = .ok program ∧
      LineMap "string s = \"a\nb\";\n\nprint s; print\ns;" "script" program := by
  have accepted : (emit "string s = \"a\nb\";\n\nprint s; print\ns;" "script").isOk = true := by decide +kernel
  obtain ⟨program, emitted⟩ := exists_eq_ok accepted
  exact ⟨program, emitted, emit_lineMap emitted⟩

end ScriptFrontend
