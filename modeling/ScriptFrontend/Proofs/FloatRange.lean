import ScriptFrontend.Proofs.FaultPlaces
import ScriptFrontend.Proofs.RoundTrip
import ScriptFrontend.Proofs.Rounding
import ScriptFrontend.Proofs.ScriptedPrograms
import ScriptFrontend.Proofs.WellScoped

/-! # The range of numbers

A number without a point is refused if it is too large for a signed word.  A number with a point is never refused:
one that is too large for binary64 is read as infinity, without a fault, and written into the program as the bare
word `inf` (`scan_number_ranges`).  How large that is does not depend on the number of its digits: `InRange` compares
the digits with the least number that rounds to infinity.

Every float constant of a program comes from such a number of its script (`emit_float`), and none is a NaN.
-/

namespace ScriptFrontend

open Grammar

/-! ## Numbers with a point -/

/-- Whether a number with these digits before and after its point rounds to a finite one. -/
def InRange (whole fraction : List Char) : Prop :=
  Text.digitsValue (whole ++ fraction) < Binary64.overflow * Nat.pow 10 fraction.length

instance (whole fraction : List Char) : Decidable (InRange whole fraction) := Nat.decLt _ _

/-- What it means that a number was read from digits before and after a point. -/
structure Binary64.ReadFrom (whole fraction : List Char) (x : Binary64) : Prop where
  nearest : x = .ofMagnitude (ofRatio (Text.digitsValue (whole ++ fraction)) (Nat.pow 10 fraction.length))
  unsigned : x.negative = false
  notNaN : x.isNaN = false
  isFinite_iff : x.isFinite = true ↔ InRange whole fraction

theorem Binary64.magnitude_ofMagnitude {m : Nat} (bounded : m < signWeight) : (ofMagnitude m).magnitude = m := by
  have word : signWeight < 2 ^ 64 := by decide
  simp only [magnitude, ofMagnitude, UInt64.toNat_ofNat']
  rw [Nat.mod_eq_of_lt (Nat.lt_trans bounded word), Nat.mod_eq_of_lt bounded]

theorem Binary64.magnitude_ofRatio (n d : Nat) : (ofMagnitude (ofRatio n d)).magnitude = ofRatio n d := by
  have small : infinity < signWeight := by decide
  exact magnitude_ofMagnitude (Nat.lt_of_le_of_lt (Nat.min_le_right _ _) small)

theorem Binary64.readFrom (whole fraction : List Char) :
    ReadFrom whole fraction (.ofMagnitude
      (ofRatio (Text.digitsValue (whole ++ fraction)) (Nat.pow 10 fraction.length))) := by
  have tens : 0 < Nat.pow 10 fraction.length := Nat.pow_pos (by decide)
  obtain ⟨unsigned, bounded⟩ :=
    unsigned_ofRatio (Text.digitsValue (whole ++ fraction)) (Nat.pow 10 fraction.length)
  refine ⟨rfl, unsigned, ?_, ?_⟩
  · simp only [isNaN, decide_eq_false_iff_not]
    omega
  · simp only [isFinite, decide_eq_true_eq, magnitude_ofRatio, InRange]
    have threshold := ofRatio_eq_infinity_iff (n := Text.digitsValue (whole ++ fraction)) tens
    rw [magnitude_ofRatio] at bounded
    omega

theorem Binary64.ReadFrom.isUnsigned {whole fraction : List Char} {x : Binary64} (read : x.ReadFrom whole fraction) :
    (Host.Constant.float x).Unsigned := by
  refine ⟨read.unsigned, ?_⟩
  have notNaN := read.notNaN
  simp only [isNaN, decide_eq_false_iff_not] at notNaN
  omega

/-- The text of a finite number without a sign begins with a digit, so it is no word. -/
theorem not_word_of_finite {x : Binary64} (finite : x.isFinite = true) (unsigned : x.negative = false) :
    x.render Host.numbers ≠ "inf" ∧ x.render Host.numbers ≠ "NaN" := by
  obtain ⟨text, rendered, ⟨digit, others, spelled, isDigit⟩, -⟩ := Host.render_finite finite
  rw [unsigned, spelled] at rendered
  constructor
  all_goals
    intro word
    rw [word] at rendered
    cases rendered
    contradiction

/-! ## Constants come from tokens -/

namespace Host

def Expr.float? : Expr → Option Binary64
  | .literal (.float x) => some x
  | _ => none

/-- The float constants of a program, in order. -/
def Program.floats (program : Program) : List Binary64 :=
  program.entry.body.flatMap fun statement => statement.action.parts.filterMap Expr.float?

theorem exists_of_mem_floats {program : Program} {x : Binary64} (inside : x ∈ program.floats) :
    ∃ statement ∈ program.entry.body, .literal (.float x) ∈ statement.action.parts := by
  obtain ⟨statement, member, there⟩ := List.mem_flatMap.mp inside
  obtain ⟨part, isPart, found⟩ := List.mem_filterMap.mp there
  refine ⟨statement, member, ?_⟩
  unfold Expr.float? at found
  split at found
  · cases found
    exact isPart
  · cases found

end Host

theorem LowersExpr.exists_literal {value : Expr} {lowered : Host.Expr} (lowers : LowersExpr value lowered)
    {constant : Host.Constant} (inside : .literal constant ∈ lowered.parts) :
    ∃ written, .literal written ∈ value.parts ∧ written.lower = constant := by
  obtain ⟨original, there, found⟩ := lowers.exists_part inside
  cases found with
  | literal => exact ⟨_, there, rfl⟩

theorem LowersAction.exists_literal {action : Action} {lowered : Host.Action} (lowers : LowersAction action lowered)
    {constant : Host.Constant} (inside : .literal constant ∈ lowered.parts) :
    ∃ written, .literal written ∈ action.parts ∧ written.lower = constant := by
  cases lowers with
  | expression value | initialized _ value => exact value.exists_literal inside
  | print value | assign value =>
    apply value.exists_literal
    simpa [Host.Action.parts, Host.Expr.parts, Host.argumentParts] using inside
  | declare _ | blankLine => contradiction

theorem Grammar.Derives.exists_literal {tier : Nat} {tokens : List Token} {value : Value}
    (derived : Derives tier tokens (.literal value)) : ∃ token ∈ tokens, token.kind = literalKind value := by
  generalize same : Expr.literal value = literal at derived
  induction derived with
  | tighter _ inductionHypothesis => exact inductionHypothesis same
  | literal kind =>
    cases same
    exact ⟨_, .head _, kind⟩
  | binary | unary | name | grouping => cases same

/-- A constant of a program is the value of a token of its script. -/
theorem emit_literal {text file : String} {program : Host.Program} (emitted : emit text file = .ok program)
    {statement : Host.Stmt} (member : statement ∈ program.entry.body) {constant : Host.Constant}
    (inside : .literal constant ∈ statement.action.parts) :
    ∃ token ∈ (scan ⟨file, 0⟩ text).tokens, ∃ value, token.kind = literalKind value ∧ value.lower = constant := by
  obtain ⟨original, parsed, given⟩ := exists_related (lowers_of_lower (emit_eq_ok emitted).2).flip member
  obtain ⟨written, there, lowers⟩ := (Stmt.lowersAction given).exists_literal inside
  cases spells_of_mem_parse (by simp [scan]) parsed with
  | inl blank => simp [blank, Action.parts] at there
  | inr found =>
    obtain ⟨spelling, within, spelled⟩ := found
    obtain ⟨partTokens, withinSpelling, derived⟩ := spelled.part there
    obtain ⟨token, isPart, kind⟩ := derived.exists_literal
    exact ⟨token, within token (withinSpelling token isPart), written, kind, lowers⟩

/-! ## Scanned numbers -/

/-- A segment that gives a token is scanned as that token. -/
theorem exists_scanned {text : String} {start : Nat} {piece : Piece} {kind : TokenKind}
    {faults : List (LexicalFault × Nat)} (here : SegmentAt text.toList start piece)
    (given : piece.Gives (text.toList.take start) (some kind) faults) (source : Source) :
    ∃ token ∈ (scan source text).tokens, BeginsAt text.toList token start ∧ token.kind = kind := by
  obtain ⟨before, after, cut, rfl⟩ := here
  rw [cut.take_joined] at given
  let position := Position.start.advance (before.flatMap Piece.text)
  let token : Token := ⟨kind, Symbol.of source.table (String.ofList piece.text), source.file, position.line⟩
  have found : piece.token? source position = some token := by
    rw [Piece.token?, ← given.eq.1]
    rfl
  have member : (before.flatMap Piece.text, token) ∈ placedTokens source text :=
    mem_placedAfter.mpr ⟨before, piece, after, cut.eq_pieces.symm, rfl, found⟩
  refine ⟨token, ?_, beginsAt_of_mem member, rfl⟩
  rw [scan_eq_placedTokens]
  exact List.mem_append_left _ (List.mem_map.mpr ⟨_, member, rfl⟩)

theorem exists_digits_of_kind? {position : Position} {piece : Piece} {x : Binary64}
    (found : piece.kind? position = some (.float x)) :
    ∃ whole fraction, piece = .float whole fraction ∧ x.ReadFrom whole fraction := by
  cases piece with
  | float whole fraction =>
    cases found
    exact ⟨whole, fraction, rfl, Binary64.readFrom whole fraction⟩
  | lineFeed | integer _ | word _ =>
    simp only [Piece.kind?] at found
    split at found <;> cases found
  | mark _ | string _ | blank _ | comment _ | unterminated _ | unexpected _ => cases found

/-- A float token was read from a number with a point. -/
theorem exists_segment_of_float {source : Source} {text : String} {token : Token} {x : Binary64}
    (member : token ∈ (scan source text).tokens) (kind : token.kind = .float x) :
    ∃ start whole fraction, SegmentAt text.toList start (.float whole fraction) ∧
      BeginsAt text.toList token start ∧ x.ReadFrom whole fraction := by
  have placement := scan_placement source text
  obtain ⟨start, here⟩ := placement.exists_start member
  have begins := placement.beginsAt here
  have again := begins
  cases again with
  | finish finishes _ => simp [finishes] at kind
  | @segment _ piece _ there given _ =>
    have classified := given.eq.1
    rw [kind] at classified
    obtain ⟨whole, fraction, rfl, read⟩ := exists_digits_of_kind? classified.symm
    exact ⟨start, whole, fraction, there, begins, read⟩

/-- Nothing in a number with a point is at fault. -/
theorem OffendsAt.outside_float {text : List Char} {fault : LexicalFault} {place start : Nat}
    {whole fraction : List Char} (offends : OffendsAt text fault place)
    (here : SegmentAt text start (.float whole fraction)) :
    place < start ∨ start + (Piece.float whole fraction).text.length ≤ place := by
  by_contra inside
  have low : start ≤ place := by omega
  have high : place < start + (Piece.float whole fraction).text.length := by omega
  cases offends with
  | unexpected there =>
    have same := here.unique there low high (Nat.le_refl _) (by simp [Piece.text])
    contradiction
  | outOfRange there large =>
    have some := List.length_pos_iff.mpr there.form.text_ne_nil
    have same := here.unique there low high (Nat.le_refl _) (by omega)
    contradiction
  | unknownEscape there quotes enclosed noMeaning =>
    rcases quotes with rfl | rfl
    all_goals
      have same := here.unique there low high (by omega) (by simp [Piece.text]; omega)
      contradiction
  | unterminated _ =>
    obtain ⟨before, after, rfl, rfl⟩ := here.split
    simp only [List.length_append] at high
    omega

/-- A whole number that is too large is reported, and is no token. -/
theorem refused_of_large {text : String} {start : Nat} {digits : List Char}
    (here : SegmentAt text.toList start (.integer digits))
    (large : ¬ Text.digitsValue digits ≤ Nat.pow 2 63 - 1) (source : Source) :
    (∃ error ∈ (scan source text).errors, error.fault = .integerOutOfRange digits) ∧
      ∀ token, ¬ BeginsAt text.toList token start := by
  have inside := List.length_pos_iff.mpr here.form.text_ne_nil
  constructor
  · obtain ⟨before, member, -⟩ := offendsAt_iff.mp (.outOfRange here large)
    rw [scan_errors_eq]
    exact ⟨_, List.mem_map.mpr ⟨_, member, rfl⟩, rfl⟩
  · intro token begins
    cases begins with
    | finish _ _ =>
      obtain ⟨before, after, split, length⟩ := here.split
      rw [split] at length
      simp only [List.length_append] at length
      omega
    | segment there given _ =>
      have some := List.length_pos_iff.mpr there.form.text_ne_nil
      obtain rfl := here.unique there (Nat.le_refl _) (by omega) (Nat.le_refl _) (by omega)
      generalize token.kind = kind at given
      cases given
      contradiction

/-! ## Main result -/

/-- What a scan makes of the numbers of a text. -/
structure NumbersRead (source : Source) (text : String) : Prop where
  -- A whole number is a token if it fits a signed word; if not, it is reported and there is no token.
  whole_kept : ∀ start digits, SegmentAt text.toList start (.integer digits) →
    Text.digitsValue digits ≤ Nat.pow 2 63 - 1 →
    ∃ token ∈ (scan source text).tokens, BeginsAt text.toList token start ∧
      token.kind = .integer (Text.digitsValue digits)
  whole_refused : ∀ start digits, SegmentAt text.toList start (.integer digits) →
    ¬ Text.digitsValue digits ≤ Nat.pow 2 63 - 1 →
    (∃ error ∈ (scan source text).errors, error.fault = .integerOutOfRange digits) ∧
      ∀ token, ¬ BeginsAt text.toList token start
  -- A number with a point is a token in any case, and nothing in it is reported.
  pointed_kept : ∀ start whole fraction, SegmentAt text.toList start (.float whole fraction) →
    (∃ token ∈ (scan source text).tokens, BeginsAt text.toList token start ∧
      ∃ x, token.kind = .float x ∧ x.ReadFrom whole fraction) ∧
    ∀ fault place, OffendsAt text.toList fault place →
      place < start ∨ start + (whole ++ '.' :: fraction).length ≤ place
  float_pointed : ∀ token ∈ (scan source text).tokens, ∀ x, token.kind = .float x →
    ∃ start whole fraction, SegmentAt text.toList start (.float whole fraction) ∧
      BeginsAt text.toList token start ∧ x.ReadFrom whole fraction

theorem scan_numbersRead (source : Source) (text : String) : NumbersRead source text where
  whole_kept := by
    intro start digits here small
    exact exists_scanned here (.integer small) source
  whole_refused := by
    intro start digits here large
    exact refused_of_large here large source
  pointed_kept := by
    intro start whole fraction here
    obtain ⟨token, member, begins, kind⟩ := exists_scanned here (.float whole fraction) source
    refine ⟨⟨token, member, begins, _, kind, Binary64.readFrom whole fraction⟩, ?_⟩
    intro fault place offends
    exact offends.outside_float here
  float_pointed := by
    intro token member x kind
    exact exists_segment_of_float member kind

/-- A float constant of a program was read from a number of its script. -/
theorem emit_float {text file : String} {program : Host.Program} (emitted : emit text file = .ok program)
    {x : Binary64} (inside : x ∈ program.floats) :
    ∃ start whole fraction, SegmentAt text.toList start (.float whole fraction) ∧ x.ReadFrom whole fraction := by
  obtain ⟨statement, member, part⟩ := Host.exists_of_mem_floats inside
  obtain ⟨token, scanned, value, kind, lowers⟩ := emit_literal emitted member part
  cases value with
  | double y =>
    cases lowers
    obtain ⟨start, whole, fraction, here, -, read⟩ := exists_segment_of_float scanned kind
    exact ⟨start, whole, fraction, here, read⟩
  | nil | int _ | string _ | bool _ => cases lowers

theorem Binary64.ReadFrom.render_eq_inf_iff {whole fraction : List Char} {x : Binary64}
    (read : x.ReadFrom whole fraction) : x.render Host.numbers = "inf" ↔ ¬ InRange whole fraction := by
  rw [← read.isFinite_iff]
  constructor
  · intro rendered finite
    exact (not_word_of_finite finite read.unsigned).1 rendered
  · intro notFinite
    exact Host.render_infinite read.isUnsigned (Bool.eq_false_iff.mpr notFinite)

theorem Binary64.ReadFrom.render_ne_NaN {whole fraction : List Char} {x : Binary64}
    (read : x.ReadFrom whole fraction) : x.render Host.numbers ≠ "NaN" := by
  cases finite : x.isFinite with
  | true => exact (not_word_of_finite finite read.unsigned).2
  | false =>
    rw [Host.render_infinite read.isUnsigned finite]
    decide

/-- Whole numbers beyond a signed word are reported and are no tokens.  Numbers with a point are always tokens: they
    are finite if their digits are in range, and infinite without a report if they are not.  So a float constant of
    a program is written `inf` exactly if its number in the script is out of range, and none is written `NaN`. -/
theorem scan_number_ranges (source : Source) (text : String) :
    NumbersRead source text ∧
      ∀ file program, emit text file = .ok program → ∀ x ∈ program.floats,
        ∃ start whole fraction, SegmentAt text.toList start (.float whole fraction) ∧ x.ReadFrom whole fraction ∧
          ((Host.Constant.float x).render = "inf" ↔ ¬ InRange whole fraction) ∧
          (Host.Constant.float x).render ≠ "NaN" := by
  refine ⟨scan_numbersRead source text, ?_⟩
  intro file program emitted x inside
  obtain ⟨start, whole, fraction, here, read⟩ := emit_float emitted inside
  exact ⟨start, whole, fraction, here, read, read.render_eq_inf_iff, read.render_ne_NaN⟩

/-- A one with 309 zeros is beyond the range, and it is accepted if it has a point. -/
theorem oversized_float_accepted :
    let script := String.ofList ("print 1".toList ++ (List.replicate 309 '0' ++ ".0;".toList))
    let infinite : Binary64 := ⟨0x7FF0000000000000⟩
    (scan ⟨"script", 0⟩ script).errors = [] ∧
      (scan ⟨"script", 0⟩ script).tokens.map Token.kind =
        [.keyword .kwPrint, .float infinite, .mark .semicolon, .finish] ∧
      infinite.isFinite = false ∧
      ∃ program, emit script "script" = .ok program ∧
        program.entry.body.map (·.action.render) = ["Console.WriteLine(inf);"] := by
  intro script infinite
  have accepted : ∃ program ∈ (emit script "script").toOption,
      program.entry.body.map (·.action.render) = ["Console.WriteLine(inf);"] := by
    simp only [script, emit, frontEnd, scan, String.toList_ofList]
    decide +kernel
  obtain ⟨program, member, rendered⟩ := accepted
  simp only [script, scan, String.toList_ofList]
  refine ⟨by decide +kernel, by decide +kernel, by decide, program, ?_, rendered⟩
  exact eq_ok_of_mem_toOption member

end ScriptFrontend
