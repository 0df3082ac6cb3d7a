import ScriptFrontend.Proofs.ParserSoundness

/-! # Blank lines carry no meaning

A blank line changes nothing that the parser remembers.  Between statements it becomes a statement of
its own, and anywhere else it leaves no trace (`step_blankLine`); no other token ever gives a blank line
(`takeToken_writtenOnly`).  So a run over tokens and the run over the `significant` ones among them go
through the same states and report the same, and their statements differ by the blank lines only
(`run_significant`).

`terminated` looks at the last token, which becomes the end mark if there is none.  That token must be
significant, or the two lists would be ended at different places.
-/

namespace ScriptFrontend

/-! ## Statements without the blank lines -/

def Stmt.IsWritten (statement : Stmt) : Prop := statement.action ≠ .blankLine

instance (statement : Stmt) : Decidable statement.IsWritten :=
  inferInstanceAs (Decidable (statement.action ≠ .blankLine))

/-- The statements that are more than a blank line. -/
def written (statements : List Stmt) : List Stmt := statements.filter fun statement => statement.IsWritten

@[simp] theorem written_append (first second : List Stmt) :
    written (first ++ second) = written first ++ written second :=
  List.filter_append first second

/-- Outcomes that complete no blank line. -/
def WrittenOnly (outcome : ParserOutcome) : Prop := ∀ statement ∈ outcome.statements, statement.IsWritten

theorem WrittenOnly.written_eq {outcome : ParserOutcome} (only : WrittenOnly outcome) :
    written outcome.statements = outcome.statements := by
  apply List.filter_eq_self.mpr
  intro statement member
  exact decide_eq_true (only statement member)

/-! ## What a token completes -/

theorem writtenOnly_nil {state : ParserState} {reports : List Report} : WrittenOnly ⟨state, [], reports⟩ := by
  intro statement member
  cases member

theorem writtenOnly_singleton {state : ParserState} {statement : Stmt} {reports : List Report}
    (isWritten : statement.IsWritten) : WrittenOnly ⟨state, [statement], reports⟩ := by
  intro other member
  rw [List.mem_singleton.mp member]
  exact isWritten

theorem declare_writtenOnly (scope : Scope) (origin : Origin) (ty : Ty) (name : Token)
    (initial : Option Expr) : WrittenOnly (Parser.declare scope origin ty name initial) :=
  writtenOnly_singleton (by simp [Stmt.IsWritten])

theorem complete_writtenOnly (scope : Scope) (origin : Origin) (goal : Goal) (value : Expr) :
    WrittenOnly (Parser.complete scope origin goal value) := by
  cases goal with
  | declare ty name => exact declare_writtenOnly scope origin ty name (some value)
  | expression | print | assign _ => exact writtenOnly_singleton (by simp [Stmt.IsWritten])

theorem takeOperand_writtenOnly (scope : Scope) (origin : Origin) (goal : Goal) (frames : List Frame)
    (token : Token) : WrittenOnly (Parser.takeOperand scope origin goal frames token) := by
  unfold Parser.takeOperand
  split
  · exact writtenOnly_nil
  · split <;> exact writtenOnly_nil

theorem takeOperator_writtenOnly (scope : Scope) (origin : Origin) (goal : Goal) (frames : List Frame)
    (operand : Expr) (token : Token) :
    WrittenOnly (Parser.takeOperator scope origin goal frames operand token) := by
  unfold Parser.takeOperator
  split
  · exact writtenOnly_nil
  · split
    · split <;> exact writtenOnly_nil
    · split
      · exact complete_writtenOnly scope origin goal _
      · exact writtenOnly_nil

theorem begin_writtenOnly (scope : Scope) (token : Token) : WrittenOnly (Parser.begin scope token) := by
  unfold Parser.begin
  split
  case h_8 => exact takeOperand_writtenOnly scope token.origin .expression [] token
  all_goals exact writtenOnly_nil

/-- No token but a blank line completes a blank line. -/
theorem takeToken_writtenOnly (state : ParserState) (token : Token) :
    WrittenOnly (Parser.takeToken state token) := by
  obtain ⟨mode, scope⟩ := state
  cases mode with
  | start => exact begin_writtenOnly scope token
  | typed origin ty =>
    simp only [Parser.takeToken, Parser.takeName]
    split <;> exact writtenOnly_nil
  | named origin ty name =>
    simp only [Parser.takeToken, Parser.takeInitial]
    split
    · exact writtenOnly_nil
    · exact declare_writtenOnly scope origin ty name none
    · exact writtenOnly_nil
  | leading name =>
    simp only [Parser.takeToken, Parser.takeLeading]
    split
    · exact writtenOnly_nil
    · exact takeOperator_writtenOnly scope name.origin .expression [] (.variable name) token
  | operand origin goal frames => exact takeOperand_writtenOnly scope origin goal frames token
  | operator origin goal frames operand => exact takeOperator_writtenOnly scope origin goal frames operand token
  | stray => exact writtenOnly_nil
  | skipping =>
    simp only [Parser.takeToken, Parser.skip]
    split
    · split
      · exact begin_writtenOnly scope token
      · exact writtenOnly_nil
    · exact writtenOnly_nil

/-! ## Runs -/

/-- A blank line changes no state and is never reported; what it completes is a blank line at most. -/
theorem step_blankLine (state : ParserState) {token : Token} (blank : token.kind = .blankLine) :
    (Parser.step state token).state = state ∧ (Parser.step state token).reports = [] ∧
      written (Parser.step state token).statements = [] := by
  obtain ⟨mode, scope⟩ := state
  simp only [Parser.step, blank, if_true]
  cases mode <;> exact ⟨rfl, rfl, rfl⟩

theorem step_written (state : ParserState) {token : Token} (notBlank : token.kind ≠ .blankLine) :
    written (Parser.step state token).statements = (Parser.step state token).statements := by
  simp only [Parser.step, notBlank, if_false]
  exact (takeToken_writtenOnly state token).written_eq

/-- A run over the significant tokens is the run over all of them without its blank lines. -/
theorem run_significant (state : ParserState) (tokens : List Token) :
    Parser.run state (significant tokens) =
      { Parser.run state tokens with statements := written (Parser.run state tokens).statements } := by
  induction tokens generalizing state with
  | nil => rfl
  | cons token rest inductionHypothesis =>
    by_cases blank : token.kind = .blankLine
    · obtain ⟨stays, silent, none⟩ := step_blankLine state blank
      have dropped : significant (token :: rest) = significant rest := by simp [significant, blank]
      simp only [dropped, inductionHypothesis, Parser.run, stays, silent, written_append, none, List.nil_append]
    · have kept : significant (token :: rest) = token :: significant rest := by simp [significant, blank]
      simp only [kept, Parser.run, inductionHypothesis, written_append, step_written state blank]

/-! ## The end mark -/

theorem getLast?_significant {tokens : List Token} {last : Token} (ends : tokens.getLast? = some last)
    (notBlank : last.kind ≠ .blankLine) : (significant tokens).getLast? = some last := by
  obtain ⟨front, rfl⟩ := List.getLast?_eq_some_iff.mp ends
  rw [significant_append_token notBlank, List.getLast?_concat]

theorem find?_finish_significant (tokens : List Token) :
    (significant tokens).find? (fun token => token.kind = .finish) =
      tokens.find? (fun token => token.kind = .finish) := by
  rw [significant, List.find?_filter]
  congr 1
  funext token
  by_cases finishes : token.kind = .finish <;> simp [finishes]

theorem beforeFinish_significant (tokens : List Token) :
    beforeFinish (significant tokens) = significant (beforeFinish tokens) := by
  induction tokens with
  | nil => rfl
  | cons token rest inductionHypothesis =>
    simp only [beforeFinish, significant] at inductionHypothesis ⊢
    by_cases blank : token.kind = .blankLine
    · simpa [blank] using inductionHypothesis
    · by_cases finishes : token.kind = .finish
      · simp [finishes]
      · simpa [blank, finishes] using inductionHypothesis

/-- Whether blank lines are taken out before or after the tokens are ended makes no difference, if the
    last token is significant. -/
theorem terminated_significant {tokens : List Token} {last : Token} (ends : tokens.getLast? = some last)
    (notBlank : last.kind ≠ .blankLine) : terminated (significant tokens) = significant (terminated tokens) := by
  have before := beforeFinish_significant tokens
  simp only [beforeFinish] at before
  simp only [terminated, getLast?_significant ends notBlank, ends, find?_finish_significant, before]
  -- The end mark itself is significant, whether it was found or made from the last token.
  refine (significant_append_token ?_ _).symm
  cases found : tokens.find? (fun token => token.kind = .finish) with
  | none => simp
  | some stop =>
    have finishes : stop.kind = .finish := by simpa using List.find?_some found
    simp [finishes]

/-- Taking all blank lines out of tokens takes the blank lines out of the statements, and changes nothing
    else: neither the other statements nor a single report. -/
theorem parse_significant {tokens : List Token} {last : Token} (ends : tokens.getLast? = some last)
    (notBlank : last.kind ≠ .blankLine) :
    parse (significant tokens) = ⟨written (parse tokens).statements, (parse tokens).reports⟩ := by
  simp only [parse, parseWith, terminated_significant ends notBlank, run_significant]

/-- Blank lines between statements, before the `=` of an assignment, inside an expression, and in tokens
    that are skipped: `x⏎ = 1 +⏎ y;⏎ ) ⏎ 2; int x;`. -/
theorem parse_significant_sample :
    let token (kind : TokenKind) (text : String) : Token := ⟨kind, Symbol.of 1 text, "script", 1⟩
    let line := token .blankLine "\n"
    let semicolon := token (.mark .semicolon) ";"
    let x := token (.identifier "x") "x"
    let tokens := [line, x, line, token (.mark .equal) "=", token (.integer 1) "1", token (.mark .plus) "+",
      line, token (.identifier "y") "y", semicolon, line, token (.mark .closeParen) ")", line,
      token (.integer 2) "2", semicolon, token (.keyword .kwInt) "int", x, semicolon]
    tokens.getLast? = some semicolon ∧ semicolon.kind ≠ .blankLine ∧
      (parse tokens).statements.length = 4 ∧ (parse tokens).reports.length = 3 ∧
      parse (significant tokens) = ⟨written (parse tokens).statements, (parse tokens).reports⟩ := by
  intro token line semicolon x tokens
  have ends : tokens.getLast? = some semicolon := rfl
  have notBlank : semicolon.kind ≠ .blankLine := by decide
  exact ⟨ends, notBlank, by decide +kernel, by decide +kernel, parse_significant ends notBlank⟩

end ScriptFrontend
