import ScriptFrontend.Proofs.ParserSoundness

/-! # Where parsing goes on after a fault

A statement that fails to parse costs the tokens up to the next `boundary`: just past a semicolon, or at a
keyword that begins a statement, or at the end mark.  What comes then is parsed as if nothing had happened,
with the variables that were declared before.

The search for the boundary does not begin where one would expect it, at the token that does not fit.  That
token is dropped unseen, and after a stray parenthesis the next one is.  If a keyword is lost in this way,
`Failure.Swallows`, its statement is lost with it; otherwise parsing goes on where it should.

* `Failure` — a place where a statement fails to parse.
* `Faults` — what the step that reports it leads to, the same for every routine of the parser.
* `completed_skipping` and `completed_stray` — the run after that step is a run from the boundary.
-/

namespace ScriptFrontend

/-! ## Boundaries -/

/-- Whether a token is a keyword that begins a statement. -/
def Token.opensStatement (token : Token) : Bool :=
  match token.kind with
  | .keyword keyword => keyword.beginsStatement
  | _ => false

/-- What is left at the first place where a statement may begin. -/
def boundary : List Token → List Token
  | [] => []
  | token :: rest =>
    if token.kind = .mark .semicolon then rest
    else if token.opensStatement ∨ token.kind = .finish then token :: rest
    else boundary rest

/-- What is left at the first boundary, when the first token is passed over as no boundary to stop before. -/
def pastFirst : List Token → List Token
  | [] => []
  | token :: rest => if token.kind = .mark .semicolon then rest else boundary rest

def pastBlankLines (tokens : List Token) : List Token :=
  tokens.dropWhile fun token => token.kind = .blankLine

/-- Tokens among which an end mark can only be the last. -/
def EndsOnce (tokens : List Token) : Prop := ∀ token ∈ tokens.dropLast, token.kind ≠ .finish

theorem EndsOnce.append_right {front rest : List Token} (once : EndsOnce (front ++ rest)) : EndsOnce rest := by
  intro token member
  cases rest with
  | nil => cases member
  | cons first rest =>
    apply once
    rw [List.dropLast_append_of_ne_nil (List.cons_ne_nil first rest)]
    exact List.mem_append_right front member

theorem EndsOnce.tail {token : Token} {rest : List Token} (once : EndsOnce (token :: rest)) : EndsOnce rest := by
  rw [← List.singleton_append] at once
  exact once.append_right

theorem EndsOnce.nil_of_finish {token : Token} {rest : List Token} (once : EndsOnce (token :: rest))
    (finish : token.kind = .finish) : rest = [] := by
  cases rest with
  | nil => rfl
  | cons next rest => exact absurd finish (once token (by simp))

theorem endsOnce_terminated (tokens : List Token) : EndsOnce (terminated tokens) := by
  by_cases empty : tokens = []
  · subst empty
    intro token member
    cases member
  · obtain ⟨stop, -, ended⟩ := terminated_eq empty
    rw [EndsOnce, ended, List.dropLast_concat]
    exact goesOn_beforeFinish tokens

theorem EndsOnce.pastBlankLines {tokens : List Token} (once : EndsOnce tokens) :
    EndsOnce (pastBlankLines tokens) := by
  rw [← List.takeWhile_append_dropWhile (p := fun token => token.kind = .blankLine) (l := tokens)] at once
  exact once.append_right

/-- Up to the boundary nothing is dropped that begins a statement. -/
theorem exists_dropped (tokens : List Token) :
    ∃ dropped, tokens = dropped ++ boundary tokens ∧ ∀ token ∈ dropped, token.opensStatement = false := by
  induction tokens with
  | nil => exact ⟨[], rfl, by simp⟩
  | cons token rest inductionHypothesis =>
    by_cases semicolon : token.kind = .mark .semicolon
    · refine ⟨[token], by simp [boundary, semicolon], ?_⟩
      simp [Token.opensStatement, semicolon]
    · by_cases stops : token.opensStatement ∨ token.kind = .finish
      · exact ⟨[], by simp [boundary, semicolon, stops], by simp⟩
      · obtain ⟨dropped, split, quiet⟩ := inductionHypothesis
        refine ⟨token :: dropped, ?_, ?_⟩
        · rw [boundary, if_neg semicolon, if_neg stops, List.cons_append, ← split]
        · rw [not_or, Bool.not_eq_true] at stops
          exact List.forall_mem_cons.mpr ⟨stops.1, quiet⟩

theorem exists_dropped_after (token : Token) (rest : List Token) :
    ∃ dropped, rest = dropped ++ pastFirst (token :: rest) ∧
      ∀ other ∈ dropped, other.opensStatement = false := by
  by_cases semicolon : token.kind = .mark .semicolon
  · exact ⟨[], by simp [pastFirst, semicolon], by simp⟩
  · rw [pastFirst, if_neg semicolon]
    exact exists_dropped rest

theorem exists_dropped_pastFirst {tokens : List Token}
    (quiet : ∀ first ∈ tokens.head?, first.opensStatement = false) :
    ∃ dropped, tokens = dropped ++ pastFirst tokens ∧ ∀ token ∈ dropped, token.opensStatement = false := by
  cases tokens with
  | nil => exact ⟨[], rfl, by simp⟩
  | cons first rest =>
    obtain ⟨dropped, split, later⟩ := exists_dropped_after first rest
    refine ⟨first :: dropped, ?_, List.forall_mem_cons.mpr ⟨quiet first rfl, later⟩⟩
    rw [List.cons_append, ← split]

theorem boundary_pastBlankLines (tokens : List Token) : boundary (pastBlankLines tokens) = boundary tokens := by
  induction tokens with
  | nil => rfl
  | cons token rest inductionHypothesis =>
    by_cases blank : token.kind = .blankLine
    · simp only [pastBlankLines] at inductionHypothesis
      simp [pastBlankLines, boundary, blank, Token.opensStatement, inductionHypothesis]
    · simp [pastBlankLines, blank]

/-! ## Failures -/

instance : DecidablePred Mode.IsIdle := fun _ => inferInstanceAs (Decidable (_ ∨ _ ∨ _))

/-- A place where a statement fails to parse: the token that does not fit, between the tokens before it and
    those after it. -/
structure Failure (tokens : List Token) where
  before : List Token
  culprit : Token
  after : List Token
  fault : GrammarFault
  reads : terminated tokens = before ++ culprit :: after
  reported : .grammar fault culprit ∈
    (Parser.step (Parser.run ⟨.start, .empty⟩ before).state culprit).reports

/-- What tokens complete and report. -/
def Parser.completed (state : ParserState) (tokens : List Token) : Parsed :=
  ⟨(run state tokens).statements, (run state tokens).reports⟩

namespace Failure

variable {tokens : List Token} (failure : Failure tokens)

/-- What came of the tokens before. -/
def reached : ParserOutcome := Parser.run ⟨.start, .empty⟩ failure.before

/-- Whether the statement begins with the token that does not fit. -/
def IsFirst : Prop := failure.reached.state.mode.IsIdle

instance : Decidable failure.IsFirst := inferInstanceAs (Decidable (Mode.IsIdle _))

/-- Where parsing should go on: at the first boundary from the token that does not fit, but not before that
    token if the statement that failed begins with it. -/
def due : List Token :=
  if failure.IsFirst then pastFirst (failure.culprit :: failure.after)
  else boundary (failure.culprit :: failure.after)

/-- Where parsing goes on. -/
def resumed : List Token :=
  if failure.fault = .unexpectedCloseParen then pastFirst (pastBlankLines failure.after)
  else pastFirst (failure.culprit :: failure.after)

/-- Whether a keyword that begins another statement is dropped unseen. -/
def Swallows : Prop :=
  (¬ failure.IsFirst ∧ failure.culprit.opensStatement) ∨
    (failure.fault = .unexpectedCloseParen ∧ ∃ next ∈ (pastBlankLines failure.after).head?, next.opensStatement)

/-- What it means that parsing goes on with some tokens: the statement that failed gives nothing but reports,
    and all the rest comes from those tokens. -/
def ResumesAt (rest : List Token) : Prop :=
  let reached := failure.reached
  let now := Parser.step reached.state failure.culprit
  let later := Parser.completed ⟨.start, reached.state.scope⟩ rest
  now.statements = [] ∧
    parse tokens = ⟨reached.statements ++ later.statements, reached.reports ++ (now.reports ++ later.reports)⟩

theorem endsOnce : EndsOnce (failure.culprit :: failure.after) := by
  have whole := endsOnce_terminated tokens
  rw [failure.reads] at whole
  exact whole.append_right

end Failure

/-! ## The step that fails -/

/-- What a token that does not fit leads to.  The scope is as it was. -/
inductive Refusal (scope : Scope) (token : Token) : GrammarFault → ParserOutcome → Prop where
  | dropped {fault : GrammarFault} {reports : List Report} : fault ≠ .unexpectedCloseParen →
      Refusal scope token fault ⟨⟨Parser.afterDropped token, scope⟩, [], reports⟩
  | stray {reports : List Report} : token.kind = .mark .closeParen →
      Refusal scope token .unexpectedCloseParen ⟨⟨.stray, scope⟩, [], reports⟩

/-- What it means that an outcome has no report of a fault but that of the token just taken, and has refused
    the token if there is one. -/
def Faults (scope : Scope) (token : Token) (outcome : ParserOutcome) : Prop :=
  ∀ fault culprit, .grammar fault culprit ∈ outcome.reports → culprit = token ∧ Refusal scope token fault outcome

section

variable {scope : Scope} {token : Token}

theorem faults_of_onlyBinding {outcome : ParserOutcome} (binding : OnlyBinding outcome.reports) :
    Faults scope token outcome := by
  intro fault culprit reported
  exact (binding _ reported).elim

theorem goOn_faults (mode : Mode) : Faults scope token (Parser.goOn scope mode) :=
  faults_of_onlyBinding onlyBinding_nil

theorem Completes.faults {outcome : ParserOutcome} {statement : Stmt} (completes : Completes outcome statement) :
    Faults scope token outcome := by
  obtain ⟨after, reports, rfl, binding⟩ := completes
  exact faults_of_onlyBinding binding

theorem refuse_faults {fault : GrammarFault} (seen : fault ≠ .unexpectedCloseParen) :
    Faults scope token (Parser.refuse scope fault token) := by
  intro other culprit reported
  cases List.mem_singleton.mp reported
  exact ⟨rfl, .dropped seen⟩

/-- Reports about variables may be put before the others. -/
theorem Faults.report {outcome : ParserOutcome} (faults : Faults scope token outcome) {earlier : List Report}
    (binding : OnlyBinding earlier) :
    Faults scope token { outcome with reports := earlier ++ outcome.reports } := by
  intro fault culprit reported
  cases List.mem_append.mp reported with
  | inl before => exact (binding _ before).elim
  | inr here =>
    obtain ⟨same, refusal⟩ := faults fault culprit here
    cases refusal with
    | dropped seen => exact ⟨same, .dropped seen⟩
    | stray kind => exact ⟨same, .stray kind⟩

theorem takeOperand_faults (origin : Origin) (goal : Goal) (frames : List Frame) :
    Faults scope token (Parser.takeOperand scope origin goal frames token) := by
  unfold Parser.takeOperand
  split
  · exact goOn_faults _
  · split
    · exact faults_of_onlyBinding (onlyBinding_checkUse scope token)
    · next kind =>
      intro fault culprit reported
      cases List.mem_singleton.mp reported
      exact ⟨rfl, .stray kind⟩
    · exact goOn_faults _
    · exact goOn_faults _
    · exact goOn_faults _
    · exact refuse_faults (by simp)

theorem takeOperator_faults (origin : Origin) (goal : Goal) (frames : List Frame) (operand : Expr) :
    Faults scope token (Parser.takeOperator scope origin goal frames operand token) := by
  unfold Parser.takeOperator
  split
  · exact goOn_faults _
  · split
    · split
      · exact goOn_faults _
      · exact refuse_faults (by simp)
    · split
      · exact (complete_completes scope origin goal _).faults
      · exact refuse_faults (by simp)

theorem begin_faults : Faults scope token (Parser.begin scope token) := by
  unfold Parser.begin
  split
  case h_8 => exact takeOperand_faults token.origin .expression []
  all_goals exact goOn_faults _

theorem takeToken_faults (mode : Mode) : Faults scope token (Parser.takeToken ⟨mode, scope⟩ token) := by
  cases mode with
  | start => exact begin_faults
  | typed origin ty =>
    simp only [Parser.takeToken, Parser.takeName]
    split
    · exact goOn_faults _
    · exact refuse_faults (by simp)
  | named origin ty name =>
    simp only [Parser.takeToken, Parser.takeInitial]
    split
    · exact goOn_faults _
    · exact (declare_completes scope origin ty name none).faults
    · exact refuse_faults (by simp)
  | leading name =>
    simp only [Parser.takeToken, Parser.takeLeading]
    split
    · exact goOn_faults _
    · apply Faults.report _ (onlyBinding_checkUse scope name)
      exact takeOperator_faults name.origin .expression [] (.variable name)
  | operand origin goal frames => exact takeOperand_faults origin goal frames
  | operator origin goal frames operand => exact takeOperator_faults origin goal frames operand
  | stray => exact goOn_faults _
  | skipping =>
    simp only [Parser.takeToken, Parser.skip]
    split
    · split
      · exact begin_faults
      · exact goOn_faults _
    · exact goOn_faults _

theorem step_faults (mode : Mode) : Faults scope token (Parser.step ⟨mode, scope⟩ token) := by
  by_cases blank : token.kind = .blankLine
  · simp only [Parser.step, blank, if_true]
    cases mode <;> exact faults_of_onlyBinding onlyBinding_nil
  · simp only [Parser.step, blank, if_false]
    exact takeToken_faults mode

end

/-- Every report of a fault in a run was made by the step that took the token it names. -/
theorem exists_fault_of_mem_run {state : ParserState} {tokens : List Token} {fault : GrammarFault}
    {culprit : Token} (reported : .grammar fault culprit ∈ (Parser.run state tokens).reports) :
    ∃ before after, tokens = before ++ culprit :: after ∧
      .grammar fault culprit ∈ (Parser.step (Parser.run state before).state culprit).reports := by
  induction tokens generalizing state with
  | nil => cases reported
  | cons token rest inductionHypothesis =>
    cases List.mem_append.mp reported with
    | inl here =>
      obtain ⟨rfl, -⟩ := step_faults state.mode fault culprit here
      exact ⟨[], rest, rfl, here⟩
    | inr later =>
      obtain ⟨before, after, rfl, there⟩ := inductionHypothesis later
      exact ⟨token :: before, after, rfl, there⟩

theorem Failure.refusal {tokens : List Token} (failure : Failure tokens) :
    Refusal failure.reached.state.scope failure.culprit failure.fault
      (Parser.step failure.reached.state failure.culprit) :=
  (step_faults failure.reached.state.mode failure.fault failure.culprit failure.reported).2

/-! ## The run after it -/

section

variable (scope : Scope)

theorem completed_of_quiet {state after : ParserState} {token : Token}
    (quiet : Parser.step state token = ⟨after, [], []⟩) (rest : List Token) :
    Parser.completed state (token :: rest) = Parser.completed after rest := by
  simp only [Parser.completed, Parser.run, quiet, List.nil_append]

theorem completed_finish {token : Token} (finish : token.kind = .finish) (mode : Mode)
    (idle : mode.IsIdle) : Parser.completed ⟨mode, scope⟩ [token] = ⟨[], []⟩ := by
  obtain rfl | rfl | rfl := idle <;>
    simp [Parser.completed, Parser.run, Parser.step, Parser.takeToken, Parser.begin, Parser.skip, finish,
      Parser.goOn]

/-- While a statement is given up, all tokens up to the boundary are dropped. -/
theorem completed_skipping {tokens : List Token} (once : EndsOnce tokens) :
    Parser.completed ⟨.skipping, scope⟩ tokens = Parser.completed ⟨.start, scope⟩ (boundary tokens) := by
  induction tokens with
  | nil => rfl
  | cons token rest inductionHypothesis =>
    by_cases semicolon : token.kind = .mark .semicolon
    · rw [boundary, if_pos semicolon]
      apply completed_of_quiet
      simp [Parser.step, Parser.takeToken, Parser.skip, semicolon, Parser.goOn, Parser.afterDropped]
    · by_cases finish : token.kind = .finish
      · obtain rfl := once.nil_of_finish finish
        rw [boundary, if_neg semicolon, if_pos (.inr finish), completed_finish scope finish _ (.inr (.inr rfl)),
          completed_finish scope finish _ (.inl rfl)]
      · by_cases opens : token.opensStatement = true
        · -- Both modes take the keyword as the first token of a statement.
          have same : Parser.step ⟨.skipping, scope⟩ token = Parser.step ⟨.start, scope⟩ token := by
            unfold Token.opensStatement at opens
            split at opens
            · next keyword kind => simp [Parser.step, Parser.takeToken, Parser.skip, kind, opens]
            · cases opens
          rw [boundary, if_neg semicolon, if_pos (.inl opens)]
          simp only [Parser.completed, Parser.run, same]
        · rw [boundary, if_neg semicolon, if_neg (by simp [opens, finish]), ← inductionHypothesis once.tail]
          apply completed_of_quiet
          by_cases blank : token.kind = .blankLine
          · simp [Parser.step, blank, Parser.takeBlankLine]
          · simp only [Parser.step, blank, if_false, Parser.takeToken, Parser.skip]
            split
            · next keyword kind =>
              simp only [Token.opensStatement, kind] at opens
              simp [opens, Parser.goOn]
            · simp [Parser.goOn, Parser.afterDropped, semicolon]

theorem completed_afterDropped {token : Token} {rest : List Token} (once : EndsOnce rest) :
    Parser.completed ⟨Parser.afterDropped token, scope⟩ rest =
      Parser.completed ⟨.start, scope⟩ (pastFirst (token :: rest)) := by
  by_cases semicolon : token.kind = .mark .semicolon
  · simp only [Parser.afterDropped, pastFirst, semicolon, if_true]
  · simp only [Parser.afterDropped, pastFirst, semicolon, if_false]
    exact completed_skipping scope once

/-- After a stray parenthesis the next token is dropped, whatever it is. -/
theorem completed_stray {tokens : List Token} (once : EndsOnce tokens) :
    Parser.completed ⟨.stray, scope⟩ tokens =
      Parser.completed ⟨.start, scope⟩ (pastFirst (pastBlankLines tokens)) := by
  induction tokens with
  | nil => rfl
  | cons token rest inductionHypothesis =>
    by_cases blank : token.kind = .blankLine
    · have passed : pastBlankLines (token :: rest) = pastBlankLines rest := by simp [pastBlankLines, blank]
      rw [passed, ← inductionHypothesis once.tail]
      apply completed_of_quiet
      simp [Parser.step, blank, Parser.takeBlankLine]
    · have kept : pastBlankLines (token :: rest) = token :: rest := by simp [pastBlankLines, blank]
      rw [kept, ← completed_afterDropped scope once.tail]
      apply completed_of_quiet
      simp [Parser.step, blank, Parser.takeToken, Parser.goOn]

/-- Passing over the first token makes no difference unless it begins a statement. -/
theorem completed_pastFirst {tokens : List Token} (once : EndsOnce tokens)
    (quiet : ∀ first ∈ tokens.head?, first.opensStatement = false) :
    Parser.completed ⟨.start, scope⟩ (pastFirst tokens) =
      Parser.completed ⟨.start, scope⟩ (boundary tokens) := by
  cases tokens with
  | nil => rfl
  | cons first rest =>
    have quiet : first.opensStatement = false := quiet first rfl
    by_cases semicolon : first.kind = .mark .semicolon
    · simp only [pastFirst, boundary, semicolon, if_true]
    · by_cases finish : first.kind = .finish
      · obtain rfl := once.nil_of_finish finish
        rw [pastFirst, if_neg semicolon, boundary, boundary, if_neg semicolon, if_pos (.inr finish),
          completed_finish scope finish _ (.inl rfl)]
        rfl
      · rw [pastFirst, if_neg semicolon, boundary, if_neg semicolon, if_neg (by simp [quiet, finish])]

end

/-! ## Going on -/

namespace Failure

variable {tokens : List Token} (failure : Failure tokens)

theorem resumesAt_resumed : failure.ResumesAt failure.resumed := by
  have parsed : parse tokens =
      let now := Parser.step failure.reached.state failure.culprit
      let later := Parser.completed now.state failure.after
      ⟨failure.reached.statements ++ (now.statements ++ later.statements),
        failure.reached.reports ++ (now.reports ++ later.reports)⟩ := by
    rw [parse, parseWith, failure.reads, Parser.run_append]
    rfl
  have once := failure.endsOnce.tail
  have refusal := failure.refusal
  rw [ResumesAt, parsed, resumed]
  generalize Parser.step failure.reached.state failure.culprit = now at refusal ⊢
  generalize failure.fault = fault at refusal ⊢
  cases refusal with
  | dropped seen => simp [seen, completed_afterDropped _ once]
  | stray kind => simp [completed_stray _ once]

theorem resumed_of_seen (seen : failure.fault ≠ .unexpectedCloseParen) :
    failure.resumed = pastFirst (failure.culprit :: failure.after) := if_neg seen

theorem resumed_of_stray (stray : failure.fault = .unexpectedCloseParen) :
    failure.resumed = pastFirst (pastBlankLines failure.after) := if_pos stray

theorem culprit_of_stray (stray : failure.fault = .unexpectedCloseParen) :
    failure.culprit.kind = .mark .closeParen := by
  have refusal := failure.refusal
  generalize Parser.step failure.reached.state failure.culprit = now at refusal
  generalize failure.fault = fault at refusal stray
  cases refusal with
  | dropped seen => exact absurd stray seen
  | stray kind => exact kind

/-- After a stray parenthesis it makes no difference whether the statement begins with it. -/
theorem due_of_stray (stray : failure.fault = .unexpectedCloseParen) :
    failure.due = boundary failure.after := by
  have kind := failure.culprit_of_stray stray
  simp [due, pastFirst, boundary, kind, Token.opensStatement]

theorem next_kept (kept : ¬ failure.Swallows) (stray : failure.fault = .unexpectedCloseParen) :
    ∀ next ∈ (pastBlankLines failure.after).head?, next.opensStatement = false := by
  intro next first
  simpa using fun opens => (not_or.mp kept).2 ⟨stray, next, first, opens⟩

/-- If no keyword is lost, parsing goes on where it should. -/
theorem resumesAt_due (kept : ¬ failure.Swallows) : failure.ResumesAt failure.due := by
  have once := failure.endsOnce
  suffices same : ∀ scope, Parser.completed ⟨.start, scope⟩ failure.resumed =
      Parser.completed ⟨.start, scope⟩ failure.due by
    have resumes := failure.resumesAt_resumed
    rwa [ResumesAt, same] at resumes
  intro scope
  by_cases stray : failure.fault = .unexpectedCloseParen
  · rw [failure.resumed_of_stray stray, failure.due_of_stray stray, ← boundary_pastBlankLines]
    exact completed_pastFirst scope once.tail.pastBlankLines (failure.next_kept kept stray)
  · rw [failure.resumed_of_seen stray, due]
    by_cases own : failure.IsFirst
    · rw [if_pos own]
    · rw [if_neg own]
      apply completed_pastFirst scope once
      intro first isFirst
      cases isFirst
      simpa using fun opens => (not_or.mp kept).1 ⟨own, opens⟩

/-- If no keyword is lost, nothing is dropped after the token that does not fit that begins a statement. -/
theorem exists_dropped_resumed (kept : ¬ failure.Swallows) :
    ∃ dropped, failure.after = dropped ++ failure.resumed ∧
      ∀ token ∈ dropped, token.opensStatement = false := by
  by_cases stray : failure.fault = .unexpectedCloseParen
  · have split : failure.after.takeWhile (fun token => token.kind = .blankLine) ++ pastBlankLines failure.after =
        failure.after := List.takeWhile_append_dropWhile
    obtain ⟨dropped, rest, quiet⟩ := exists_dropped_pastFirst (failure.next_kept kept stray)
    refine ⟨failure.after.takeWhile (fun token => token.kind = .blankLine) ++ dropped, ?_, ?_⟩
    · rw [failure.resumed_of_stray stray, List.append_assoc, ← rest, split]
    · intro token member
      cases List.mem_append.mp member with
      | inl blank =>
        have blank : token.kind = .blankLine := by
          simpa using List.all_eq_true.mp List.all_takeWhile token blank
        simp [Token.opensStatement, blank]
      | inr later => exact quiet token later
  · rw [failure.resumed_of_seen stray]
    exact exists_dropped_after failure.culprit failure.after

end Failure

/-- Every report of a token that does not fit belongs to a failure, and after each failure parsing goes on as
    `Failure.resumed` says.  If no keyword is lost unseen, this is where it should go on, and nothing is
    dropped that begins another statement. -/
theorem parse_resumes (tokens : List Token) :
    (∀ fault culprit, .grammar fault culprit ∈ (parse tokens).reports →
      ∃ failure : Failure tokens, failure.fault = fault ∧ failure.culprit = culprit) ∧
    ∀ failure : Failure tokens, failure.ResumesAt failure.resumed ∧
      (¬ failure.Swallows → failure.ResumesAt failure.due ∧
        ∃ dropped, failure.after = dropped ++ failure.resumed ∧
          ∀ token ∈ dropped, token.opensStatement = false) := by
  refine ⟨?_, ?_⟩
  · intro fault culprit reported
    obtain ⟨before, after, reads, here⟩ := exists_fault_of_mem_run reported
    exact ⟨⟨before, culprit, after, fault, reads, here⟩, rfl, rfl⟩
  · intro failure
    exact ⟨failure.resumesAt_resumed, fun kept => ⟨failure.resumesAt_due kept, failure.exists_dropped_resumed kept⟩⟩

/-- In `print 1 + int a = 2; print 3;` an operand is missing.  The keyword `int` does not fit and is dropped
    unseen, so that nothing is left of the declaration, with which parsing should have gone on. -/
theorem parse_loses_declaration :
    let token (kind : TokenKind) (text : String) : Token := ⟨kind, Symbol.of 1 text, "script", 1⟩
    let before := [token (.keyword .kwPrint) "print", token (.integer 1) "1", token (.mark .plus) "+"]
    let culprit := token (.keyword .kwInt) "int"
    let print := token (.keyword .kwPrint) "print"
    let after := [token (.identifier "a") "a", token (.mark .equal) "=", token (.integer 2) "2",
      token (.mark .semicolon) ";", print, token (.integer 3) "3", token (.mark .semicolon) ";",
      token .finish ""]
    let tokens := before ++ culprit :: after
    parse tokens = ⟨[⟨.print (.literal (.int 3)), print.origin⟩], [.grammar .expectedExpression culprit]⟩ ∧
      ∃ failure : Failure tokens, failure.culprit = culprit ∧ failure.due = culprit :: after ∧
        ¬ failure.ResumesAt failure.due := by
  intro token before culprit print after tokens
  let failure : Failure tokens := ⟨before, culprit, after, .expectedExpression, by decide, by decide +kernel⟩
  refine ⟨by decide +kernel, failure, rfl, by decide +kernel, ?_⟩
  rintro ⟨-, parsed⟩
  exact absurd parsed (by decide +kernel)

end ScriptFrontend
