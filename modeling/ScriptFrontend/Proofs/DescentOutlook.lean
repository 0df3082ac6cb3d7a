import ScriptFrontend.Proofs.DescentCursor
import ScriptFrontend.Proofs.InlineChecking
import ScriptFrontend.Proofs.ParserCompleteness

/-! # What the descent has ahead of it

Each place in the routines answers to a mode of the parser: calls that wait for an expression answer to
frames, except those that have read nothing yet.  The two take different turns.  A routine decides as soon
as it looks at a token, and the parser only when it takes one; a routine gives an expression back as soon as
it is complete, and the parser leaves it on the stack until something looser comes.

* `outlook` — what has been completed and reported so far, with what the parser in the mode at hand would
  make of the tokens ahead.
* `Defers` — one state of the parser gives what another one gives, over the tokens ahead.  It is how a
  routine may go elsewhere without taking a token.
* `Nested` — calls as the routines make them, with the tier of the expression that is due.
-/

namespace ScriptFrontend.Descent

/-! ## Places and modes -/

/-- Calls as the parser keeps them. -/
def frames : List Call → List Frame
  | [] => []
  | .left _ :: calls => frames calls
  | .right level left operator :: calls => .binary left operator level :: frames calls
  | .sign operator :: calls => .unary operator :: frames calls
  | .group :: calls => .group :: frames calls

/-- The mode to which a place in the routines answers. -/
def Activity.mode : Activity → Mode
  | .rounds | .statement | .assigning | .finished => .start
  | .typed origin ty => .typed origin ty
  | .named origin ty name => .named origin ty name
  | .assigned name => .leading name
  | .level context _ | .unary context | .primary context =>
    .operand context.origin context.goal (frames context.calls)
  | .operators context _ value | .returning context value =>
    .operator context.origin context.goal (frames context.calls) value
  | .closing context inner => .operator context.origin context.goal (.group :: frames context.calls) inner
  | .ending origin goal value => .operator origin goal [] value
  | .synchronizing => .stray
  | .recovering => .skipping

@[simp] theorem mode_operandOf (context : Context) (level : Level) :
    (operandOf context level).mode = .operand context.origin context.goal (frames context.calls) := by
  cases level <;> rfl

@[simp] theorem mode_afterDropped (token : Token) : (afterDropped token).mode = Parser.afterDropped token := by
  unfold afterDropped Parser.afterDropped
  split <;> rfl

/-- Calls under way when an expression of a tier is due.  A routine calls from its own tier. -/
inductive Nested : List Call → Nat → Prop where
  | nil : Nested [] 1
  | left {calls : List Call} {level : Level} :
      Nested calls level.strength → Nested (.left level :: calls) (level.strength + 1)
  | right {calls : List Call} {level : Level} {left : Expr} {operator : Token} :
      Nested calls level.strength → Nested (.right level left operator :: calls) (level.strength + 1)
  | sign {calls : List Call} {operator : Token} : Nested calls 6 → Nested (.sign operator :: calls) 6
  | group {calls : List Call} : Nested calls 6 → Nested (.group :: calls) 1

theorem Nested.settled {calls : List Call} {tier : Nat} (nested : Nested calls tier) :
    Settled tier (frames calls) := by
  induction nested with
  | nil => trivial
  | left _ inductionHypothesis => exact inductionHypothesis.tighten (Nat.le_succ _)
  | right => exact Nat.lt_succ_self _
  | sign => exact Nat.le_refl 6
  | group => trivial

/-! ## Binding -/

/-- How tightly a token binds what stands before it.  What is no binary operator does not bind at all. -/
def pull (token : Token) : Nat := (token.kind.level?.map Level.strength).getD 0

theorem pull_of_level {token : Token} {level : Level} (found : token.kind.level? = some level) :
    pull token = level.strength := by
  simp [pull, found]

theorem level?_of_pull {token : Token} (weak : pull token < 1) : token.kind.level? = none := by
  cases found : token.kind.level? with
  | none => rfl
  | some level =>
    have bounds := level.strength_bounds
    rw [pull_of_level found] at weak
    omega

theorem pull_le (token : Token) : pull token ≤ 5 := by
  cases found : token.kind.level? with
  | none => simp [pull, found]
  | some level => exact pull_of_level found ▸ level.strength_bounds.2

theorem level?_of_pull_eq {token : Token} {level : Level} (same : pull token = level.strength) :
    token.kind.level? = some level := by
  cases found : token.kind.level? with
  | none =>
    have bounds := level.strength_bounds
    simp only [pull, found, Option.map_none, Option.getD_none] at same
    omega
  | some other => rw [Level.strength_injective ((pull_of_level found).symm.trans same)]

/-- Only how tightly a token binds decides what it makes of an operand and the frames around it. -/
theorem takeOperator_of_collapse {frames others : List Frame} {operand other : Expr} {token : Token}
    (same : Frame.collapse (pull token) operand frames = Frame.collapse (pull token) other others)
    (scope : Scope) (origin : Origin) (goal : Goal) :
    Parser.takeOperator scope origin goal frames operand token =
      Parser.takeOperator scope origin goal others other token := by
  unfold Parser.takeOperator
  cases found : token.kind.level? with
  | none =>
    simp only [pull, found, Option.map_none, Option.getD_none] at same
    simp only [same]
  | some level =>
    simp only [pull_of_level found] at same
    simp only [same]

/-! ## Deferring -/

theorem run_token (state : ParserState) {token : Token} (notBlank : token.kind ≠ .blankLine)
    (rest : List Token) :
    Parser.run state (token :: rest) =
      (Parser.takeToken state token).andThen (Parser.run (Parser.takeToken state token).state rest) := by
  simp only [Parser.run, Parser.step, notBlank, if_false, ParserOutcome.andThen]

/-- Inside a statement blank lines change nothing. -/
theorem run_blanks {mode : Mode} (inside : mode ≠ .start) (scope : Scope) {blanks : List Token}
    (blank : ∀ line ∈ blanks, line.kind = .blankLine) (rest : List Token) :
    Parser.run ⟨mode, scope⟩ (blanks ++ rest) = Parser.run ⟨mode, scope⟩ rest := by
  induction blanks with
  | nil => rfl
  | cons line blanks inductionHypothesis =>
    obtain ⟨lineBlank, othersBlank⟩ := List.forall_mem_cons.mp blank
    simp only [List.cons_append, Parser.run, Parser.step, lineBlank, if_true,
      takeBlankLine_inside inside, inductionHypothesis othersBlank, List.nil_append]

/-- Over some tokens one state gives what another one gives, and some reports before that. -/
structure Defers (tokens : List Token) (state : ParserState) (earlier : List Report) (after : ParserState) :
    Prop where
  statements : (Parser.run state tokens).statements = (Parser.run after tokens).statements
  reports : (Parser.run state tokens).reports = earlier ++ (Parser.run after tokens).reports

namespace Defers

theorem refl (tokens : List Token) (state : ParserState) : Defers tokens state [] state := ⟨rfl, rfl⟩

/-- States that take the next token alike, but for some reports. -/
theorem of_token {state after : ParserState} {earlier : List Report} {token : Token}
    (notBlank : token.kind ≠ .blankLine)
    (taken : Parser.takeToken state token =
      { Parser.takeToken after token with reports := earlier ++ (Parser.takeToken after token).reports })
    (rest : List Token) : Defers (token :: rest) state earlier after := by
  constructor
  · simp only [run_token _ notBlank, taken, ParserOutcome.andThen]
  · simp only [run_token _ notBlank, taken, ParserOutcome.andThen, List.append_assoc]

variable {front : List Token} {stop : Token} {cursor index : Nat} {token : Token}

/-- States that take alike what is found, but for some reports. -/
theorem of_found (found : Finds front stop cursor index token) {mode other : Mode} {scope : Scope}
    {earlier : List Report} (inside : mode ≠ .start) (otherInside : other ≠ .start)
    (taken : Parser.takeToken ⟨mode, scope⟩ token =
      { Parser.takeToken ⟨other, scope⟩ token with
        reports := earlier ++ (Parser.takeToken ⟨other, scope⟩ token).reports }) :
    Defers ((front ++ [stop]).drop cursor) ⟨mode, scope⟩ earlier ⟨other, scope⟩ := by
  obtain ⟨blanks, blank, split⟩ := found.blanks
  have defers := of_token found.notBlank taken ((front ++ [stop]).drop (index + 1))
  rw [split, found.here]
  constructor
  · rw [run_blanks inside scope blank, run_blanks otherInside scope blank, defers.statements]
  · rw [run_blanks inside scope blank, run_blanks otherInside scope blank, defers.reports]

/-- Operands that what is found takes off the stack alike. -/
theorem of_collapse (found : Finds front stop cursor index token) {frames others : List Frame}
    {operand other : Expr}
    (same : Frame.collapse (pull token) operand frames = Frame.collapse (pull token) other others)
    (scope : Scope) (origin : Origin) (goal : Goal) :
    Defers ((front ++ [stop]).drop cursor) ⟨.operator origin goal frames operand, scope⟩ []
      ⟨.operator origin goal others other, scope⟩ :=
  of_found found (by simp) (by simp) (takeOperator_of_collapse same scope origin goal)

/-- A refused token is reported, and dropped as a stray one. -/
theorem refused {mode : Mode} {scope : Scope} {fault : GrammarFault} (notBlank : token.kind ≠ .blankLine)
    (refuses : Parser.takeToken ⟨mode, scope⟩ token = Parser.refuse scope fault token) (rest : List Token) :
    Defers (token :: rest) ⟨mode, scope⟩ [.grammar fault token] ⟨.stray, scope⟩ :=
  of_token notBlank refuses rest

/-- A name that no equals sign follows is an operand, only that this shows later. -/
theorem of_name {name second : Token} {symbol : String} (named : name.kind = .identifier symbol)
    (found : Finds front stop cursor index second) (notEqual : second.kind ≠ .mark .equal) (scope : Scope) :
    Defers (name :: (front ++ [stop]).drop cursor) ⟨.start, scope⟩ []
      ⟨.operand name.origin .expression [], scope⟩ := by
  have notBlank : name.kind ≠ .blankLine := by simp [named]
  have leads : Parser.takeToken ⟨.start, scope⟩ name = ⟨⟨.leading name, scope⟩, [], []⟩ := by
    simp [Parser.takeToken, Parser.begin, named, Parser.goOn]
  have operand : Parser.takeToken ⟨.operand name.origin .expression [], scope⟩ name =
      ⟨⟨.operator name.origin .expression [] (.variable name), scope⟩, [], Parser.checkUse scope name⟩ := by
    simp [Parser.takeToken, Parser.takeOperand, named, TokenKind.value?]
  have decides : Defers ((front ++ [stop]).drop cursor) ⟨.leading name, scope⟩ (Parser.checkUse scope name)
      ⟨.operator name.origin .expression [] (.variable name), scope⟩ := by
    refine of_found found (by simp) (by simp) ?_
    simp only [Parser.takeToken, Parser.takeLeading]
  constructor
  · simp only [run_token _ notBlank, leads, operand, ParserOutcome.andThen, decides.statements]
  · simp only [run_token _ notBlank, leads, operand, ParserOutcome.andThen, decides.reports, List.nil_append]

end Defers

/-! ## The outlook -/

/-- What has been completed and reported, with what is ahead. -/
def outlook (read : List Token) (state : State) : Parsed :=
  let ahead := Parser.run ⟨state.activity.mode, state.scope⟩ (read.drop state.cursor)
  ⟨state.statements ++ ahead.statements, state.reports ++ ahead.reports⟩

section

variable {front : List Token} {stop token : Token} {state : State} {index : Nat}

/-- Passing over blank lines inside a statement changes no outlook. -/
theorem outlook_look (found : Finds front stop state.cursor index token) (inside : state.activity.mode ≠ .start) :
    outlook (front ++ [stop]) { state with cursor := index } = outlook (front ++ [stop]) state := by
  obtain ⟨blanks, blank, split⟩ := found.blanks
  simp only [outlook, split, run_blanks inside state.scope blank]

theorem outlook_become {read : List Token} {earlier : List Report} {activity : Activity}
    (defers : Defers (read.drop state.cursor) ⟨state.activity.mode, state.scope⟩ earlier
      ⟨activity.mode, state.scope⟩) :
    outlook read ((state.report earlier).become activity) = outlook read state := by
  simp only [outlook, State.report, State.become, defers.statements, defers.reports, List.append_assoc]

/-- A token that is taken as the parser takes it. -/
theorem outlook_take {after : State} {statements : List Stmt} {reports : List Report}
    (found : Finds front stop state.cursor state.cursor token) (moved : after.cursor = state.cursor + 1)
    (taken : Parser.takeToken ⟨state.activity.mode, state.scope⟩ token =
      ⟨⟨after.activity.mode, after.scope⟩, statements, reports⟩)
    (completed : after.statements = state.statements ++ statements)
    (reported : after.reports = state.reports ++ reports) :
    outlook (front ++ [stop]) after = outlook (front ++ [stop]) state := by
  simp only [outlook, moved, found.here, run_token _ found.notBlank, taken, ParserOutcome.andThen, completed,
    reported, List.append_assoc]

end

end ScriptFrontend.Descent
