import ScriptFrontend.Proofs.ParserLedger
import ScriptFrontend.Proofs.ParserRules

/-! # Semicolons separate

Whatever stands before a semicolon, the parser is between statements after it: no mode waits for more
(`takeToken_semicolon`).  So a token list can be cut after any semicolon and its parts be parsed one
after the other (`parse_append_of_semicolon`).  What the first part hands on is its scope, and of that
only the types that its statements declare: scopes with the same types are `Alike` to the parser.
-/

namespace ScriptFrontend

open Checker

/-! ## After a semicolon -/

theorem afterDropped_semicolon {token : Token} (semicolon : token.kind = .mark .semicolon) :
    Parser.afterDropped token = .start := by
  simp [Parser.afterDropped, semicolon]

theorem complete_mode (scope : Scope) (origin : Origin) (goal : Goal) (value : Expr) :
    (Parser.complete scope origin goal value).state.mode = .start := by
  cases goal <;> rfl

theorem takeOperator_semicolon (scope : Scope) (origin : Origin) (goal : Goal) (frames : List Frame)
    (operand : Expr) {token : Token} (semicolon : token.kind = .mark .semicolon) :
    (Parser.takeOperator scope origin goal frames operand token).state.mode = .start := by
  have noLevel : token.kind.level? = none := by simp [semicolon, TokenKind.level?, Mark.level?]
  simp only [Parser.takeOperator, noLevel]
  split
  · simp [semicolon, Parser.refuse, afterDropped_semicolon semicolon]
  · simp [semicolon, complete_mode]

/-- A semicolon ends whatever the parser is in the middle of. -/
theorem takeToken_semicolon (state : ParserState) {token : Token}
    (semicolon : token.kind = .mark .semicolon) : (Parser.takeToken state token).state.mode = .start := by
  have dropped := afterDropped_semicolon semicolon
  obtain ⟨mode, scope⟩ := state
  cases mode with
  | start =>
    simp [Parser.takeToken, Parser.begin, semicolon, Parser.takeOperand, TokenKind.value?, Parser.refuse, dropped]
  | typed origin ty => simp [Parser.takeToken, Parser.takeName, semicolon, Parser.refuse, dropped]
  | named origin ty name => simp [Parser.takeToken, Parser.takeInitial, semicolon, Parser.declare]
  | leading name => simp [Parser.takeToken, Parser.takeLeading, semicolon, takeOperator_semicolon]
  | operand origin goal frames =>
    simp [Parser.takeToken, Parser.takeOperand, semicolon, TokenKind.value?, Parser.refuse, dropped]
  | operator origin goal frames operand => exact takeOperator_semicolon _ _ _ _ _ semicolon
  | stray => exact dropped
  | skipping => simp [Parser.takeToken, Parser.skip, semicolon, Parser.goOn, dropped]

theorem run_semicolon (state : ParserState) (front : List Token) {ending : Token}
    (semicolon : ending.kind = .mark .semicolon) :
    (Parser.run state (front ++ [ending])).state.mode = .start := by
  have notBlank : ending.kind ≠ .blankLine := by simp [semicolon]
  simp [Parser.run_append, Parser.run, Parser.step, notBlank, takeToken_semicolon _ semicolon]

/-! ## Scopes with the same types -/

/-- Outcomes that differ at most in the way in which their scopes are written down. -/
structure Alike (left right : ParserOutcome) : Prop where
  mode_eq : left.state.mode = right.state.mode
  lookup_eq : left.state.scope.lookup = right.state.scope.lookup
  statements_eq : left.statements = right.statements
  reports_eq : left.reports = right.reports

section

variable {left right : Scope} (same : left.lookup = right.lookup)
include same

theorem goOn_alike (mode : Mode) : Alike (Parser.goOn left mode) (Parser.goOn right mode) :=
  ⟨rfl, same, rfl, rfl⟩

theorem refuse_alike (fault : GrammarFault) (token : Token) :
    Alike (Parser.refuse left fault token) (Parser.refuse right fault token) :=
  ⟨rfl, same, rfl, rfl⟩

theorem declare_alike (origin : Origin) (ty : Ty) (name : Token) (value : Option Expr) :
    Alike (Parser.declare left origin ty name value) (Parser.declare right origin ty name value) := by
  refine ⟨rfl, ?_, rfl, ?_⟩
  · funext other
    rw [declare_extends left origin ty name value other, declare_extends right origin ty name value other, same]
  · cases value with
    | none => simp only [Parser.declare, ofCheck_define, same]
    | some value => simp only [Parser.declare, ofCheck_define, ofCheck_checkInitializer, same]

theorem complete_alike (origin : Origin) (goal : Goal) (value : Expr) :
    Alike (Parser.complete left origin goal value) (Parser.complete right origin goal value) := by
  cases goal with
  | expression => exact ⟨rfl, same, rfl, rfl⟩
  | print => exact ⟨rfl, same, rfl, rfl⟩
  | declare ty name => exact declare_alike same origin ty name (some value)
  | assign name =>
    exact ⟨rfl, same, rfl, by simp only [Parser.complete, ofCheck_checkAssignment, same]⟩

theorem takeOperand_alike (origin : Origin) (goal : Goal) (frames : List Frame) (token : Token) :
    Alike (Parser.takeOperand left origin goal frames token)
      (Parser.takeOperand right origin goal frames token) := by
  unfold Parser.takeOperand
  split
  · exact goOn_alike same _
  · split
    · exact ⟨rfl, same, rfl, by simp only [checkUse_eq, same]⟩
    · exact ⟨rfl, same, rfl, rfl⟩
    · exact goOn_alike same _
    · exact goOn_alike same _
    · exact goOn_alike same _
    · exact refuse_alike same _ _

theorem takeOperator_alike (origin : Origin) (goal : Goal) (frames : List Frame) (operand : Expr)
    (token : Token) :
    Alike (Parser.takeOperator left origin goal frames operand token)
      (Parser.takeOperator right origin goal frames operand token) := by
  unfold Parser.takeOperator
  split
  · exact goOn_alike same _
  · split
    · split
      · exact goOn_alike same _
      · exact refuse_alike same _ _
    · split
      · exact complete_alike same _ _ _
      · exact refuse_alike same _ _

theorem takeLeading_alike (name token : Token) :
    Alike (Parser.takeLeading left name token) (Parser.takeLeading right name token) := by
  unfold Parser.takeLeading
  split
  · exact goOn_alike same _
  · obtain ⟨mode, lookup, statements, reports⟩ :=
      takeOperator_alike same name.origin .expression [] (.variable name) token
    exact ⟨mode, lookup, statements, by simp only [checkUse_eq, same, reports]⟩

theorem begin_alike (token : Token) : Alike (Parser.begin left token) (Parser.begin right token) := by
  unfold Parser.begin
  split
  case h_8 => exact takeOperand_alike same _ _ _ _
  all_goals exact goOn_alike same _

theorem takeToken_alike (mode : Mode) (token : Token) :
    Alike (Parser.takeToken ⟨mode, left⟩ token) (Parser.takeToken ⟨mode, right⟩ token) := by
  cases mode with
  | start => exact begin_alike same token
  | typed origin ty =>
    simp only [Parser.takeToken, Parser.takeName]
    split
    · exact goOn_alike same _
    · exact refuse_alike same _ _
  | named origin ty name =>
    simp only [Parser.takeToken, Parser.takeInitial]
    split
    · exact goOn_alike same _
    · exact declare_alike same _ _ _ _
    · exact refuse_alike same _ _
  | leading name => exact takeLeading_alike same name token
  | operand origin goal frames => exact takeOperand_alike same origin goal frames token
  | operator origin goal frames operand => exact takeOperator_alike same origin goal frames operand token
  | stray => exact goOn_alike same _
  | skipping =>
    simp only [Parser.takeToken, Parser.skip]
    split
    · split
      · exact begin_alike same token
      · exact goOn_alike same _
    · exact goOn_alike same _

theorem step_alike (mode : Mode) (token : Token) :
    Alike (Parser.step ⟨mode, left⟩ token) (Parser.step ⟨mode, right⟩ token) := by
  by_cases blank : token.kind = .blankLine
  · simp only [Parser.step, blank, if_true]
    cases mode <;> exact ⟨rfl, same, rfl, rfl⟩
  · simp only [Parser.step, blank, if_false]
    exact takeToken_alike same mode token

end

/-- The parser sees of a scope only the types that it gives to names. -/
theorem run_alike {left right : ParserState} (sameMode : left.mode = right.mode)
    (sameTypes : left.scope.lookup = right.scope.lookup) (tokens : List Token) :
    Alike (Parser.run left tokens) (Parser.run right tokens) := by
  induction tokens generalizing left right with
  | nil => exact ⟨sameMode, sameTypes, rfl, rfl⟩
  | cons token rest inductionHypothesis =>
    obtain ⟨mode, leftScope⟩ := left
    obtain ⟨_, rightScope⟩ := right
    cases sameMode
    have now := step_alike sameTypes mode token
    have later := inductionHypothesis now.mode_eq now.lookup_eq
    refine ⟨later.mode_eq, later.lookup_eq, ?_, ?_⟩
    · simp only [Parser.run, now.statements_eq, later.statements_eq]
    · simp only [Parser.run, now.reports_eq, later.reports_eq]

/-! ## Cutting a token list -/

theorem terminated_append {before after : List Token} (goesOn : ∀ token ∈ before, token.kind ≠ .finish)
    (nonempty : after ≠ []) : terminated (before ++ after) = before ++ terminated after := by
  have last := List.getLast?_eq_some_getLast nonempty
  have taken : (before ++ after).takeWhile (fun token => token.kind ≠ .finish) =
      before ++ after.takeWhile (fun token => token.kind ≠ .finish) :=
    List.takeWhile_append_of_pos (by simpa using goesOn)
  have found : (before ++ after).find? (fun token => token.kind = .finish) =
      after.find? (fun token => token.kind = .finish) := by
    rw [List.find?_append, List.find?_eq_none.mpr (by simpa using goesOn), Option.none_or]
  simp only [terminated, List.getLast?_append, last, Option.some_or, taken, found, List.append_assoc]

/-- Tokens that end between statements are parsed by their run alone: the end mark adds nothing. -/
theorem parse_eq_run {tokens : List Token} (goesOn : ∀ token ∈ tokens, token.kind ≠ .finish)
    (nonempty : tokens ≠ []) (between : (Parser.run ⟨.start, .empty⟩ tokens).state.mode = .start) :
    parse tokens = ⟨(Parser.run ⟨.start, .empty⟩ tokens).statements,
      (Parser.run ⟨.start, .empty⟩ tokens).reports⟩ := by
  obtain ⟨stop, ends, ended⟩ := terminated_eq nonempty
  have whole : beforeFinish (tokens ++ []) = tokens ++ [] :=
    List.takeWhile_append_of_pos (by simpa using goesOn)
  rw [List.append_nil] at whole
  rw [whole] at ended
  simp [parse, parseWith, ended, Parser.run_append, Parser.run, Parser.step, Parser.takeToken, between,
    Parser.begin, ends, Parser.goOn]

/-- After a semicolon parsing begins anew, whatever stood before it, with the variables that the
    statements before it declare.  Each has the type of its first declaration. -/
theorem parse_append_of_semicolon {before : List Token}
    (goesOn : ∀ token ∈ before, token.kind ≠ .finish)
    (semicolon : before.getLast?.map Token.kind = some (.mark .semicolon)) (after : List Token)
    {scope : Scope}
    (declared : ∀ name, scope.lookup name = declaredType? (parse before).statements name) :
    parse (before ++ after) =
      ⟨(parse before).statements ++ (parseWith scope after).statements,
        (parse before).reports ++ (parseWith scope after).reports⟩ := by
  obtain ⟨ending, last, kind⟩ := Option.map_eq_some_iff.mp semicolon
  obtain ⟨front, rfl⟩ := List.getLast?_eq_some_iff.mp last
  have between := run_semicolon ⟨.start, .empty⟩ front kind
  have parsed := parse_eq_run goesOn (by simp) between
  by_cases empty : after = []
  · subst empty
    simp [parseWith, terminated, Parser.run]
  · have same : (Parser.run ⟨.start, .empty⟩ (front ++ [ending])).state.scope.lookup = scope.lookup := by
      funext name
      rw [declared name, parsed, run_extends ⟨.start, .empty⟩ (front ++ [ending]) name]
      simp
    have later : Alike (Parser.run _ (terminated after)) (Parser.run ⟨.start, scope⟩ (terminated after)) :=
      run_alike between same (terminated after)
    rw [parsed, parse, parseWith, parseWith, terminated_append goesOn empty, Parser.run_append,
      later.statements_eq, later.reports_eq]

/-- In `int a; double a; string b = (;` the second declaration clashes and the third is lost, so what
    follows finds `a` as an `int` and no `b`. -/
theorem parse_append_of_semicolon_sample :
    let token (kind : TokenKind) (text : String) : Token := ⟨kind, Symbol.of 1 text, "script", 1⟩
    let a := token (.identifier "a") "a"
    let b := token (.identifier "b") "b"
    let semicolon := token (.mark .semicolon) ";"
    let before := [token (.keyword .kwInt) "int", a, semicolon, token (.keyword .kwDouble) "double", a,
      semicolon, token (.keyword .kwString) "string", b, token (.mark .equal) "=",
      token (.mark .openParen) "(", semicolon]
    let after := [a, token (.mark .equal) "=", b, semicolon]
    let scope : Scope := ⟨[(Symbol.of 1 "a", .int)]⟩
    (∀ token ∈ before, token.kind ≠ .finish) ∧
      before.getLast?.map Token.kind = some (.mark .semicolon) ∧
      (∀ name, scope.lookup name = declaredType? (parse before).statements name) ∧
      parse (before ++ after) =
        ⟨(parse before).statements ++ (parseWith scope after).statements,
          (parse before).reports ++ (parseWith scope after).reports⟩ := by
  intro token a b semicolon before after scope
  have goesOn : ∀ token ∈ before, token.kind ≠ .finish := by decide
  have ends : before.getLast?.map Token.kind = some (.mark .semicolon) := rfl
  have statements : (parse before).statements =
      [⟨.declare .int a none, a.origin⟩, ⟨.declare .double a none, a.origin⟩] := by decide +kernel
  have declared : ∀ name, scope.lookup name = declaredType? (parse before).statements name := by
    intro name
    rw [statements, Scope.lookup_cons]
    by_cases same : Symbol.of 1 "a" = name
    · simp [declaredType?, Stmt.declared?, a, token, same]
    · simp [declaredType?, Stmt.declared?, a, token, same, Scope.lookup]
  exact ⟨goesOn, ends, declared, parse_append_of_semicolon goesOn ends after declared⟩

end ScriptFrontend
