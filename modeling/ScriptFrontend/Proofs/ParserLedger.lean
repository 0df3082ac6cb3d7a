import ScriptFrontend.Parser
import ScriptFrontend.Proofs.Checker

/-! # What the parser reports about variables

The checks of the parser are spread over its steps.  `Ledger` says once what a token adds: the uses of
variables that the mode holds (`Mode.uses`) have been reported as far as they are undefined, and when a
statement is complete, its reports are those of the checker for the finished statement.

The scope changes only when a declaration is completed.  After a run it holds what it held before, and
beyond that the declared types of the statements that the run gave (`run_extends`).
-/

namespace ScriptFrontend

open Checker

/-! ## Scopes -/

/-- What a scope has become after some statements: names that it did not hold have the type of their
    first declaration. -/
def Scope.Extends (scope : Scope) (statements : List Stmt) (after : Scope) : Prop :=
  ∀ name, after.lookup name = (scope.lookup name).or (declaredType? statements name)

namespace Scope

theorem Extends.nil (scope : Scope) : scope.Extends [] scope := by
  intro name
  simp

theorem Extends.append {first second third : Scope} {left right : List Stmt}
    (earlier : first.Extends left second) (later : second.Extends right third) :
    first.Extends (left ++ right) third := by
  intro name
  rw [later name, earlier name, declaredType?_append, Option.or_assoc]

/-- A statement that declares nothing leaves the scope as it is. -/
theorem Extends.refl {scope : Scope} {statement : Stmt} (silent : ∀ name, statement.declared? name = none) :
    scope.Extends [statement] scope := by
  intro name
  simp [silent name]

@[simp] theorem lookup_empty (name : Symbol) : empty.lookup name = none := rfl

theorem lookup_cons (name declared : Symbol) (ty : Ty) (types : List (Symbol × Ty)) :
    lookup ⟨(declared, ty) :: types⟩ name =
      if declared = name then some ty else lookup ⟨types⟩ name := by
  by_cases same : declared = name
  · simp [lookup, same]
  · simp [lookup, List.lookup_cons, same, beq_false_of_ne (Ne.symm same)]

theorem staticType_eq (scope : Scope) (value : Expr) : scope.staticType value = knownType scope.lookup value := by
  cases value <;> rfl

end Scope

/-! ## Names in the frames and modes -/

def Frame.uses : Frame → List Token
  | .binary left _ _ => left.uses
  | .unary _ | .group => []

/-- The names that frames hold, from left to right. -/
def usesOf : List Frame → List Token
  | [] => []
  | frame :: frames => usesOf frames ++ frame.uses

/-- The names that the statement in hand has used. -/
def Mode.uses : Mode → List Token
  | .operand _ _ frames => usesOf frames
  | .operator _ _ frames value => usesOf frames ++ value.uses
  | .start | .typed .. | .named .. | .leading _ | .stray | .skipping => []

/-- The names that the statement in hand has used if anything but an equals sign comes next. -/
def Mode.operands : Mode → List Token
  | .leading name => [name]
  | mode => mode.uses

/-- Collapsing frames moves names from the frames into the operand and keeps their order. -/
theorem uses_collapse (strength : Nat) (operand : Expr) (frames : List Frame) :
    usesOf (Frame.collapse strength operand frames).2 ++ (Frame.collapse strength operand frames).1.uses =
      usesOf frames ++ operand.uses := by
  fun_induction Frame.collapse strength operand frames with
  | case1 operand operator frames inductionHypothesis =>
    simpa [usesOf, Frame.uses, Expr.uses] using inductionHypothesis
  | case2 operand left operator level frames binds inductionHypothesis =>
    simpa [usesOf, Frame.uses, Expr.uses] using inductionHypothesis
  | case3 | case4 | case5 => rfl

/-- With no strength asked for, collapsing ends at a parenthesis or takes all frames. -/
theorem collapse_zero (operand : Expr) (frames : List Frame) :
    (Frame.collapse 0 operand frames).2 = [] ∨
      ∃ rest, (Frame.collapse 0 operand frames).2 = .group :: rest := by
  fun_induction Frame.collapse 0 operand frames with
  | case1 _ _ _ inductionHypothesis | case2 _ _ _ _ _ _ inductionHypothesis => exact inductionHypothesis
  | case3 _ _ _ level _ weaker => exact absurd (Nat.zero_le level.strength) weaker
  | case4 _ frames => exact .inr ⟨frames, rfl⟩
  | case5 => exact .inl rfl

/-! ## The ledger -/

/-- What a token adds to the reports of a statement that has used some names.  If the token does not
    fit, some more names turn out to have been used. -/
inductive Ledger (scope : Scope) (uses operands : List Token) (token : Token) : ParserOutcome → Prop where
  | reads {mode : Mode} {reports : List Report} :
      undefined scope.lookup uses ++ reports = undefined scope.lookup mode.uses →
      Ledger scope uses operands token ⟨⟨mode, scope⟩, [], reports⟩
  | completes {statement : Stmt} {after : Scope} {reports : List Report} :
      undefined scope.lookup uses ++ reports = action scope.lookup statement.action →
      scope.Extends [statement] after →
      Ledger scope uses operands token ⟨⟨.start, after⟩, [statement], reports⟩
  | refuses {mode : Mode} {fault : GrammarFault} {reports earlier : List Report} :
      reports = earlier ++ [.grammar fault token] →
      undefined scope.lookup uses ++ earlier = undefined scope.lookup operands →
      Ledger scope uses operands token ⟨⟨mode, scope⟩, [], reports⟩

theorem checkUse_eq (scope : Scope) (name : Token) :
    Parser.checkUse scope name = undefined scope.lookup [name] := by
  cases found : scope.lookup name.lexeme <;> simp [Parser.checkUse, undefined, found]

theorem ofCheck_checkInitializer (scope : Scope) (ty : Ty) (name : Token) (value : Expr) :
    Report.ofCheck name (Scope.checkInitializer name.lexeme ty (scope.staticType value)) =
      initial scope.lookup ty name value := by
  rw [Scope.staticType_eq]
  by_cases unknown : knownType scope.lookup value = .void
  · simp [Scope.checkInitializer, Report.ofCheck, initial, unknown]
  · by_cases same : knownType scope.lookup value = ty <;>
      simp [Scope.checkInitializer, Report.ofCheck, initial, unknown, same]

theorem ofCheck_define (scope : Scope) (ty : Ty) (name : Token) :
    Report.ofCheck name (scope.define name.lexeme ty) = redeclared scope.lookup name := by
  cases found : scope.lookup name.lexeme <;> simp [Scope.define, Report.ofCheck, redeclared, found]

theorem ofCheck_checkAssignment (scope : Scope) (name : Token) (value : Expr) :
    Report.ofCheck name (scope.checkAssignment name.lexeme (scope.staticType value)) =
      assigned scope.lookup name value := by
  rw [Scope.staticType_eq]
  cases found : scope.lookup name.lexeme with
  | none => simp [Scope.checkAssignment, Report.ofCheck, assigned, found]
  | some declared =>
    by_cases same : declared = knownType scope.lookup value
    · simp [Scope.checkAssignment, Report.ofCheck, assigned, found, same]
    · simp [Scope.checkAssignment, Report.ofCheck, assigned, found, same, Ne.symm same]

/-- A declaration adds its name, unless the name is declared already. -/
theorem declare_extends (scope : Scope) (origin : Origin) (ty : Ty) (name : Token)
    (value : Option Expr) :
    scope.Extends [⟨.declare ty name value, origin⟩]
      (Parser.declare scope origin ty name value).state.scope := by
  intro other
  simp only [declaredType?_singleton, Stmt.declared?]
  cases found : scope.lookup name.lexeme with
  | some first =>
    have kept : (Parser.declare scope origin ty name value).state.scope = scope := by
      simp [Parser.declare, Scope.define, found]
    rw [kept]
    by_cases same : name.lexeme = other
    · simp [← same, found]
    · simp [same]
  | none =>
    have added : (Parser.declare scope origin ty name value).state.scope =
        ⟨(name.lexeme, ty) :: scope.types⟩ := by
      simp [Parser.declare, Scope.define, found]
    rw [added, Scope.lookup_cons]
    by_cases same : name.lexeme = other
    · simp [← same, found]
    · simp [same]

variable {scope : Scope} {token : Token}

theorem declare_ledger (origin : Origin) (ty : Ty) (name : Token) (value : Option Expr) :
    Ledger scope (value.elim [] Expr.uses) (value.elim [] Expr.uses) token
      (Parser.declare scope origin ty name value) := by
  refine .completes ?_ (declare_extends scope origin ty name value)
  cases value with
  | none => simp [action, ofCheck_define]
  | some value => simp [action, ofCheck_define, ofCheck_checkInitializer]

theorem complete_ledger (origin : Origin) (goal : Goal) (value : Expr) :
    Ledger scope value.uses value.uses token (Parser.complete scope origin goal value) := by
  cases goal with
  | expression => exact .completes (by simp [action]) (.refl fun _ => rfl)
  | print => exact .completes (by simp [action]) (.refl fun _ => rfl)
  | declare ty name => exact declare_ledger origin ty name (some value)
  | assign name => exact .completes (by simp [action, ofCheck_checkAssignment]) (.refl fun _ => rfl)

theorem refuse_ledger (fault : GrammarFault) (uses : List Token) :
    Ledger scope uses uses token (Parser.refuse scope fault token) :=
  .refuses (List.nil_append _).symm (List.append_nil _)

theorem goOn_ledger {mode : Mode} {uses operands : List Token} (same : mode.uses = uses) :
    Ledger scope uses operands token (Parser.goOn scope mode) :=
  .reads (by simp [same])

theorem takeOperand_ledger (origin : Origin) (goal : Goal) (frames : List Frame) :
    Ledger scope (usesOf frames) (usesOf frames) token
      (Parser.takeOperand scope origin goal frames token) := by
  unfold Parser.takeOperand
  split
  · exact goOn_ledger (by simp [Mode.uses, Expr.uses])
  · split
    · exact .reads (by simp [Mode.uses, Expr.uses, checkUse_eq])
    · exact .refuses (List.nil_append _).symm (List.append_nil _)
    · exact goOn_ledger (by simp [Mode.uses, usesOf, Frame.uses])
    · exact goOn_ledger (by simp [Mode.uses, usesOf, Frame.uses])
    · exact goOn_ledger (by simp [Mode.uses, usesOf, Frame.uses])
    · exact refuse_ledger ..

theorem takeOperator_ledger (origin : Origin) (goal : Goal) (frames : List Frame) (operand : Expr) :
    Ledger scope (usesOf frames ++ operand.uses) (usesOf frames ++ operand.uses) token
      (Parser.takeOperator scope origin goal frames operand token) := by
  unfold Parser.takeOperator
  split
  · next level _ =>
    rw [← uses_collapse level.strength]
    exact goOn_ledger (by simp [Mode.uses, usesOf, Frame.uses])
  · rw [← uses_collapse 0]
    split
    · next inner rest collapsed =>
      rw [collapsed]
      split
      · exact goOn_ledger (by simp [Mode.uses, usesOf, Frame.uses, Expr.uses])
      · exact refuse_ledger ..
    · next whole rest notGroup collapsed =>
      have bottom := collapse_zero operand frames
      rw [collapsed] at bottom ⊢
      obtain rfl | ⟨outer, rfl⟩ := bottom
      · split
        · exact complete_ledger origin goal whole
        · exact refuse_ledger ..
      · exact absurd rfl (notGroup outer)

theorem takeName_ledger (origin : Origin) (ty : Ty) :
    Ledger scope [] [] token (Parser.takeName scope origin ty token) := by
  unfold Parser.takeName
  split
  · exact goOn_ledger rfl
  · exact refuse_ledger ..

theorem takeInitial_ledger (origin : Origin) (ty : Ty) (name : Token) :
    Ledger scope [] [] token (Parser.takeInitial scope origin ty name token) := by
  unfold Parser.takeInitial
  split
  · exact goOn_ledger rfl
  · exact declare_ledger origin ty name none
  · exact refuse_ledger ..

/-- Names that were used but not reported can be reported together with what comes after them. -/
theorem Ledger.report {names operands : List Token} {outcome : ParserOutcome}
    (ledger : Ledger scope names operands token outcome) :
    Ledger scope [] operands token
      { outcome with reports := undefined scope.lookup names ++ outcome.reports } := by
  cases ledger with
  | reads balance => exact .reads balance
  | completes balance extended => exact .completes balance extended
  | refuses reported balance =>
    simp only [reported, ← List.append_assoc]
    exact .refuses rfl balance

theorem takeLeading_ledger (name : Token) :
    Ledger scope [] [name] token (Parser.takeLeading scope name token) := by
  unfold Parser.takeLeading
  split
  · exact goOn_ledger rfl
  -- The name was an operand all along, and is reported now, before anything else.
  · rw [checkUse_eq]
    exact (takeOperator_ledger name.origin .expression [] (.variable name)).report

theorem begin_ledger : Ledger scope [] [] token (Parser.begin scope token) := by
  unfold Parser.begin
  split
  case h_8 => exact takeOperand_ledger token.origin .expression []
  all_goals exact goOn_ledger rfl

theorem takeToken_ledger (state : ParserState) (token : Token) :
    Ledger state.scope state.mode.uses state.mode.operands token (Parser.takeToken state token) := by
  obtain ⟨mode, scope⟩ := state
  have idle : ∀ operands, Ledger scope [] operands token (Parser.goOn scope (Parser.afterDropped token)) := by
    intro operands
    unfold Parser.afterDropped
    split <;> exact goOn_ledger rfl
  cases mode with
  | start => exact begin_ledger
  | typed origin ty => exact takeName_ledger origin ty
  | named origin ty name => exact takeInitial_ledger origin ty name
  | leading name => exact takeLeading_ledger name
  | operand origin goal frames => exact takeOperand_ledger origin goal frames
  | operator origin goal frames operand => exact takeOperator_ledger origin goal frames operand
  | stray => exact idle _
  | skipping =>
    simp only [Parser.takeToken, Parser.skip]
    split
    · split
      · exact begin_ledger
      · exact goOn_ledger rfl
    · exact idle _

/-! ## Runs -/

theorem Ledger.extends {uses operands : List Token} {outcome : ParserOutcome}
    (ledger : Ledger scope uses operands token outcome) :
    scope.Extends outcome.statements outcome.state.scope := by
  cases ledger with
  | reads _ => exact .nil scope
  | completes _ extended => exact extended
  | refuses _ _ => exact .nil scope

theorem step_extends (state : ParserState) (token : Token) :
    state.scope.Extends (Parser.step state token).statements (Parser.step state token).state.scope := by
  by_cases blank : token.kind = .blankLine
  · simp only [Parser.step, blank, if_true, Parser.takeBlankLine]
    split
    · exact .refl fun _ => rfl
    · exact .nil state.scope
  · simp only [Parser.step, blank, if_false]
    exact (takeToken_ledger state token).extends

/-- A run adds to the scope what its statements declare, and nothing else. -/
theorem run_extends (state : ParserState) (tokens : List Token) :
    state.scope.Extends (Parser.run state tokens).statements (Parser.run state tokens).state.scope := by
  induction tokens generalizing state with
  | nil => exact .nil state.scope
  | cons token rest inductionHypothesis =>
    exact (step_extends state token).append (inductionHypothesis (Parser.step state token).state)

end ScriptFrontend
