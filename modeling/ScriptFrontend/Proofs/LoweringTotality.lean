import ScriptFrontend.Proofs.InlineChecking
import ScriptFrontend.Proofs.LoweredStatements
import ScriptFrontend.Proofs.RoundTrip

/-! # What is parsed can be lowered

Lowering fails on a token that is no operator where an operator belongs, and on a variable of type `void`.
Trees that keep to the grammar have neither (`Stratified.lowers`, `StratifiedAction.lowers`), and the
parser gives no others, whatever tokens it is given and whatever it has to report about them.  So lowering
what was parsed never fails, and the host program has a statement for every statement of the script, with
its place (`lower_parse`).
-/

namespace ScriptFrontend

open Grammar

/-! ## Trees of the grammar -/

theorem Grammar.Stratified.lowers {tier : Nat} {value : Expr} (stratified : Stratified tier value) :
    ∃ lowered, value.lower = .ok lowered := by
  induction value generalizing tier with
  | binary left operator right leftHypothesis rightHypothesis =>
    obtain ⟨level, found, -, leftStratified, rightStratified⟩ := stratified
    obtain ⟨-, sign, -, given, -⟩ := binaryOp_of_tier found
    obtain ⟨left, leftLowered⟩ := leftHypothesis leftStratified
    obtain ⟨right, rightLowered⟩ := rightHypothesis rightStratified
    exact ⟨.binary sign left right, by rw [Expr.lower, given, leftLowered, rightLowered]; rfl⟩
  | grouping inner inductionHypothesis =>
    obtain ⟨inner, innerLowered⟩ := inductionHypothesis stratified.2
    exact ⟨.parenthesized inner, by rw [Expr.lower, innerLowered]; rfl⟩
  | literal value => exact ⟨.literal value.lower, rfl⟩
  | unary operator right inductionHypothesis =>
    obtain ⟨isSign, -, rightStratified⟩ := stratified
    obtain ⟨-, sign, -, given, -⟩ := prefixOp_of_sign isSign
    obtain ⟨operand, operandLowered⟩ := inductionHypothesis rightStratified
    exact ⟨.prefixed sign operand, by rw [Expr.lower, given, operandLowered]; rfl⟩
  | «variable» name => exact ⟨.name name.lexeme.text, rfl⟩

theorem Ty.lowers {ty : Ty} (notVoid : ty ≠ .void) : ∃ primitive, ty.lower = .ok primitive := by
  cases ty with
  | void => exact absurd rfl notVoid
  | int | double | string | bool => exact ⟨_, rfl⟩

theorem Grammar.StratifiedAction.lowers {action : Action} (stratified : StratifiedAction action) :
    ∃ lowered, action.lower = .ok lowered := by
  cases action with
  | expression value =>
    obtain ⟨lowered, given⟩ := Stratified.lowers stratified
    exact ⟨.expression lowered, by rw [Action.lower, given]; rfl⟩
  | print value =>
    obtain ⟨lowered, given⟩ := Stratified.lowers stratified
    exact ⟨.expression (.invoke .write [lowered]), by rw [Action.lower, given]; rfl⟩
  | declare ty name initial =>
    obtain ⟨notVoid, -, valueStratified⟩ := stratified
    obtain ⟨primitive, typeLowered⟩ := Ty.lowers notVoid
    cases initial with
    | none => exact ⟨.declare primitive name.lexeme.text none, by rw [Action.lower, typeLowered]; rfl⟩
    | some value =>
      obtain ⟨lowered, given⟩ := (valueStratified value rfl).lowers
      exact ⟨.declare primitive name.lexeme.text (some lowered),
        by rw [Action.lower, typeLowered, given]; rfl⟩
  | assign name value =>
    obtain ⟨lowered, given⟩ := stratified.2.lowers
    exact ⟨.expression (.assign name.lexeme.text lowered), by rw [Action.lower, given]; rfl⟩
  | blankLine => exact ⟨.empty, rfl⟩

/-! ## Trees of the parser -/

theorem Grammar.Spells.stratified {tokens : List Token} {action : Action} (spelled : Spells tokens action) :
    StratifiedAction action := by
  cases spelled with
  | expression derived _ => exact derived.stratified
  | print _ derived _ => exact derived.stratified
  | declare type name _ => exact ⟨typeKind?_ne_void type, name, by simp⟩
  | initialized type name _ derived _ =>
    refine ⟨typeKind?_ne_void type, name, ?_⟩
    rintro value ⟨⟩
    exact derived.stratified
  | assign name _ derived _ => exact ⟨name, derived.stratified⟩

theorem stratified_of_mem_parse {tokens : List Token} {statement : Stmt}
    (parsed : statement ∈ (parse tokens).statements) : StratifiedAction statement.action := by
  by_cases empty : tokens = []
  · subst empty
    cases parsed
  · rcases spells_of_mem_parse empty parsed with blank | ⟨spelling, -, spelled⟩
    · rw [blank]
      trivial
    · exact spelled.stratified

/-! ## Programs -/

theorem Stmt.lower_of_action {statement : Stmt} {action : Host.Action}
    (given : statement.action.lower = .ok action) :
    statement.lower = .ok ⟨action, some statement.origin⟩ := by
  rw [Stmt.lower, given]
  rfl

theorem Lowers.origins {statements : List Stmt} {body : List Host.Stmt} (lowers : Lowers statements body) :
    body.map Host.Stmt.origin = statements.map fun statement => some statement.origin := by
  induction lowers with
  | nil => rfl
  | cons given _ inductionHypothesis =>
    obtain ⟨_, -, same⟩ := bind_eq_ok.mp given
    rw [List.map_cons, List.map_cons, inductionHypothesis, ← Except.ok.inj same]

theorem lower_eq_ok (file : String) {statements : List Stmt}
    (stratified : ∀ statement ∈ statements, StratifiedAction statement.action) :
    ∃ body, lower file statements = .ok ⟨file, ["System"], hostClass, ⟨entryRoutine, body⟩⟩ := by
  have mapped : ∃ body, statements.mapM Stmt.lower = .ok body := by
    induction statements with
    | nil => exact ⟨[], rfl⟩
    | cons statement rest inductionHypothesis =>
      obtain ⟨here, later⟩ := List.forall_mem_cons.mp stratified
      obtain ⟨action, given⟩ := here.lowers
      obtain ⟨body, mapped⟩ := inductionHypothesis later
      exact ⟨_ :: body, by rw [List.mapM_cons, Stmt.lower_of_action given, mapped]; rfl⟩
  obtain ⟨body, mapped⟩ := mapped
  exact ⟨body, by rw [lower, mapped]; rfl⟩

/-- Whatever the tokens are, and whatever is reported about them, what they are parsed to is lowered
    without a fault.  The body of the host program has the lowered form of each statement, in order and
    with the place of the statement. -/
theorem lower_parse (file : String) (tokens : List Token) :
    ∃ program, lower file (parse tokens).statements = .ok program ∧ program.file = file ∧
      Lowers (parse tokens).statements program.entry.body ∧
      program.entry.body.map Host.Stmt.origin =
        (parse tokens).statements.map fun statement => some statement.origin := by
  have stratified : ∀ statement ∈ (parse tokens).statements, StratifiedAction statement.action :=
    fun _ => stratified_of_mem_parse
  obtain ⟨body, lowered⟩ := lower_eq_ok file stratified
  have lowers := lowers_of_lower lowered
  exact ⟨_, lowered, rfl, lowers, lowers.origins⟩

end ScriptFrontend
