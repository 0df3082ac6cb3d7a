import Mathlib.Data.List.Forall2
import ScriptFrontend.Compilation

/-! # Lowering statement by statement

The body of a host program has one statement for each statement of the script, in the same order
(`Lowers`).  So a place in the body is a place in the script (`exists_split`), and what is said of one
statement and the one that it is lowered to can be said of all of them.

What a statement or an expression can be lowered to is said once, by a case for each of its forms
(`LowersAction`, `LowersExpr`).
-/

namespace ScriptFrontend

/-! ## Results of a list -/

theorem bind_eq_ok {ε α β : Type} {first : Except ε α} {next : α → Except ε β} {result : β} :
    (first >>= next) = .ok result ↔ ∃ value, first = .ok value ∧ next value = .ok result := by
  cases first <;> simp [bind, Except.bind]

theorem exists_eq_ok {ε α : Type} {result : Except ε α} (accepted : result.isOk = true) :
    ∃ value, result = .ok value := by
  cases result with
  | error _ => cases accepted
  | ok value => exact ⟨value, rfl⟩

theorem eq_ok_of_mem_toOption {ε α : Type} {result : Except ε α} {value : α} (member : value ∈ result.toOption) :
    result = .ok value := by
  cases result with
  | error _ => cases member
  | ok _ =>
    cases member
    rfl

theorem forall₂_of_mapM {ε α β : Type} {f : α → Except ε β} {values : List α} {results : List β}
    (mapped : values.mapM f = .ok results) :
    List.Forall₂ (fun value result => f value = .ok result) values results := by
  induction values generalizing results with
  | nil =>
    cases mapped
    exact .nil
  | cons value values inductionHypothesis =>
    simp only [List.mapM_cons, bind_eq_ok] at mapped
    obtain ⟨result, given, rest, mapped, same⟩ := mapped
    cases same
    exact .cons given (inductionHypothesis mapped)

theorem exists_split {α β : Type} {related : α → β → Prop} {values : List α} {before after : List β}
    {result : β} (pairs : List.Forall₂ related values (before ++ result :: after)) :
    ∃ first value rest, values = first ++ value :: rest ∧ List.Forall₂ related first before ∧
      related value result := by
  have earlier := List.forall₂_take_append values before (result :: after) pairs
  have later := List.forall₂_drop_append values before (result :: after) pairs
  have joined := List.take_append_drop before.length values
  cases split : values.drop before.length with
  | nil =>
    rw [split] at later
    cases later
  | cons value rest =>
    rw [split] at later joined
    cases later with
    | cons here _ => exact ⟨_, value, rest, joined.symm, earlier, here⟩

theorem exists_related {α β : Type} {related : α → β → Prop} {values : List α} {results : List β}
    (pairs : List.Forall₂ related values results) {value : α} (member : value ∈ values) :
    ∃ result ∈ results, related value result := by
  induction pairs with
  | nil => cases member
  | cons here _ inductionHypothesis =>
    cases member with
    | head => exact ⟨_, .head _, here⟩
    | tail _ later =>
      obtain ⟨result, inside, found⟩ := inductionHypothesis later
      exact ⟨result, .tail _ inside, found⟩

/-! ## Expressions -/

/-- Expressions and the host expressions that they are lowered to. -/
inductive LowersExpr : Expr → Host.Expr → Prop where
  | binary {left right : Expr} {operator : Token} {sign : Host.BinaryOp} {loweredLeft loweredRight : Host.Expr} :
      operator.binaryOp = .ok sign → LowersExpr left loweredLeft → LowersExpr right loweredRight →
      LowersExpr (.binary left operator right) (.binary sign loweredLeft loweredRight)
  | grouping {inner : Expr} {lowered : Host.Expr} : LowersExpr inner lowered →
      LowersExpr (.grouping inner) (.parenthesized lowered)
  | literal {value : Value} : LowersExpr (.literal value) (.literal value.lower)
  | unary {right : Expr} {operator : Token} {sign : Host.PrefixOp} {operand : Host.Expr} :
      operator.prefixOp = .ok sign → LowersExpr right operand →
      LowersExpr (.unary operator right) (.prefixed sign operand)
  | name {name : Token} : LowersExpr (.variable name) (.name name.lexeme.text)

theorem Expr.lowersExpr {value : Expr} {lowered : Host.Expr} (given : value.lower = .ok lowered) :
    LowersExpr value lowered := by
  induction value generalizing lowered with
  | binary left operator right leftHypothesis rightHypothesis =>
    simp only [lower, bind_eq_ok] at given
    obtain ⟨sign, signGiven, left, leftGiven, right, rightGiven, same⟩ := given
    cases same
    exact .binary signGiven (leftHypothesis leftGiven) (rightHypothesis rightGiven)
  | grouping inner inductionHypothesis =>
    obtain ⟨inner, innerGiven, same⟩ := bind_eq_ok.mp given
    cases same
    exact .grouping (inductionHypothesis innerGiven)
  | literal value =>
    cases given
    exact .literal
  | unary operator right inductionHypothesis =>
    simp only [lower, bind_eq_ok] at given
    obtain ⟨sign, signGiven, operand, operandGiven, same⟩ := given
    cases same
    exact .unary signGiven (inductionHypothesis operandGiven)
  | «variable» name =>
    cases given
    exact .name

/-! ## Statements -/

/-- What statements do, and what the host statements that they are lowered to do. -/
inductive LowersAction : Action → Host.Action → Prop where
  | expression {value : Expr} {lowered : Host.Expr} : LowersExpr value lowered →
      LowersAction (.expression value) (.expression lowered)
  | print {value : Expr} {lowered : Host.Expr} : LowersExpr value lowered →
      LowersAction (.print value) (.expression (.invoke .write [lowered]))
  | declare {ty : Ty} {primitive : Host.Primitive} {name : Token} : ty.lower = .ok primitive →
      LowersAction (.declare ty name none) (.declare primitive name.lexeme.text none)
  | initialized {ty : Ty} {primitive : Host.Primitive} {name : Token} {value : Expr} {lowered : Host.Expr} :
      ty.lower = .ok primitive → LowersExpr value lowered →
      LowersAction (.declare ty name (some value)) (.declare primitive name.lexeme.text (some lowered))
  | assign {name : Token} {value : Expr} {lowered : Host.Expr} : LowersExpr value lowered →
      LowersAction (.assign name value) (.expression (.assign name.lexeme.text lowered))
  | blankLine : LowersAction .blankLine .empty

theorem Action.lowersAction {action : Action} {lowered : Host.Action} (given : action.lower = .ok lowered) :
    LowersAction action lowered := by
  cases action with
  | expression value =>
    obtain ⟨value, valueGiven, same⟩ := bind_eq_ok.mp given
    cases same
    exact .expression (Expr.lowersExpr valueGiven)
  | print value =>
    obtain ⟨value, valueGiven, same⟩ := bind_eq_ok.mp given
    cases same
    exact .print (Expr.lowersExpr valueGiven)
  | declare ty name initial =>
    cases initial with
    | none =>
      obtain ⟨primitive, typeGiven, same⟩ := bind_eq_ok.mp given
      cases same
      exact .declare typeGiven
    | some value =>
      obtain ⟨primitive, typeGiven, rest⟩ := bind_eq_ok.mp given
      obtain ⟨value, valueGiven, same⟩ := bind_eq_ok.mp rest
      cases same
      exact .initialized typeGiven (Expr.lowersExpr valueGiven)
  | assign name value =>
    obtain ⟨value, valueGiven, same⟩ := bind_eq_ok.mp given
    cases same
    exact .assign (Expr.lowersExpr valueGiven)
  | blankLine =>
    cases given
    exact .blankLine

/-- Statements and the host statements that they are lowered to. -/
def Lowers : List Stmt → List Host.Stmt → Prop :=
  List.Forall₂ fun statement lowered => statement.lower = .ok lowered

theorem lowers_of_lower {file : String} {statements : List Stmt} {program : Host.Program}
    (lowered : lower file statements = .ok program) : Lowers statements program.entry.body := by
  obtain ⟨body, mapped, same⟩ := bind_eq_ok.mp lowered
  cases same
  exact forall₂_of_mapM mapped

theorem Stmt.lowersAction {statement : Stmt} {lowered : Host.Stmt} (given : statement.lower = .ok lowered) :
    LowersAction statement.action lowered.action := by
  obtain ⟨done, actionGiven, same⟩ := bind_eq_ok.mp given
  cases same
  exact Action.lowersAction actionGiven

/-! ## Accepted scripts -/

/-- A host program is that of a script with which nothing is wrong. -/
theorem emit_eq_ok {text file : String} {program : Host.Program} (emitted : emit text file = .ok program) :
    let parsed := parse (scan ⟨file, 0⟩ text).tokens
    parsed.reports = [] ∧ lower file parsed.statements = .ok program := by
  obtain ⟨statements, read, mapped⟩ := bind_eq_ok.mp emitted
  simp only [frontEnd] at read
  split at read
  · cases read
  · split at read
    · cases read
    · next silent =>
      cases read
      refine ⟨by simpa using silent, ?_⟩
      cases lowered : lower file _ with
      | error fault => simp [lowered, Except.mapError] at mapped
      | ok other => simpa [lowered, Except.mapError] using mapped

end ScriptFrontend
