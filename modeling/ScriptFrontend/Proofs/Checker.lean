import ScriptFrontend.Parser.Report

/-! # Checking a tree

What is wrong with the variables of a program, said of its finished statements alone.  The parser finds
these faults while it reads; here they are found by walking over the tree.

* `declaredType?` — the type of a name after some statements.  The first declaration of a name counts.
* `Checker.action` — the faults of one statement, given the types of the names declared before it.
-/

namespace ScriptFrontend

/-! ## Declarations -/

/-- The type that a statement declares a name with, if it does. -/
def Stmt.declared? (statement : Stmt) (name : Symbol) : Option Ty :=
  match statement.action with
  | .declare ty declared _ => if declared.lexeme = name then some ty else none
  | .expression _ | .print _ | .assign .. | .blankLine => none

theorem Stmt.declare_of_declared? {statement : Stmt} {name : Symbol} {ty : Ty}
    (declares : statement.declared? name = some ty) :
    ∃ declared initial, statement.action = .declare ty declared initial ∧ declared.lexeme = name := by
  obtain ⟨done, origin⟩ := statement
  cases done with
  | declare other declared initial =>
    by_cases same : declared.lexeme = name
    · simp only [declared?, same, if_true, Option.some.injEq] at declares
      exact ⟨declared, initial, by rw [declares], same⟩
    · simp [declared?, same] at declares
  | expression _ | print _ | assign _ _ | blankLine => simp [declared?] at declares

/-- The type in the first declaration of a name. -/
def declaredType? (statements : List Stmt) (name : Symbol) : Option Ty :=
  statements.findSome? fun statement => statement.declared? name

theorem exists_of_declaredType? {statements : List Stmt} {name : Symbol} {ty : Ty}
    (found : declaredType? statements name = some ty) :
    ∃ statement ∈ statements, ∃ declared initial, statement.action = .declare ty declared initial ∧
      declared.lexeme = name := by
  obtain ⟨statement, member, declares⟩ := List.exists_of_findSome?_eq_some found
  exact ⟨statement, member, statement.declare_of_declared? declares⟩

theorem declaredType?_ne_none {statements : List Stmt} {statement : Stmt} (member : statement ∈ statements)
    {ty : Ty} {declared : Token} {initial : Option Expr}
    (declares : statement.action = .declare ty declared initial) :
    declaredType? statements declared.lexeme ≠ none := by
  intro missing
  have silent := List.findSome?_eq_none_iff.mp missing statement member
  simp [Stmt.declared?, declares] at silent

@[simp] theorem declaredType?_nil (name : Symbol) : declaredType? [] name = none := rfl

@[simp] theorem declaredType?_append (first second : List Stmt) (name : Symbol) :
    declaredType? (first ++ second) name = (declaredType? first name).or (declaredType? second name) := by
  simp [declaredType?, List.findSome?_append]

@[simp] theorem declaredType?_singleton (statement : Stmt) (name : Symbol) :
    declaredType? [statement] name = statement.declared? name := by
  cases found : statement.declared? name <;> simp [declaredType?, found]

/-! ## Faults -/

/-- The names in an expression, from left to right. -/
def Expr.uses : Expr → List Token
  | .binary left _ right => left.uses ++ right.uses
  | .grouping inner => inner.uses
  | .literal _ => []
  | .unary _ right => right.uses
  | .variable name => [name]

namespace Checker

variable (types : Symbol → Option Ty)

/-- One report for each of some names that is not declared. -/
def undefined (names : List Token) : List Report :=
  (names.filter fun name => (types name.lexeme).isNone).map fun name =>
    .binding (.undefined name.lexeme) name

/-- The type of a literal, or the declared type of a variable.  Nothing else has a known type. -/
def knownType : Expr → Ty
  | .literal value => value.ty
  | .variable name => (types name.lexeme).getD .void
  | .binary .. | .grouping _ | .unary .. => .void

/-- An initial value has the declared type, or one that is not known. -/
def initial (ty : Ty) (name : Token) (value : Expr) : List Report :=
  let assigned := knownType types value
  if assigned ≠ .void ∧ assigned ≠ ty then
    [.binding (.initializerMismatch name.lexeme ty assigned) name]
  else []

/-- A name is declared once. -/
def redeclared (name : Token) : List Report :=
  match types name.lexeme with
  | some first => [.binding (.alreadyDefined name.lexeme first) name]
  | none => []

/-- What is assigned has the declared type of the target. -/
def assigned (name : Token) (value : Expr) : List Report :=
  match types name.lexeme with
  | none => [.binding (.undefined name.lexeme) name]
  | some declared =>
    let assigned := knownType types value
    if assigned = declared then [] else [.binding (.mismatch name.lexeme declared assigned) name]

/-- The faults of a statement, in the order in which they are reported. -/
def action : Action → List Report
  | .expression value | .print value => undefined types value.uses
  | .declare _ name none => redeclared types name
  | .declare ty name (some value) =>
    undefined types value.uses ++ initial types ty name value ++ redeclared types name
  | .assign name value => undefined types value.uses ++ assigned types name value
  | .blankLine => []

variable {types}

@[simp] theorem undefined_nil : undefined types [] = [] := rfl

@[simp] theorem undefined_append (first second : List Token) :
    undefined types (first ++ second) = undefined types first ++ undefined types second := by
  simp [undefined]

end Checker

/-! ## What the faults are about -/

/-- The names that a statement declares, assigns to or uses. -/
def Action.names : Action → List Token
  | .expression value | .print value => value.uses
  | .declare _ name none => [name]
  | .declare _ name (some value) => name :: value.uses
  | .assign name value => name :: value.uses
  | .blankLine => []

theorem Action.mem_names_declare (ty : Ty) (name : Token) (value : Option Expr) :
    name ∈ (Action.declare ty name value).names := by
  cases value <;> simp [names]

/-- Reports that complain of some names and of nothing else. -/
def About (names : List Token) (reports : List Report) : Prop :=
  ∀ report ∈ reports, ∃ error, ∃ name ∈ names, report = .binding error name

theorem about_append {names : List Token} {first second : List Report} :
    About names (first ++ second) ↔ About names first ∧ About names second :=
  List.forall_mem_append

theorem About.mono {names more : List Token} {reports : List Report} (about : About names reports)
    (within : ∀ name ∈ names, name ∈ more) : About more reports := by
  intro report member
  obtain ⟨error, name, inside, rfl⟩ := about report member
  exact ⟨error, name, within name inside, rfl⟩

open Checker

variable {types : Symbol → Option Ty}

theorem undefined_about (names : List Token) : About names (undefined types names) := by
  intro report member
  simp only [undefined, List.mem_map, List.mem_filter] at member
  obtain ⟨name, ⟨inside, -⟩, rfl⟩ := member
  exact ⟨_, name, inside, rfl⟩

theorem about_singleton {names : List Token} {name : Token} (error : BindingError) (inside : name ∈ names) :
    About names [.binding error name] := by
  intro report member
  obtain rfl := List.mem_singleton.mp member
  exact ⟨error, name, inside, rfl⟩

theorem about_nil (names : List Token) : About names [] := by
  intro report member
  cases member

theorem initial_about (ty : Ty) (name : Token) (value : Expr) : About [name] (initial types ty name value) := by
  unfold initial
  dsimp only
  split
  · exact about_singleton _ (.head _)
  · exact about_nil _

theorem redeclared_about (name : Token) : About [name] (redeclared types name) := by
  unfold redeclared
  split
  · exact about_singleton _ (.head _)
  · exact about_nil _

theorem assigned_about (name : Token) (value : Expr) : About [name] (assigned types name value) := by
  unfold assigned
  split
  · exact about_singleton _ (.head _)
  · dsimp only
    split
    · exact about_nil _
    · exact about_singleton _ (.head _)

/-- The checker complains only of names that stand in the statement. -/
theorem action_about (done : Action) : About done.names (Checker.action types done) := by
  cases done with
  | expression value | print value => exact undefined_about value.uses
  | declare ty name value =>
    cases value with
    | none => exact redeclared_about name
    | some value =>
      have target : ∀ other ∈ [name], other ∈ name :: value.uses := by simp
      refine about_append.mpr ⟨about_append.mpr ⟨?_, ?_⟩, ?_⟩
      · exact (undefined_about value.uses).mono fun _ => .tail _
      · exact (initial_about ty name value).mono target
      · exact (redeclared_about name).mono target
  | assign name value =>
    refine about_append.mpr ⟨?_, ?_⟩
    · exact (undefined_about value.uses).mono fun _ => .tail _
    · exact (assigned_about name value).mono (by simp [Action.names])
  | blankLine => exact about_nil _

end ScriptFrontend
