import ScriptFrontend.Parser
import ScriptFrontend.Proofs.Grammar

/-! # The parser's tables and the grammar

Facts that every argument about the parser uses:

* `binaryTier?_eq` and `value?_eq_some_iff` — the tables by which the parser classifies tokens are
  those of the grammar.
* `terminated_eq` — what the parser reads is what stands before the first end mark, and that mark.
* `OnlyBinding` — reports that cost no statement.  Completing a statement reports nothing else.
* `Opening` — what is read of a statement before its expression; with the expression and a semicolon
  it spells the statement (`Opening.spells`).
-/

namespace ScriptFrontend

open Grammar

/-! ## Tables -/

theorem binaryTier?_eq (kind : TokenKind) : binaryTier? kind = kind.level?.map Level.strength := by
  cases kind with
  | mark mark => cases mark <;> rfl
  | keyword _ | identifier _ | string _ | integer _ | float _ | blankLine | finish => rfl

theorem Level.strength_bounds (level : Level) : 1 ≤ level.strength ∧ level.strength ≤ 5 := by
  cases level <;> decide

theorem Level.strength_injective : Function.Injective Level.strength := by
  intro left right same
  cases left <;> cases right <;> simp_all [Level.strength]

theorem value?_eq_some_iff {kind : TokenKind} {value : Value} :
    kind.value? = some value ↔ kind = literalKind value := by
  constructor
  · intro found
    unfold TokenKind.value? at found
    split at found <;> cases found <;> rfl
  · rintro rfl
    rcases value with _ | _ | _ | _ | (_ | _) <;> rfl

/-! ## The end mark -/

def beforeFinish (tokens : List Token) : List Token :=
  tokens.takeWhile fun token => token.kind ≠ .finish

theorem goesOn_beforeFinish (tokens : List Token) :
    ∀ token ∈ beforeFinish tokens, token.kind ≠ .finish := by
  intro token member
  simpa using List.all_eq_true.mp List.all_takeWhile token member

theorem terminated_eq {tokens : List Token} (nonempty : tokens ≠ []) :
    ∃ stop : Token, stop.kind = .finish ∧ terminated tokens = beforeFinish tokens ++ [stop] := by
  have last := List.getLast?_eq_some_getLast nonempty
  simp only [terminated, last]
  refine ⟨_, ?_, rfl⟩
  cases present : tokens.find? fun token => token.kind = .finish with
  | none => rfl
  | some stop => simpa using List.find?_some present

theorem terminated_append_finish {tokens : List Token} (goesOn : ∀ token ∈ tokens, token.kind ≠ .finish)
    {stop : Token} (ends : stop.kind = .finish) : terminated (tokens ++ [stop]) = tokens ++ [stop] := by
  have before : (tokens ++ [stop]).takeWhile (fun token => token.kind ≠ .finish) = tokens := by
    rw [List.takeWhile_append_of_pos (by simpa using goesOn)]
    simp [ends]
  have found : (tokens ++ [stop]).find? (fun token => token.kind = .finish) = some stop := by
    rw [List.find?_append, List.find?_eq_none.mpr (by simpa using goesOn)]
    simp [ends]
  simp only [terminated, List.getLast?_append, List.getLast?_singleton, Option.some_or, before, found,
    Option.getD_some]

/-! ## Reports about variables -/

/-- Whether a report is about a variable, and not about a token that does not fit. -/
def Report.IsBinding : Report → Prop
  | .binding .. => True
  | .grammar .. => False

/-- Reports that are all about variables. -/
def OnlyBinding (reports : List Report) : Prop := ∀ report ∈ reports, report.IsBinding

@[simp] theorem onlyBinding_nil : OnlyBinding [] := by
  intro report member
  cases member

@[simp] theorem onlyBinding_append {first second : List Report} :
    OnlyBinding (first ++ second) ↔ OnlyBinding first ∧ OnlyBinding second := by
  simp only [OnlyBinding, List.mem_append, or_imp, forall_and]

@[simp] theorem onlyBinding_ofCheck {α : Type} (token : Token) (check : Except BindingError α) :
    OnlyBinding (Report.ofCheck token check) := by
  cases check <;> simp [Report.ofCheck, OnlyBinding, Report.IsBinding]

@[simp] theorem onlyBinding_checkUse (scope : Scope) (name : Token) :
    OnlyBinding (Parser.checkUse scope name) := by
  unfold Parser.checkUse
  split <;> simp [OnlyBinding, Report.IsBinding]

/-! ## Completing a statement -/

def Goal.action (goal : Goal) (value : Expr) : Action :=
  match goal with
  | .expression => .expression value
  | .print => .print value
  | .declare ty name => .declare ty name (some value)
  | .assign name => .assign name value

/-- What an outcome says when it gives one statement and complains of variables at most. -/
def Completes (outcome : ParserOutcome) (statement : Stmt) : Prop :=
  ∃ scope reports, outcome = ⟨⟨.start, scope⟩, [statement], reports⟩ ∧ OnlyBinding reports

theorem declare_completes (scope : Scope) (origin : Origin) (ty : Ty) (name : Token)
    (initial : Option Expr) :
    Completes (Parser.declare scope origin ty name initial) ⟨.declare ty name initial, origin⟩ := by
  refine ⟨_, _, rfl, ?_⟩
  cases initial <;> simp

theorem complete_completes (scope : Scope) (origin : Origin) (goal : Goal) (value : Expr) :
    Completes (Parser.complete scope origin goal value) ⟨goal.action value, origin⟩ := by
  cases goal with
  | expression => exact ⟨_, _, rfl, onlyBinding_nil⟩
  | print => exact ⟨_, _, rfl, onlyBinding_nil⟩
  | declare ty name => exact declare_completes scope origin ty name (some value)
  | assign name => exact ⟨_, _, rfl, onlyBinding_ofCheck _ _⟩

/-- The tokens of a statement before its expression. -/
inductive Opening : Goal → List Token → Prop where
  | expression : Opening .expression []
  | print {keyword : Token} : keyword.kind = .keyword .kwPrint → Opening .print [keyword]
  | declare {type name equals : Token} {ty : Ty} :
      typeKind? ty = some type.kind → IsName name → equals.kind = .mark .equal →
      Opening (.declare ty name) [type, name, equals]
  | assign {name equals : Token} :
      IsName name → equals.kind = .mark .equal → Opening (.assign name) [name, equals]

/-- An opening, an expression and a semicolon spell a statement. -/
theorem Opening.spells {goal : Goal} {opening tokens : List Token} {value : Expr} {ending : Token}
    (opened : Opening goal opening) (derived : Derives 1 tokens value)
    (ended : ending.kind = .mark .semicolon) :
    Spells (opening ++ tokens ++ [ending]) (goal.action value) := by
  cases opened with
  | expression => exact .expression derived ended
  | print keyword => exact .print keyword derived ended
  | declare type name equals => exact .initialized type name equals derived ended
  | assign name equals => exact .assign name equals derived ended

end ScriptFrontend
