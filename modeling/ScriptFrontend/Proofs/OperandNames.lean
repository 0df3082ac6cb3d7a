import ScriptFrontend.Proofs.ParserLedger
import ScriptFrontend.Proofs.ParserSoundness

/-! # Names among tokens

Which names a statement uses can be seen from its tokens, also when it was given up in the middle: all
of them, except the one that it declares or assigns to (`operandNames`).  These are the names that the
trees and the frames hold (`Derives.uses`, `Reading.operands`).
-/

namespace ScriptFrontend

open Grammar

def Token.isName (token : Token) : Bool :=
  match token.kind with
  | .identifier _ => true
  | _ => false

theorem isName_iff {token : Token} : token.isName = true ↔ IsName token := by
  simp only [Token.isName, IsName]
  split
  · next text kind => simp [kind]
  · next other => simpa using other

theorem isName_of_kind {token : Token} {kind : TokenKind} (same : token.kind = kind)
    (other : ∀ text, kind ≠ .identifier text) : token.isName = false := by
  rw [Bool.eq_false_iff, Ne, isName_iff]
  rintro ⟨text, named⟩
  exact other text (same.symm.trans named)

def typeKinds : List TokenKind :=
  [.keyword .kwInt, .keyword .kwDouble, .keyword .kwString, .keyword .kwBool]

theorem mem_typeKinds {ty : Ty} {kind : TokenKind} (named : typeKind? ty = some kind) : kind ∈ typeKinds := by
  cases ty <;> simp [typeKind?] at named <;> simp [← named, typeKinds]

/-- The tokens of a statement, or of the beginning of one, after the name that it declares or assigns
    to. -/
def afterTarget : List Token → List Token
  | [] => []
  | first :: rest =>
    if first.kind ∈ typeKinds then rest.tail
    else if first.isName ∧ rest.head?.map Token.kind = some (.mark .equal) then rest
    else first :: rest

/-- The names that are operands among the tokens of a statement, or of the beginning of one. -/
def operandNames (read : List Token) : List Token := (afterTarget read).filter Token.isName

/-- Tokens that begin no declaration and no assignment: what is read of a statement that is an
    expression. -/
def Unopened (read : List Token) : Prop :=
  ∀ token ∈ read, token.kind ∉ typeKinds ∧ token.kind ≠ .mark .equal

theorem operandNames_of_unopened {read : List Token} (unopened : Unopened read) :
    operandNames read = read.filter Token.isName := by
  cases read with
  | nil => rfl
  | cons first rest =>
    have untyped := (unopened first (.head _)).1
    have notAssigned : ¬(first.isName = true ∧ rest.head?.map Token.kind = some (.mark .equal)) := by
      rintro ⟨-, assigned⟩
      obtain ⟨equals, next, kind⟩ := Option.map_eq_some_iff.mp assigned
      exact (unopened equals (.tail _ (List.mem_of_mem_head? next))).2 kind
    rw [operandNames, afterTarget, if_neg untyped, if_neg notAssigned]

theorem unopened_append {first second : List Token} :
    Unopened (first ++ second) ↔ Unopened first ∧ Unopened second :=
  List.forall_mem_append

theorem unopened_cons {token : Token} {rest : List Token} :
    Unopened (token :: rest) ↔ Unopened [token] ∧ Unopened rest :=
  @unopened_append [token] rest

theorem unopened_singleton {token : Token} {kind : TokenKind} (same : token.kind = kind)
    (other : kind ∉ .mark .equal :: typeKinds) : Unopened [token] := by
  intro member inside
  obtain rfl := List.mem_singleton.mp inside
  rw [same]
  exact ⟨fun type => other (.tail _ type), fun equal => other (equal ▸ .head _)⟩

theorem unopened_operator {token : Token} {tier : Nat} (found : binaryTier? token.kind = some tier) :
    Unopened [token] ∧ token.isName = false := by
  generalize same : token.kind = kind at found
  refine ⟨unopened_singleton same ?_, isName_of_kind same ?_⟩
  · intro outside
    simp only [typeKinds, List.mem_cons, List.not_mem_nil, or_false] at outside
    rcases outside with rfl | rfl | rfl | rfl | rfl <;> cases found
  · rintro text rfl
    cases found

theorem unopened_sign {token : Token} (sign : IsSign token.kind) :
    Unopened [token] ∧ token.isName = false := by
  rcases sign with kind | kind
  · exact ⟨unopened_singleton kind (by decide), isName_of_kind kind (by simp)⟩
  · exact ⟨unopened_singleton kind (by decide), isName_of_kind kind (by simp)⟩

theorem unopened_mark {token : Token} {mark : Mark} (kind : token.kind = .mark mark)
    (other : mark ≠ .equal) : Unopened [token] ∧ token.isName = false :=
  ⟨unopened_singleton kind (by simpa [typeKinds] using other), isName_of_kind kind (by simp)⟩

/-- The names in the tokens of an expression are those in its tree, in the same order. -/
theorem Grammar.Derives.uses {tier : Nat} {tokens : List Token} {value : Expr}
    (derived : Derives tier tokens value) : Unopened tokens ∧ value.uses = tokens.filter Token.isName := by
  induction derived with
  | tighter _ inductionHypothesis => exact inductionHypothesis
  | @binary _ operator _ _ _ _ found _ _ leftHypothesis rightHypothesis =>
    obtain ⟨unopened, notName⟩ := unopened_operator found
    refine ⟨unopened_append.mpr ⟨leftHypothesis.1, ?_⟩, ?_⟩
    · exact unopened_cons.mpr ⟨unopened, rightHypothesis.1⟩
    · simp [Expr.uses, leftHypothesis.2, rightHypothesis.2, notName]
  | @unary operator _ _ sign _ inductionHypothesis =>
    obtain ⟨unopened, notName⟩ := unopened_sign sign
    refine ⟨unopened_cons.mpr ⟨unopened, inductionHypothesis.1⟩, ?_⟩
    simp [Expr.uses, inductionHypothesis.2, notName]
  | @literal token value kind =>
    refine ⟨unopened_singleton kind ?_, ?_⟩
    · rcases value with _ | _ | _ | _ | (_ | _) <;> simp [literalKind, typeKinds]
    · have notName : token.isName = false := by
        apply isName_of_kind kind
        rcases value with _ | _ | _ | _ | (_ | _) <;> simp [literalKind]
      simp [Expr.uses, notName]
  | name named =>
    obtain ⟨text, kind⟩ := named
    refine ⟨unopened_singleton kind (by simp [typeKinds]), ?_⟩
    simp [Expr.uses, isName_iff.mpr ⟨text, kind⟩]
  | @grouping opening closing _ _ opens _ closes inductionHypothesis =>
    obtain ⟨unopenedLeft, notNameLeft⟩ := unopened_mark opens (by simp)
    obtain ⟨unopenedRight, notNameRight⟩ := unopened_mark closes (by simp)
    refine ⟨unopened_cons.mpr ⟨unopenedLeft, ?_⟩, ?_⟩
    · exact unopened_append.mpr ⟨inductionHypothesis.1, unopenedRight⟩
    · simp [Expr.uses, inductionHypothesis.2, notNameLeft, notNameRight]

theorem Awaits.uses {frames : List Frame} {tier : Nat} {tokens : List Token}
    (awaits : Awaits frames tier tokens) : Unopened tokens ∧ usesOf frames = tokens.filter Token.isName := by
  induction awaits with
  | nil => exact ⟨by simp [Unopened], rfl⟩
  | group _ opens inductionHypothesis =>
    obtain ⟨unopened, notName⟩ := unopened_mark opens (by simp)
    exact ⟨unopened_append.mpr ⟨inductionHypothesis.1, unopened⟩,
      by simp [usesOf, Frame.uses, inductionHypothesis.2, notName]⟩
  | unary _ sign inductionHypothesis =>
    obtain ⟨unopened, notName⟩ := unopened_sign sign
    exact ⟨unopened_append.mpr ⟨inductionHypothesis.1, unopened⟩,
      by simp [usesOf, Frame.uses, inductionHypothesis.2, notName]⟩
  | binary _ _ found derived inductionHypothesis =>
    obtain ⟨unopened, notName⟩ := unopened_operator found
    obtain ⟨unopenedLeft, uses⟩ := derived.uses
    refine ⟨unopened_append.mpr ⟨unopened_append.mpr ⟨inductionHypothesis.1, unopenedLeft⟩, unopened⟩, ?_⟩
    simp [usesOf, Frame.uses, inductionHypothesis.2, uses, notName]

theorem Opening.operandNames {goal : Goal} {opening tokens : List Token} (opened : Opening goal opening)
    (unopened : Unopened tokens) : operandNames (opening ++ tokens) = tokens.filter Token.isName := by
  cases opened with
  | expression => exact operandNames_of_unopened unopened
  | @print keyword kind =>
    have notName : keyword.isName = false := isName_of_kind kind (by simp)
    have whole : Unopened ([keyword] ++ tokens) :=
      unopened_append.mpr ⟨unopened_singleton kind (by decide), unopened⟩
    rw [operandNames_of_unopened whole]
    simp [notName]
  | @declare type name equals ty typed named kind =>
    have notName : equals.isName = false := isName_of_kind kind (by simp)
    simp [ScriptFrontend.operandNames, afterTarget, mem_typeKinds typed, notName]
  | @assign name equals named kind =>
    have notName : equals.isName = false := isName_of_kind kind (by simp)
    have untyped : name.kind ∉ typeKinds := by
      obtain ⟨text, identifier⟩ := named
      simp [identifier, typeKinds]
    simp [ScriptFrontend.operandNames, afterTarget, untyped, isName_iff.mpr named, kind, notName]

/-- The names that a mode holds as operands are those among the tokens that were read. -/
theorem Reading.operands {origin : Origin} {mode : Mode} {read : List Token}
    (reading : Reading origin mode read) : mode.operands = operandNames read := by
  cases reading with
  | typed type => simp [Mode.operands, Mode.uses, operandNames, afterTarget, mem_typeKinds type]
  | named type _ => simp [Mode.operands, Mode.uses, operandNames, afterTarget, mem_typeKinds type]
  | @leading name named =>
    obtain ⟨text, kind⟩ := named
    have unopened : Unopened [name] := unopened_singleton kind (by simp [typeKinds])
    simp [Mode.operands, operandNames_of_unopened unopened, isName_iff.mpr ⟨text, kind⟩]
  | operand opened awaits =>
    rw [opened.operandNames awaits.uses.1]
    exact awaits.uses.2
  | operator opened awaits derived =>
    rw [List.append_assoc, opened.operandNames (unopened_append.mpr ⟨awaits.uses.1, derived.uses.1⟩)]
    simp [Mode.operands, Mode.uses, awaits.uses.2, derived.uses.2]

/-- The names of a statement are among the tokens that spell it, and are names there. -/
theorem Grammar.Spells.names {tokens : List Token} {done : Action} (spelled : Spells tokens done) :
    ∀ name ∈ done.names, name ∈ tokens ∧ IsName name := by
  have used : ∀ {part : List Token} {value : Expr}, Derives 1 part value →
      ∀ name ∈ value.uses, name ∈ part ∧ IsName name := by
    intro part value derived name inside
    rw [derived.uses.2, List.mem_filter, isName_iff] at inside
    exact inside
  intro name inside
  cases spelled with
  | expression derived _ | print _ derived _ =>
    obtain ⟨member, named⟩ := used derived name inside
    exact ⟨by simp [member], named⟩
  | declare _ named _ =>
    obtain rfl := List.mem_singleton.mp inside
    exact ⟨by simp, named⟩
  | initialized _ named _ derived _ | assign named _ derived _ =>
    cases List.mem_cons.mp inside with
    | inl same => exact ⟨by simp [same], same ▸ named⟩
    | inr inside =>
      obtain ⟨member, named⟩ := used derived name inside
      exact ⟨by simp [member], named⟩

end ScriptFrontend
