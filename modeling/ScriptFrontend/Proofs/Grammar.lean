import ScriptFrontend.Tree

/-! # The grammar of scripts

The language that the parser is meant to read, said without the parser.

* `Derives` — expressions, by tiers.  Tier 1 is equality, 2 comparison, 3 addition, 4 multiplication,
  5 modulus, 6 the prefix operators and 7 what binds by itself.  A binary operator has operands of its
  own tier on the left and of the next tier on the right, which makes it associate to the left.
* `Spells` — statements, each up to the semicolon that ends it.
* `Stratified` and `Flattens` — the same grammar from the side of the tree: a tree that keeps to the
  tiers, and the token lists that it can be written as.  `derives_iff` says that the two views agree.

Tokens that a tree does not keep are constrained by their kind alone.
-/

namespace ScriptFrontend.Grammar

/-! ## Token classes -/

def binaryTier? : TokenKind → Option Nat
  | .mark .equalEqual | .mark .notEqual => some 1
  | .mark .less | .mark .lessEqual | .mark .greater | .mark .greaterEqual => some 2
  | .mark .plus | .mark .minus => some 3
  | .mark .star | .mark .slash => some 4
  | .mark .percent => some 5
  | _ => none

def IsSign (kind : TokenKind) : Prop := kind = .mark .bang ∨ kind = .mark .minus

def IsName (token : Token) : Prop := ∃ text, token.kind = .identifier text

/-- The kind of token that writes a value. -/
def literalKind : Value → TokenKind
  | .nil => .keyword .kwNil
  | .int value => .integer value
  | .double value => .float value
  | .string value => .string value
  | .bool true => .keyword .kwTrue
  | .bool false => .keyword .kwFalse

/-- The kind of token that names the type of a declaration.  Nothing is declared `void`. -/
def typeKind? : Ty → Option TokenKind
  | .int => some (.keyword .kwInt)
  | .double => some (.keyword .kwDouble)
  | .string => some (.keyword .kwString)
  | .bool => some (.keyword .kwBool)
  | .void => none

/-! ## Expressions and statements -/

/-- The token lists that are expressions of a tier, with their trees. -/
inductive Derives : Nat → List Token → Expr → Prop where
  | tighter {tier : Nat} {tokens : List Token} {value : Expr} :
      Derives (tier + 1) tokens value → Derives tier tokens value
  | binary {tier : Nat} {operator : Token} {leftTokens rightTokens : List Token} {left right : Expr} :
      binaryTier? operator.kind = some tier → Derives tier leftTokens left →
      Derives (tier + 1) rightTokens right →
      Derives tier (leftTokens ++ operator :: rightTokens) (.binary left operator right)
  | unary {operator : Token} {tokens : List Token} {right : Expr} :
      IsSign operator.kind → Derives 6 tokens right →
      Derives 6 (operator :: tokens) (.unary operator right)
  | literal {token : Token} {value : Value} :
      token.kind = literalKind value → Derives 7 [token] (.literal value)
  | name {name : Token} : IsName name → Derives 7 [name] (.variable name)
  | grouping {opening closing : Token} {tokens : List Token} {inner : Expr} :
      opening.kind = .mark .openParen → Derives 1 tokens inner → closing.kind = .mark .closeParen →
      Derives 7 (opening :: (tokens ++ [closing])) (.grouping inner)

/-- The token lists that are statements, with what they do.  A blank line is not among them. -/
inductive Spells : List Token → Action → Prop where
  | expression {tokens : List Token} {value : Expr} {ending : Token} :
      Derives 1 tokens value → ending.kind = .mark .semicolon →
      Spells (tokens ++ [ending]) (.expression value)
  | print {keyword : Token} {tokens : List Token} {value : Expr} {ending : Token} :
      keyword.kind = .keyword .kwPrint → Derives 1 tokens value → ending.kind = .mark .semicolon →
      Spells (keyword :: (tokens ++ [ending])) (.print value)
  | declare {type name ending : Token} {ty : Ty} :
      typeKind? ty = some type.kind → IsName name → ending.kind = .mark .semicolon →
      Spells [type, name, ending] (.declare ty name none)
  | initialized {type name equals : Token} {ty : Ty} {tokens : List Token} {value : Expr} {ending : Token} :
      typeKind? ty = some type.kind → IsName name → equals.kind = .mark .equal →
      Derives 1 tokens value → ending.kind = .mark .semicolon →
      Spells (type :: name :: equals :: (tokens ++ [ending])) (.declare ty name (some value))
  | assign {name equals : Token} {tokens : List Token} {value : Expr} {ending : Token} :
      IsName name → equals.kind = .mark .equal → Derives 1 tokens value →
      ending.kind = .mark .semicolon →
      Spells (name :: equals :: (tokens ++ [ending])) (.assign name value)

/-! ## The view from the tree -/

/-- The trees that an expression of a tier can have: every operator belongs to a tier at least as
    tight, and its operands bind tightly enough to need no parentheses. -/
def Stratified (tier : Nat) : Expr → Prop
  | .binary left operator right =>
    ∃ level, binaryTier? operator.kind = some level ∧ tier ≤ level ∧
      Stratified level left ∧ Stratified (level + 1) right
  | .unary operator right => IsSign operator.kind ∧ tier ≤ 6 ∧ Stratified 6 right
  | .literal _ => tier ≤ 7
  | .variable name => IsName name ∧ tier ≤ 7
  | .grouping inner => tier ≤ 7 ∧ Stratified 1 inner

/-- The token lists that a tree is written as, in order and with nothing added. -/
inductive Flattens : Expr → List Token → Prop where
  | binary {left right : Expr} {leftTokens rightTokens : List Token} (operator : Token) :
      Flattens left leftTokens → Flattens right rightTokens →
      Flattens (.binary left operator right) (leftTokens ++ operator :: rightTokens)
  | unary {right : Expr} {tokens : List Token} (operator : Token) :
      Flattens right tokens → Flattens (.unary operator right) (operator :: tokens)
  | literal {token : Token} {value : Value} :
      token.kind = literalKind value → Flattens (.literal value) [token]
  | name (name : Token) : Flattens (.variable name) [name]
  | grouping {opening closing : Token} {tokens : List Token} {inner : Expr} :
      opening.kind = .mark .openParen → Flattens inner tokens → closing.kind = .mark .closeParen →
      Flattens (.grouping inner) (opening :: (tokens ++ [closing]))

/-- The statements whose parts are all in their place: names are names, variables have a type, and
    expressions are stratified. -/
def StratifiedAction : Action → Prop
  | .expression value | .print value => Stratified 1 value
  | .declare ty name initial => ty ≠ .void ∧ IsName name ∧ ∀ value ∈ initial, Stratified 1 value
  | .assign name value => IsName name ∧ Stratified 1 value
  | .blankLine => True

inductive FlattensAction : Action → List Token → Prop where
  | expression {value : Expr} {tokens : List Token} {ending : Token} :
      Flattens value tokens → ending.kind = .mark .semicolon →
      FlattensAction (.expression value) (tokens ++ [ending])
  | print {keyword : Token} {value : Expr} {tokens : List Token} {ending : Token} :
      keyword.kind = .keyword .kwPrint → Flattens value tokens → ending.kind = .mark .semicolon →
      FlattensAction (.print value) (keyword :: (tokens ++ [ending]))
  | declare {type ending : Token} {ty : Ty} (name : Token) :
      typeKind? ty = some type.kind → ending.kind = .mark .semicolon →
      FlattensAction (.declare ty name none) [type, name, ending]
  | initialized {type equals : Token} {ty : Ty} {value : Expr} {tokens : List Token} {ending : Token}
      (name : Token) :
      typeKind? ty = some type.kind → equals.kind = .mark .equal → Flattens value tokens →
      ending.kind = .mark .semicolon →
      FlattensAction (.declare ty name (some value)) (type :: name :: equals :: (tokens ++ [ending]))
  | assign {equals : Token} {value : Expr} {tokens : List Token} {ending : Token} (name : Token) :
      equals.kind = .mark .equal → Flattens value tokens → ending.kind = .mark .semicolon →
      FlattensAction (.assign name value) (name :: equals :: (tokens ++ [ending]))
  | blankLine {line : Token} : line.kind = .blankLine → FlattensAction .blankLine [line]

/-- The token lists that a program is written as.  A statement stands where its first token does. -/
inductive FlattensProgram : List Stmt → List Token → Prop where
  | nil : FlattensProgram [] []
  | cons {statement : Stmt} {statements : List Stmt} {first : Token} {others rest : List Token} :
      FlattensAction statement.action (first :: others) → statement.origin = first.origin →
      FlattensProgram statements rest →
      FlattensProgram (statement :: statements) (first :: (others ++ rest))

/-! ## Facts about derivations -/

theorem Derives.loosen {tier looser : Nat} {tokens : List Token} {value : Expr}
    (derived : Derives tier tokens value) (le : looser ≤ tier) : Derives looser tokens value := by
  induction tier with
  | zero =>
    obtain rfl : looser = 0 := by omega
    exact derived
  | succ tier inductionHypothesis =>
    by_cases same : looser = tier + 1
    · subst same
      exact derived
    · exact inductionHypothesis derived.tighter (by omega)

theorem Stratified.loosen {tier looser : Nat} {value : Expr}
    (stratified : Stratified tier value) (le : looser ≤ tier) : Stratified looser value := by
  cases value with
  | binary left operator right =>
    obtain ⟨level, found, bound, operands⟩ := stratified
    exact ⟨level, found, by omega, operands⟩
  | unary operator right => exact ⟨stratified.1, by have := stratified.2.1; omega, stratified.2.2⟩
  | literal value => exact Nat.le_trans le stratified
  | «variable» name => exact ⟨stratified.1, by have := stratified.2; omega⟩
  | grouping inner => exact ⟨by have := stratified.1; omega, stratified.2⟩

theorem Derives.stratified {tier : Nat} {tokens : List Token} {value : Expr}
    (derived : Derives tier tokens value) : Stratified tier value := by
  induction derived with
  | tighter _ inductionHypothesis => exact inductionHypothesis.loosen (by omega)
  | binary found _ _ leftHypothesis rightHypothesis =>
    exact ⟨_, found, Nat.le_refl _, leftHypothesis, rightHypothesis⟩
  | unary sign _ inductionHypothesis => exact ⟨sign, Nat.le_refl _, inductionHypothesis⟩
  | literal _ => exact Nat.le_refl 7
  | name named => exact ⟨named, Nat.le_refl 7⟩
  | grouping _ _ _ inductionHypothesis => exact ⟨Nat.le_refl 7, inductionHypothesis⟩

theorem Derives.flattens {tier : Nat} {tokens : List Token} {value : Expr}
    (derived : Derives tier tokens value) : Flattens value tokens := by
  induction derived with
  | tighter _ inductionHypothesis => exact inductionHypothesis
  | binary _ _ _ leftHypothesis rightHypothesis => exact .binary _ leftHypothesis rightHypothesis
  | unary _ _ inductionHypothesis => exact .unary _ inductionHypothesis
  | literal kind => exact .literal kind
  | name _ => exact .name _
  | grouping opening _ closing inductionHypothesis => exact .grouping opening inductionHypothesis closing

/-- A tree that keeps to the tiers is derived from every token list that writes it. -/
theorem derives_of_flattens {value : Expr} {tokens : List Token} (flattens : Flattens value tokens)
    {tier : Nat} (stratified : Stratified tier value) : Derives tier tokens value := by
  -- The tier is general: operands are stratified for the tiers of their operators.
  induction flattens generalizing tier with
  | binary operator _ _ leftHypothesis rightHypothesis =>
    obtain ⟨level, found, bound, left, right⟩ := stratified
    exact (Derives.binary found (leftHypothesis left) (rightHypothesis right)).loosen bound
  | unary operator _ inductionHypothesis =>
    obtain ⟨sign, bound, right⟩ := stratified
    exact (Derives.unary sign (inductionHypothesis right)).loosen bound
  | literal kind => exact (Derives.literal kind).loosen stratified
  | name name => exact (Derives.name stratified.1).loosen stratified.2
  | grouping opening _ closing inductionHypothesis =>
    exact (Derives.grouping opening (inductionHypothesis stratified.2) closing).loosen stratified.1

/-- The two views of the grammar agree. -/
theorem derives_iff {tier : Nat} {tokens : List Token} {value : Expr} :
    Derives tier tokens value ↔ Stratified tier value ∧ Flattens value tokens := by
  constructor
  · intro derived
    exact ⟨derived.stratified, derived.flattens⟩
  · rintro ⟨stratified, flattens⟩
    exact derives_of_flattens flattens stratified

def outsideExpressions : List TokenKind :=
  [.mark .equal, .mark .semicolon, .blankLine, .finish]

theorem outside_of_binaryTier? {kind : TokenKind} {tier : Nat} (found : binaryTier? kind = some tier) :
    kind ∉ outsideExpressions := by
  intro outside
  simp only [outsideExpressions, List.mem_cons, List.not_mem_nil, or_false] at outside
  rcases outside with rfl | rfl | rfl | rfl <;> cases found

/-- No token of an expression ends it or separates it from what surrounds it. -/
theorem Derives.inside {tier : Nat} {tokens : List Token} {value : Expr}
    (derived : Derives tier tokens value) : ∀ token ∈ tokens, token.kind ∉ outsideExpressions := by
  induction derived with
  | tighter _ inductionHypothesis => exact inductionHypothesis
  | binary found _ _ leftHypothesis rightHypothesis =>
    intro token member
    cases List.mem_append.mp member with
    | inl inLeft => exact leftHypothesis token inLeft
    | inr inRest =>
      cases inRest with
      | head => exact outside_of_binaryTier? found
      | tail _ inRight => exact rightHypothesis token inRight
  | unary sign _ inductionHypothesis =>
    intro token member
    cases member with
    | head => cases sign <;> simp_all [outsideExpressions]
    | tail _ inRight => exact inductionHypothesis token inRight
  | @literal literal value kind =>
    intro token member
    obtain rfl := List.mem_singleton.mp member
    rw [kind]
    rcases value with _ | _ | _ | _ | (_ | _) <;> simp [literalKind, outsideExpressions]
  | name named =>
    intro token member
    obtain rfl := List.mem_singleton.mp member
    obtain ⟨text, kind⟩ := named
    simp [kind, outsideExpressions]
  | grouping opening _ closing inductionHypothesis =>
    intro token member
    simp only [List.mem_cons, List.mem_append, List.not_mem_nil, or_false] at member
    rcases member with rfl | inInner | rfl
    · simp [opening, outsideExpressions]
    · exact inductionHypothesis token inInner
    · simp [closing, outsideExpressions]

/-- A statement that keeps to its grammar is spelled by every token list that writes it, unless it is
    a blank line. -/
theorem spells_of_flattensAction {action : Action} {tokens : List Token}
    (flattens : FlattensAction action tokens) (stratified : StratifiedAction action) :
    (action = .blankLine ∧ ∃ line, tokens = [line] ∧ line.kind = .blankLine) ∨ Spells tokens action := by
  cases flattens with
  | expression value ending => exact .inr (.expression (derives_of_flattens value stratified) ending)
  | print keyword value ending =>
    exact .inr (.print keyword (derives_of_flattens value stratified) ending)
  | declare name type ending => exact .inr (.declare type stratified.2.1 ending)
  | initialized name type equals value ending =>
    exact .inr (.initialized type stratified.2.1 equals
      (derives_of_flattens value (stratified.2.2 _ rfl)) ending)
  | assign name equals value ending =>
    exact .inr (.assign stratified.1 equals (derives_of_flattens value stratified.2) ending)
  | blankLine kind => exact .inl ⟨rfl, _, rfl, kind⟩

end ScriptFrontend.Grammar
