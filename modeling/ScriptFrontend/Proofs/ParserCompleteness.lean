import ScriptFrontend.Proofs.ParserRules

/-! # Parsing undoes flattening

Every program of the grammar is accepted and comes back as it was written.

The parser does not build a node when its last token is read but when a later token shows that it is
complete, so after an expression some of it still lies on the stack.  `run_derives` says what that
means: collapsing the stack with any strength that the tier of the expression allows gives what
collapsing the whole tree would have given.  This needs the stack to be `Settled` before the
expression, that is, with nothing on it that would take a left operand away.
-/

namespace ScriptFrontend

open Grammar

/-! ## Runs that complete nothing -/

/-- Tokens that lead from one state to another without completing a statement or costing one. -/
def Passes (state : ParserState) (tokens : List Token) (after : ParserState) : Prop :=
  ∃ reports, Parser.run state tokens = ⟨after, [], reports⟩ ∧ OnlyBinding reports

theorem Passes.append {first second third : ParserState} {left right : List Token}
    (earlier : Passes first left second) (later : Passes second right third) :
    Passes first (left ++ right) third := by
  obtain ⟨before, ran, binding⟩ := earlier
  obtain ⟨after, ranOn, bindingLater⟩ := later
  refine ⟨before ++ after, ?_, onlyBinding_append.mpr ⟨binding, bindingLater⟩⟩
  rw [Parser.run_append, ran, ranOn]
  rfl

theorem passes_token {state after : ParserState} {token : Token} {reports : List Report}
    (notBlank : token.kind ≠ .blankLine) (binding : OnlyBinding reports)
    (taken : Parser.takeToken state token = ⟨after, [], reports⟩) : Passes state [token] after := by
  refine ⟨reports, ?_, binding⟩
  simp [Parser.run, Parser.step, notBlank, taken]

/-! ## Expressions -/

/-- Frames under which an expression of a tier is read whole: nothing on top binds its operands more
    tightly than its own operators do. -/
def Settled (tier : Nat) : List Frame → Prop
  | .binary _ _ level :: _ => level.strength < tier
  | .unary _ :: _ => 6 ≤ tier
  | .group :: _ | [] => True

theorem Settled.tighten {tier tighter : Nat} {frames : List Frame} (settled : Settled tier frames)
    (le : tier ≤ tighter) : Settled tighter frames := by
  rcases frames with _ | ⟨(⟨_, _, _⟩ | _ | _), _⟩ <;> simp only [Settled] at settled ⊢ <;> omega

theorem Settled.collapse {level : Level} {frames : List Frame}
    (settled : Settled level.strength frames) (operand : Expr) :
    Frame.collapse level.strength operand frames = (operand, frames) := by
  have bounds := level.strength_bounds
  cases frames with
  | nil => rfl
  | cons frame frames =>
    cases frame with
    | binary left operator other => simp only [Frame.collapse, Nat.not_le.mpr settled, if_false]
    | unary operator => simp only [Settled] at settled; omega
    | group => rfl

/-- What it means that tokens are read as an expression of a tier wherever an operand is due: what they
    leave on the stack collapses as the expression itself would. -/
def ReadsAs (tier : Nat) (tokens : List Token) (value : Expr) : Prop :=
  ∀ scope origin goal frames, Settled tier frames →
    ∃ stack operand,
      Passes ⟨.operand origin goal frames, scope⟩ tokens ⟨.operator origin goal stack operand, scope⟩ ∧
      ∀ strength ≤ tier, Frame.collapse strength operand stack = Frame.collapse strength value frames

theorem readsAs_operand {token : Token} {value : Expr} (notBlank : token.kind ≠ .blankLine)
    (taken : ∀ scope origin goal frames, ∃ reports, OnlyBinding reports ∧
      Parser.takeOperand scope origin goal frames token =
        ⟨⟨.operator origin goal frames value, scope⟩, [], reports⟩) :
    ReadsAs 7 [token] value := by
  intro scope origin goal frames _
  obtain ⟨reports, binding, taken⟩ := taken scope origin goal frames
  exact ⟨frames, value, passes_token notBlank binding taken, fun _ _ => rfl⟩

theorem readsAs_unary {operator : Token} {tokens : List Token} {right : Expr}
    (sign : IsSign operator.kind) (reads : ReadsAs 6 tokens right) :
    ReadsAs 6 (operator :: tokens) (.unary operator right) := by
  intro scope origin goal frames _
  obtain ⟨stack, operand, passes, collapses⟩ :=
    reads scope origin goal (.unary operator :: frames) (Nat.le_refl 6)
  have begun : Passes ⟨.operand origin goal frames, scope⟩ [operator]
      ⟨.operand origin goal (.unary operator :: frames), scope⟩ := by
    refine passes_token ?_ onlyBinding_nil ?_
    · rcases sign with kind | kind <;> simp [kind]
    · rcases sign with kind | kind <;>
        simp [Parser.takeToken, Parser.takeOperand, kind, TokenKind.value?, Parser.goOn]
  refine ⟨stack, operand, begun.append passes, ?_⟩
  intro strength le
  exact collapses strength le

theorem readsAs_binary {level : Level} {operator : Token} {leftTokens rightTokens : List Token}
    {left right : Expr} (found : operator.kind.level? = some level)
    (readsLeft : ReadsAs level.strength leftTokens left)
    (readsRight : ReadsAs (level.strength + 1) rightTokens right) :
    ReadsAs level.strength (leftTokens ++ operator :: rightTokens) (.binary left operator right) := by
  intro scope origin goal frames settled
  obtain ⟨stack, operand, passesLeft, collapsesLeft⟩ := readsLeft scope origin goal frames settled
  obtain ⟨rightStack, rightOperand, passesRight, collapsesRight⟩ :=
    readsRight scope origin goal (.binary left operator level :: frames) (Nat.lt_succ_self _)
  have notBlank : operator.kind ≠ .blankLine := by
    intro blank
    simp [blank, TokenKind.level?] at found
  have shifted : Passes ⟨.operator origin goal stack operand, scope⟩ [operator]
      ⟨.operand origin goal (.binary left operator level :: frames), scope⟩ := by
    refine passes_token notBlank onlyBinding_nil ?_
    have collapsed : Frame.collapse level.strength operand stack = (left, frames) := by
      rw [collapsesLeft _ (Nat.le_refl _), settled.collapse left]
    simp [Parser.takeToken, Parser.takeOperator, found, collapsed, Parser.goOn]
  -- Weaker collapses go through the right operand, the operator and the left one.
  refine ⟨rightStack, rightOperand, passesLeft.append (shifted.append passesRight), ?_⟩
  intro strength le
  rw [collapsesRight strength (by omega)]
  simp only [Frame.collapse, le, if_true]

theorem readsAs_grouping {opening closing : Token} {tokens : List Token} {inner : Expr}
    (opens : opening.kind = .mark .openParen) (reads : ReadsAs 1 tokens inner)
    (closes : closing.kind = .mark .closeParen) :
    ReadsAs 7 (opening :: (tokens ++ [closing])) (.grouping inner) := by
  intro scope origin goal frames _
  obtain ⟨stack, operand, passes, collapses⟩ := reads scope origin goal (.group :: frames) trivial
  have begun : Passes ⟨.operand origin goal frames, scope⟩ [opening]
      ⟨.operand origin goal (.group :: frames), scope⟩ :=
    passes_token (by simp [opens]) onlyBinding_nil
      (by simp [Parser.takeToken, Parser.takeOperand, opens, TokenKind.value?, Parser.goOn])
  have ended : Passes ⟨.operator origin goal stack operand, scope⟩ [closing]
      ⟨.operator origin goal frames (.grouping inner), scope⟩ := by
    refine passes_token (by simp [closes]) onlyBinding_nil ?_
    have collapsed : Frame.collapse 0 operand stack = (inner, .group :: frames) :=
      collapses 0 (by omega)
    simp [Parser.takeToken, Parser.takeOperator, closes, TokenKind.level?, Mark.level?, collapsed,
      Parser.goOn]
  exact ⟨frames, .grouping inner, begun.append (passes.append ended), fun _ _ => rfl⟩

/-- Every expression of the grammar is read as its tree. -/
theorem Grammar.Derives.readsAs {tier : Nat} {tokens : List Token} {value : Expr}
    (derived : Derives tier tokens value) : ReadsAs tier tokens value := by
  induction derived with
  | tighter _ inductionHypothesis =>
    intro scope origin goal frames settled
    obtain ⟨stack, operand, passes, collapses⟩ :=
      inductionHypothesis scope origin goal frames (settled.tighten (Nat.le_succ _))
    exact ⟨stack, operand, passes, fun strength le => collapses strength (Nat.le_succ_of_le le)⟩
  | binary found _ _ leftHypothesis rightHypothesis =>
    rw [binaryTier?_eq, Option.map_eq_some_iff] at found
    obtain ⟨level, found, rfl⟩ := found
    exact readsAs_binary found leftHypothesis rightHypothesis
  | unary sign _ inductionHypothesis => exact readsAs_unary sign inductionHypothesis
  | literal kind =>
    have found := value?_eq_some_iff.mpr kind
    refine readsAs_operand ?_ ?_
    · intro blank
      simp [blank, TokenKind.value?] at found
    · intro scope origin goal frames
      exact ⟨[], onlyBinding_nil, by simp [Parser.takeOperand, found, Parser.goOn]⟩
  | @name name named =>
    obtain ⟨text, kind⟩ := named
    refine readsAs_operand (by simp [kind]) ?_
    intro scope origin goal frames
    exact ⟨_, onlyBinding_checkUse scope name, by simp [Parser.takeOperand, kind, TokenKind.value?]⟩
  | grouping opens _ closes inductionHypothesis => exact readsAs_grouping opens inductionHypothesis closes

/-! ## Statements -/

theorem Passes.completes {state after : ParserState} {left right : List Token} {statement : Stmt}
    (passes : Passes state left after) (completes : Completes (Parser.run after right) statement) :
    Completes (Parser.run state (left ++ right)) statement := by
  obtain ⟨before, ran, binding⟩ := passes
  obtain ⟨scope, reports, completed, later⟩ := completes
  rw [Parser.run_append, ran, completed]
  exact ⟨scope, before ++ reports, rfl, onlyBinding_append.mpr ⟨binding, later⟩⟩

theorem run_operand_completes {tokens : List Token} {value : Expr} {ending : Token}
    (derived : Derives 1 tokens value) (ended : ending.kind = .mark .semicolon) (scope : Scope)
    (origin : Origin) (goal : Goal) :
    Completes (Parser.run ⟨.operand origin goal [], scope⟩ (tokens ++ [ending]))
      ⟨goal.action value, origin⟩ := by
  obtain ⟨stack, operand, passes, collapses⟩ := derived.readsAs scope origin goal [] trivial
  apply passes.completes
  have collapsed : Frame.collapse 0 operand stack = (value, []) := collapses 0 (by omega)
  have taken : Parser.run ⟨.operator origin goal stack operand, scope⟩ [ending] =
      Parser.complete scope origin goal value := by
    simp [Parser.run, Parser.step, Parser.takeToken, Parser.takeOperator, ended, TokenKind.level?,
      Mark.level?, collapsed]
  rw [taken]
  exact complete_completes scope origin goal value

theorem Grammar.Derives.head {tier : Nat} {tokens : List Token} {value : Expr}
    (derived : Derives tier tokens value) :
    ∃ first others, tokens = first :: others ∧
      (IsName first ∨ (∃ literal, first.kind = literalKind literal) ∨ IsSign first.kind ∨
        first.kind = .mark .openParen) := by
  induction derived with
  | tighter _ inductionHypothesis => exact inductionHypothesis
  | binary _ _ _ leftHypothesis _ =>
    obtain ⟨first, others, rfl, kind⟩ := leftHypothesis
    exact ⟨first, _, rfl, kind⟩
  | unary sign _ _ => exact ⟨_, _, rfl, .inr (.inr (.inl sign))⟩
  | literal kind => exact ⟨_, _, rfl, .inr (.inl ⟨_, kind⟩)⟩
  | name named => exact ⟨_, _, rfl, .inl named⟩
  | grouping opens _ _ _ => exact ⟨_, _, rfl, .inr (.inr (.inr opens))⟩

/-- At the beginning of a statement, a token that is no name and begins an expression is taken as an
    operand. -/
theorem begin_eq_takeOperand {token : Token} (scope : Scope)
    (kind : (∃ literal, token.kind = literalKind literal) ∨ IsSign token.kind ∨
      token.kind = .mark .openParen) :
    Parser.begin scope token = Parser.takeOperand scope token.origin .expression [] token := by
  rcases kind with ⟨literal, kind⟩ | (kind | kind) | kind
  · rcases literal with _ | _ | _ | _ | (_ | _) <;> simp [Parser.begin, kind, literalKind]
  all_goals simp [Parser.begin, kind]

/-- A name at the beginning of a statement that no equals sign follows is an operand, only that this
    shows one token later. -/
theorem run_start_name {name next : Token} (named : IsName name) (notBlank : next.kind ≠ .blankLine)
    (notEqual : next.kind ≠ .mark .equal) (scope : Scope) (rest : List Token) :
    Parser.run ⟨.start, scope⟩ (name :: next :: rest) =
      Parser.run ⟨.operand name.origin .expression [], scope⟩ (name :: next :: rest) := by
  obtain ⟨text, kind⟩ := named
  have leads : Parser.step ⟨.start, scope⟩ name = ⟨⟨.leading name, scope⟩, [], []⟩ := by
    simp [Parser.step, Parser.takeToken, Parser.begin, kind, Parser.goOn]
  have operand : Parser.step ⟨.operand name.origin .expression [], scope⟩ name =
      ⟨⟨.operator name.origin .expression [] (.variable name), scope⟩, [], Parser.checkUse scope name⟩ := by
    simp [Parser.step, Parser.takeToken, Parser.takeOperand, kind, TokenKind.value?]
  have decides : Parser.takeLeading scope name next =
      let outcome := Parser.takeOperator scope name.origin .expression [] (.variable name) next
      { outcome with reports := Parser.checkUse scope name ++ outcome.reports } := by
    unfold Parser.takeLeading
    split
    · contradiction
    · rfl
  -- Both runs have read the name; one of them still has to say what it was.
  simp only [Parser.run, leads, operand]
  simp [Parser.step, notBlank, Parser.takeToken, decides]

theorem run_start_expression {first ending : Token} {others : List Token} {value : Expr}
    (derived : Derives 1 (first :: others) value) (ended : ending.kind = .mark .semicolon)
    (scope : Scope) :
    Parser.run ⟨.start, scope⟩ (first :: others ++ [ending]) =
      Parser.run ⟨.operand first.origin .expression [], scope⟩ (first :: others ++ [ending]) := by
  obtain ⟨_, _, same, kind⟩ := derived.head
  cases same
  -- After a name the parser looks one token ahead, so that token must be shown to be no equals sign:
  -- it belongs to the expression, or it is the semicolon.
  rcases kind with named | kind
  · obtain ⟨next, rest, follows, outside⟩ : ∃ next rest, others ++ [ending] = next :: rest ∧
        next.kind ≠ .blankLine ∧ next.kind ≠ .mark .equal := by
      cases others with
      | nil => exact ⟨ending, [], rfl, by simp [ended], by simp [ended]⟩
      | cons next rest =>
        have inside := derived.inside next (by simp)
        simp only [outsideExpressions, List.mem_cons, not_or] at inside
        exact ⟨next, rest ++ [ending], rfl, inside.2.2.1, inside.1⟩
    rw [List.cons_append, follows]
    exact run_start_name named outside.1 outside.2 scope rest
  · have notBlank : first.kind ≠ .blankLine := by
      have inside := derived.inside first List.mem_cons_self
      simp only [outsideExpressions, List.mem_cons, not_or] at inside
      exact inside.2.2.1
    simp only [List.cons_append, Parser.run, Parser.step, notBlank, if_false, Parser.takeToken,
      begin_eq_takeOperand scope kind]

theorem passes_type {type : Token} {ty : Ty} (typed : typeKind? ty = some type.kind) (scope : Scope) :
    Passes ⟨.start, scope⟩ [type] ⟨.typed type.origin ty, scope⟩ := by
  refine passes_token ?_ onlyBinding_nil ?_
  · intro blank
    cases ty <;> simp [typeKind?, blank] at typed
  · cases ty <;> simp only [typeKind?, Option.some.injEq, reduceCtorEq] at typed <;>
      simp [Parser.takeToken, Parser.begin, ← typed, Parser.goOn]

theorem passes_name {name : Token} (named : IsName name) (origin : Origin) (ty : Ty) (scope : Scope) :
    Passes ⟨.typed origin ty, scope⟩ [name] ⟨.named origin ty name, scope⟩ := by
  obtain ⟨text, kind⟩ := named
  exact passes_token (by simp [kind]) onlyBinding_nil
    (by simp [Parser.takeToken, Parser.takeName, kind, Parser.goOn])

/-- Every statement of the grammar is completed by its last token. -/
theorem Grammar.Spells.completes {tokens : List Token} {action : Action} (spelled : Spells tokens action)
    (scope : Scope) :
    ∃ first others, tokens = first :: others ∧
      Completes (Parser.run ⟨.start, scope⟩ tokens) ⟨action, first.origin⟩ := by
  cases spelled with
  | expression derived ended =>
    obtain ⟨first, others, rfl, _⟩ := derived.head
    refine ⟨first, _, rfl, ?_⟩
    rw [run_start_expression derived ended]
    exact run_operand_completes derived ended scope first.origin .expression
  | @print keyword _ _ _ kind derived ended =>
    refine ⟨keyword, _, rfl, ?_⟩
    have passes : Passes ⟨.start, scope⟩ [keyword] ⟨.operand keyword.origin .print [], scope⟩ :=
      passes_token (by simp [kind]) onlyBinding_nil
        (by simp [Parser.takeToken, Parser.begin, kind, Parser.goOn])
    exact passes.completes (run_operand_completes derived ended scope keyword.origin .print)
  | @declare type name ending ty typed named ended =>
    refine ⟨type, _, rfl, ?_⟩
    have passes := (passes_type typed scope).append (passes_name named type.origin ty scope)
    apply passes.completes
    have taken : Parser.run ⟨.named type.origin ty name, scope⟩ [ending] =
        Parser.declare scope type.origin ty name none := by
      simp [Parser.run, Parser.step, Parser.takeToken, Parser.takeInitial, ended]
    rw [taken]
    exact declare_completes scope type.origin ty name none
  | @initialized type name equals ty _ _ _ typed named kind derived ended =>
    refine ⟨type, _, rfl, ?_⟩
    have passes := (passes_type typed scope).append (passes_name named type.origin ty scope)
    have opens : Passes ⟨.named type.origin ty name, scope⟩ [equals]
        ⟨.operand type.origin (.declare ty name) [], scope⟩ :=
      passes_token (by simp [kind]) onlyBinding_nil
        (by simp [Parser.takeToken, Parser.takeInitial, kind, Parser.goOn])
    exact (passes.append opens).completes
      (run_operand_completes derived ended scope type.origin (.declare ty name))
  | @assign name equals _ _ _ named kind derived ended =>
    refine ⟨name, _, rfl, ?_⟩
    obtain ⟨text, nameKind⟩ := named
    have leads : Passes ⟨.start, scope⟩ [name] ⟨.leading name, scope⟩ :=
      passes_token (by simp [nameKind]) onlyBinding_nil
        (by simp [Parser.takeToken, Parser.begin, nameKind, Parser.goOn])
    have opens : Passes ⟨.leading name, scope⟩ [equals] ⟨.operand name.origin (.assign name) [], scope⟩ :=
      passes_token (by simp [kind]) onlyBinding_nil
        (by simp [Parser.takeToken, Parser.takeLeading, kind, Parser.goOn])
    exact (leads.append opens).completes
      (run_operand_completes derived ended scope name.origin (.assign name))

/-! ## Programs -/

theorem Grammar.Spells.goesOn {tokens : List Token} {action : Action} (spelled : Spells tokens action) :
    ∀ token ∈ tokens, token.kind ≠ .finish := by
  have inside : ∀ {tokens : List Token} {value : Expr}, Derives 1 tokens value →
      ∀ token ∈ tokens, token.kind ≠ .finish := by
    intro tokens value derived token member ends
    exact derived.inside token member (by simp [ends, outsideExpressions])
  have typeGoesOn : ∀ {type : Token} {ty : Ty}, typeKind? ty = some type.kind → type.kind ≠ .finish := by
    intro type ty typed ends
    cases ty <;> simp [typeKind?, ends] at typed
  have nameGoesOn : ∀ {name : Token}, IsName name → name.kind ≠ .finish := by
    rintro name ⟨text, kind⟩
    simp [kind]
  cases spelled with
  | expression derived ended => grind
  | print kind derived ended => grind
  | declare typed named ended => grind
  | initialized typed named kind derived ended => grind
  | assign named kind derived ended => grind

/-- A statement that keeps to the grammar, a blank line among them, is completed by its tokens. -/
theorem flattensAction_completes {statement : Stmt} {first : Token} {others : List Token}
    (flattens : FlattensAction statement.action (first :: others))
    (origin : statement.origin = first.origin) (stratified : StratifiedAction statement.action)
    (scope : Scope) :
    Completes (Parser.run ⟨.start, scope⟩ (first :: others)) statement ∧
      ∀ token ∈ first :: others, token.kind ≠ .finish := by
  obtain ⟨action, place⟩ := statement
  obtain rfl : place = first.origin := origin
  rcases spells_of_flattensAction flattens stratified with ⟨isBlank, line, same, kind⟩ | spelled
  · obtain rfl : action = .blankLine := isBlank
    cases same
    refine ⟨⟨scope, [], ?_, onlyBinding_nil⟩, by simp [kind]⟩
    simp [Parser.run, Parser.step, kind, Parser.takeBlankLine]
  · obtain ⟨_, _, same, completes⟩ := spelled.completes scope
    cases same
    exact ⟨completes, spelled.goesOn⟩

theorem run_flattensProgram {statements : List Stmt} {tokens : List Token}
    (flattens : FlattensProgram statements tokens)
    (stratified : ∀ statement ∈ statements, StratifiedAction statement.action) (scope : Scope) :
    ∃ after reports, Parser.run ⟨.start, scope⟩ tokens = ⟨⟨.start, after⟩, statements, reports⟩ ∧
      OnlyBinding reports ∧ ∀ token ∈ tokens, token.kind ≠ .finish := by
  -- The scope is general because every declaration changes it for the statements after it.
  induction flattens generalizing scope with
  | nil => exact ⟨scope, [], rfl, onlyBinding_nil, by simp⟩
  | @cons statement statements first others rest flattens origin _ inductionHypothesis =>
    obtain ⟨⟨between, before, completed, binding⟩, goesOn⟩ :=
      flattensAction_completes flattens origin (stratified statement List.mem_cons_self) scope
    obtain ⟨after, reports, ran, bindingLater, restGoesOn⟩ :=
      inductionHypothesis (fun other member => stratified other (List.mem_cons_of_mem _ member)) between
    refine ⟨after, before ++ reports, ?_, onlyBinding_append.mpr ⟨binding, bindingLater⟩, ?_⟩
    · rw [← List.cons_append, Parser.run_append, completed, ran]
      rfl
    · intro token member
      cases List.mem_append.mp (List.cons_append ▸ member) with
      | inl here => exact goesOn token here
      | inr later => exact restGoesOn token later

theorem parse_flattensProgram {statements : List Stmt} {tokens : List Token} {stop : Token}
    (stratified : ∀ statement ∈ statements, StratifiedAction statement.action)
    (flattens : FlattensProgram statements tokens) (ends : stop.kind = .finish) :
    (parse (tokens ++ [stop])).statements = statements ∧
      OnlyBinding (parse (tokens ++ [stop])).reports := by
  obtain ⟨after, reports, ran, binding, goesOn⟩ := run_flattensProgram flattens stratified .empty
  have idle : Parser.run ⟨.start, after⟩ [stop] = ⟨⟨.start, after⟩, [], []⟩ := by
    simp [Parser.run, Parser.step, ends, Parser.takeToken, Parser.begin, Parser.goOn]
  -- The end mark finds the parser between statements, where it does nothing.
  simp only [parse, parseWith, terminated_append_finish goesOn ends, Parser.run_append, ran, idle,
    List.append_nil]
  exact ⟨trivial, binding⟩

/-- Parsing undoes flattening: a program that keeps to the grammar, written in any way and ended by an
    end mark, is given back statement by statement and token by token, and no token is found not to fit.
    So no tokens are written for two programs. -/
theorem parse_undoes_flattening {statements : List Stmt} {tokens : List Token} {stop : Token}
    (stratified : ∀ statement ∈ statements, StratifiedAction statement.action)
    (flattens : FlattensProgram statements tokens) (ends : stop.kind = .finish) :
    (parse (tokens ++ [stop])).statements = statements ∧
      OnlyBinding (parse (tokens ++ [stop])).reports ∧
      ∀ others : List Stmt, (∀ statement ∈ others, StratifiedAction statement.action) →
        FlattensProgram others tokens → others = statements := by
  obtain ⟨given, binding⟩ := parse_flattensProgram stratified flattens ends
  refine ⟨given, binding, ?_⟩
  intro others othersStratified othersFlatten
  rw [← given]
  exact (parse_flattensProgram othersStratified othersFlatten ends).1.symm

/-- The hypotheses are met by a program with a declaration, a blank line and every kind of operand:
    `int a = 1;`, an empty line, and `print -a % 2 * (a == nil);`. -/
theorem parse_undoes_flattening_sample :
    let token (kind : TokenKind) (text : String) (line : Nat) : Token :=
      ⟨kind, Symbol.of 0 text, "script", line⟩
    let name (line : Nat) := token (.identifier "a") "a" line
    let minus := token (.mark .minus) "-" 3
    let percent := token (.mark .percent) "%" 3
    let star := token (.mark .star) "*" 3
    let same := token (.mark .equalEqual) "==" 3
    let declaration : Stmt := ⟨.declare .int (name 1) (some (.literal (.int 1))), ⟨"script", 1⟩⟩
    let blank : Stmt := ⟨.blankLine, ⟨"script", 2⟩⟩
    let printing : Stmt :=
      ⟨.print (.binary (.binary (.unary minus (.variable (name 3))) percent (.literal (.int 2))) star
        (.grouping (.binary (.variable (name 3)) same (.literal .nil)))), ⟨"script", 3⟩⟩
    let tokens : List Token :=
      [token (.keyword .kwInt) "int" 1, name 1, token (.mark .equal) "=" 1, token (.integer 1) "1" 1,
       token (.mark .semicolon) ";" 1, token .blankLine "\n" 2, token (.keyword .kwPrint) "print" 3, minus,
       name 3, percent, token (.integer 2) "2" 3, star, token (.mark .openParen) "(" 3, name 3, same,
       token (.keyword .kwNil) "nil" 3, token (.mark .closeParen) ")" 3, token (.mark .semicolon) ";" 3]
    (∀ statement ∈ [declaration, blank, printing], StratifiedAction statement.action) ∧
      FlattensProgram [declaration, blank, printing] tokens ∧
      (parse (tokens ++ [token .finish "" 3])).statements = [declaration, blank, printing] := by
  intro token name minus percent star same declaration blank printing tokens
  have named : ∀ line, IsName (name line) := fun line => ⟨"a", rfl⟩
  have stratified : ∀ statement ∈ [declaration, blank, printing], StratifiedAction statement.action := by
    intro statement member
    simp only [List.mem_cons, List.not_mem_nil, or_false] at member
    rcases member with rfl | rfl | rfl
    · exact ⟨by decide, named 1, by rintro _ ⟨⟩; exact (by decide : 1 ≤ 7)⟩
    · trivial
    · exact ⟨4, rfl, by decide, ⟨5, rfl, by decide, ⟨.inr rfl, by decide, named 3, by decide⟩,
        (by decide : 6 ≤ 7)⟩, by decide, 1, rfl, by decide, ⟨named 3, by decide⟩, (by decide : 2 ≤ 7)⟩
  have declared : FlattensAction declaration.action (tokens.take 5) :=
    .initialized (name 1) rfl rfl (.literal rfl) rfl
  have reduced : Flattens (.binary (.unary minus (.variable (name 3))) percent (.literal (.int 2)))
      [minus, name 3, percent, token (.integer 2) "2" 3] :=
    .binary percent (.unary minus (.name (name 3))) (.literal rfl)
  have grouped : Flattens (.grouping (.binary (.variable (name 3)) same (.literal .nil)))
      [token (.mark .openParen) "(" 3, name 3, same, token (.keyword .kwNil) "nil" 3,
       token (.mark .closeParen) ")" 3] :=
    .grouping rfl (.binary same (.name (name 3)) (.literal rfl)) rfl
  have printed : FlattensAction printing.action (tokens.drop 6) :=
    .print rfl (.binary star reduced grouped) rfl
  have passed : FlattensAction blank.action [token .blankLine "\n" 2] := .blankLine rfl
  have last : FlattensProgram [printing] (tokens.drop 6) := .cons printed rfl .nil
  have later : FlattensProgram [blank, printing] (tokens.drop 5) := .cons passed rfl last
  have flattens : FlattensProgram [declaration, blank, printing] tokens := .cons declared rfl later
  exact ⟨stratified, flattens, (parse_undoes_flattening stratified flattens rfl).1⟩

end ScriptFrontend
