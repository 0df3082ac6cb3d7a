import ScriptFrontend.Proofs.ParserRules

/-! # Every token is accounted for

Parsing cuts the tokens before the end mark into consecutive stretches and says of each what became of
it: a blank line, a statement that the stretch spells, or a stretch that was given up with one report.
Nothing is read twice, and nothing is passed over.

The invariant is `Pending`: the mode of the parser describes the tokens read since the last cut.  While
a statement is under way it is `Reading`, which says that the frames on the stack and the operand in
hand derive those tokens; `Awaits` is the part of it that speaks of the frames, and
`collapse_derives` shows that collapsing frames only regroups the tokens that they hold.  `Effect` says
once what a token can do to a statement under way.
-/

namespace ScriptFrontend

open Grammar

/-! ## Stretches of tokens -/

def significant (tokens : List Token) : List Token :=
  tokens.filter fun token => token.kind ≠ .blankLine

theorem significant_append_blank {token : Token} (blank : token.kind = .blankLine) (tokens : List Token) :
    significant (tokens ++ [token]) = significant tokens := by
  simp [significant, blank]

theorem significant_append_token {token : Token} (notBlank : token.kind ≠ .blankLine)
    (tokens : List Token) : significant (tokens ++ [token]) = significant tokens ++ [token] := by
  simp [significant, notBlank]

/-- A stretch of tokens and what the parser made of it, with its reports. -/
inductive Segment where
  | blank (line : Token)
  | kept (tokens : List Token) (statement : Stmt) (reports : List Report)
  | skipped (tokens : List Token) (reports : List Report)

namespace Segment

def tokens : Segment → List Token
  | .blank line => [line]
  | .kept tokens _ _ | .skipped tokens _ => tokens

/-- The statements that a stretch contributes: one, unless it was given up. -/
def statements : Segment → List Stmt
  | .blank line => [⟨.blankLine, line.origin⟩]
  | .kept _ statement _ => [statement]
  | .skipped .. => []

def reports : Segment → List Report
  | .blank _ => []
  | .kept _ _ reports | .skipped _ reports => reports

/-- What makes a stretch what it is called.  A statement spells its tokens and stands where the first
    of them does; a stretch that was given up has exactly one report about a token that does not fit,
    its last, and that token is its own or the end mark. -/
def Valid : Segment → Prop
  | .blank line => line.kind = .blankLine
  | .kept tokens statement reports =>
    ∃ first rest, tokens = first :: rest ∧ first.kind ≠ .blankLine ∧
      Spells (significant tokens) statement.action ∧ statement.origin = first.origin ∧
      OnlyBinding reports
  | .skipped tokens reports =>
    ∃ first rest, tokens = first :: rest ∧ first.kind ≠ .blankLine ∧
      ∃ before fault token, reports = before ++ [.grammar fault token] ∧ OnlyBinding before ∧
        (token ∈ tokens ∨ token.kind = .finish)

end Segment

/-- A cut of tokens into stretches that account for statements and reports, each in order. -/
structure IsCut (segments : List Segment) (tokens : List Token) (statements : List Stmt)
    (reports : List Report) : Prop where
  tokens_eq : segments.flatMap Segment.tokens = tokens
  valid : ∀ segment ∈ segments, segment.Valid
  statements_eq : segments.flatMap Segment.statements = statements
  reports_eq : segments.flatMap Segment.reports = reports

theorem isCut_nil : IsCut [] [] [] [] :=
  ⟨rfl, by simp, rfl, rfl⟩

theorem IsCut.cons {segment : Segment} {segments : List Segment} {tokens : List Token}
    {statements : List Stmt} {reports : List Report} (valid : segment.Valid)
    (cut : IsCut segments tokens statements reports) :
    IsCut (segment :: segments) (segment.tokens ++ tokens) (segment.statements ++ statements)
      (segment.reports ++ reports) := by
  refine ⟨by simp [cut.tokens_eq], ?_, by simp [cut.statements_eq], by simp [cut.reports_eq]⟩
  intro other member
  cases member with
  | head => exact valid
  | tail _ later => exact cut.valid other later

theorem isCut_skipped {tokens : List Token} {reports : List Report}
    (valid : (Segment.skipped tokens reports).Valid) :
    IsCut [.skipped tokens reports] tokens [] reports := by
  simpa [Segment.tokens, Segment.statements, Segment.reports] using isCut_nil.cons valid

/-! ## What the frames hold -/

/-- Frames that wait for an operand of a tier, with the tokens that they hold. -/
inductive Awaits : List Frame → Nat → List Token → Prop where
  | nil : Awaits [] 1 []
  | group {frames : List Frame} {tier : Nat} {tokens : List Token} {opening : Token} :
      Awaits frames tier tokens → opening.kind = .mark .openParen →
      Awaits (.group :: frames) 1 (tokens ++ [opening])
  | unary {frames : List Frame} {tier : Nat} {tokens : List Token} {operator : Token} :
      Awaits frames tier tokens → IsSign operator.kind →
      Awaits (.unary operator :: frames) 6 (tokens ++ [operator])
  | binary {frames : List Frame} {tier : Nat} {tokens leftTokens : List Token} {operator : Token}
      {left : Expr} {level : Level} :
      Awaits frames tier tokens → tier ≤ level.strength →
      binaryTier? operator.kind = some level.strength → Derives level.strength leftTokens left →
      Awaits (.binary left operator level :: frames) (level.strength + 1)
        (tokens ++ leftTokens ++ [operator])

theorem Awaits.tier_le {frames : List Frame} {tier : Nat} {tokens : List Token}
    (awaits : Awaits frames tier tokens) : tier ≤ 6 := by
  cases awaits with
  | nil | group _ _ | unary _ _ => decide
  | binary _ _ _ _ => have := Level.strength_bounds; grind

/-- Collapsing gives an operand to frames without losing a token: what remains waits for no tighter
    tier than the strength asked for, and the new operand is of that tier. -/
theorem collapse_derives {frames : List Frame} {tier : Nat} {tokens : List Token}
    (awaits : Awaits frames tier tokens) {strength : Nat} (weak : strength ≤ 5) {reached : Nat}
    {operandTokens : List Token} {operand : Expr} (derived : Derives reached operandTokens operand)
    (fits : tier ≤ reached) (strong : max strength 1 ≤ reached) :
    ∃ value rest restTier restTokens valueTokens,
      Frame.collapse strength operand frames = (value, rest) ∧ Awaits rest restTier restTokens ∧
      restTier ≤ max strength 1 ∧ Derives (max strength 1) valueTokens value ∧
      restTokens ++ valueTokens = tokens ++ operandTokens := by
  -- The induction goes down the stack; each frame that takes the operand makes it a larger one, so the
  -- operand is general, and the tier it has reached only falls to that of the frame.
  induction awaits generalizing reached operandTokens operand with
  | nil => exact ⟨operand, [], 1, [], operandTokens, rfl, .nil, by omega, derived.loosen strong, rfl⟩
  | @group frames _ tokens opening awaits kind _ =>
    exact ⟨operand, .group :: frames, 1, tokens ++ [opening], operandTokens, rfl, .group awaits kind,
      by omega, derived.loosen strong, rfl⟩
  | unary awaits sign inductionHypothesis =>
    have bound := awaits.tier_le
    obtain ⟨value, rest, restTier, restTokens, valueTokens, collapsed, waits, le, valueDerived, joined⟩ :=
      inductionHypothesis (Derives.unary sign (derived.loosen fits)) bound (by omega)
    exact ⟨value, rest, restTier, restTokens, valueTokens, collapsed, waits, le, valueDerived,
      by simp [joined]⟩
  | @binary frames tier tokens leftTokens operator left level awaits le found leftDerived
      inductionHypothesis =>
    have bounds := level.strength_bounds
    -- The only frames that collapsing can stop at without a parenthesis.
    by_cases binds : strength ≤ level.strength
    · obtain ⟨value, rest, restTier, restTokens, valueTokens, collapsed, waits, le, valueDerived, joined⟩ :=
        inductionHypothesis (Derives.binary found leftDerived (derived.loosen fits)) le (by omega)
      refine ⟨value, rest, restTier, restTokens, valueTokens, ?_, waits, le, valueDerived, by simp [joined]⟩
      simpa only [Frame.collapse, binds, if_true] using collapsed
    · refine ⟨operand, .binary left operator level :: frames, level.strength + 1,
        tokens ++ leftTokens ++ [operator], operandTokens, ?_,
        .binary awaits le found leftDerived, by omega, derived.loosen strong, rfl⟩
      simp only [Frame.collapse, binds, if_false]

/-! ## What the modes say -/

/-- What a mode says about the tokens read of a statement that begins at an origin. -/
inductive Reading : Origin → Mode → List Token → Prop where
  | typed {origin : Origin} {ty : Ty} {type : Token} :
      typeKind? ty = some type.kind → Reading origin (.typed origin ty) [type]
  | named {origin : Origin} {ty : Ty} {type name : Token} :
      typeKind? ty = some type.kind → IsName name → Reading origin (.named origin ty name) [type, name]
  | leading {name : Token} : IsName name → Reading name.origin (.leading name) [name]
  | operand {origin : Origin} {goal : Goal} {opening tokens : List Token} {frames : List Frame}
      {tier : Nat} :
      Opening goal opening → Awaits frames tier tokens →
      Reading origin (.operand origin goal frames) (opening ++ tokens)
  | operator {origin : Origin} {goal : Goal} {opening tokens operandTokens : List Token}
      {frames : List Frame} {tier : Nat} {operand : Expr} :
      Opening goal opening → Awaits frames tier tokens → Derives 7 operandTokens operand →
      Reading origin (.operator origin goal frames operand) (opening ++ tokens ++ operandTokens)

theorem Reading.opened {origin : Origin} {goal : Goal} {opening : List Token}
    (opened : Opening goal opening) : Reading origin (.operand origin goal []) opening := by
  simpa using Reading.operand opened .nil

theorem Reading.ne_start {origin : Origin} {mode : Mode} {read : List Token}
    (reading : Reading origin mode read) : mode ≠ .start := by
  cases reading <;> simp

def Mode.IsIdle (mode : Mode) : Prop := mode = .start ∨ mode = .stray ∨ mode = .skipping

/-- What a token can do to a statement of which some tokens were read before it. -/
inductive Effect (origin : Origin) (read : List Token) (token : Token) : ParserOutcome → Prop where
  | reads {mode : Mode} {scope : Scope} {reports : List Report} :
      Reading origin mode (read ++ [token]) → OnlyBinding reports →
      Effect origin read token ⟨⟨mode, scope⟩, [], reports⟩
  | completes {outcome : ParserOutcome} {action : Action} :
      Spells (read ++ [token]) action → Completes outcome ⟨action, origin⟩ →
      Effect origin read token outcome
  | refuses {mode : Mode} {scope : Scope} {fault : GrammarFault} (reports : List Report) :
      mode.IsIdle → OnlyBinding reports →
      Effect origin read token ⟨⟨mode, scope⟩, [], reports ++ [.grammar fault token]⟩

theorem afterDropped_isIdle (token : Token) : (Parser.afterDropped token).IsIdle := by
  unfold Parser.afterDropped
  split <;> simp [Mode.IsIdle]

theorem Effect.of_refuse (origin : Origin) (read : List Token) (scope : Scope) (fault : GrammarFault)
    (token : Token) : Effect origin read token (Parser.refuse scope fault token) :=
  .refuses [] (afterDropped_isIdle token) onlyBinding_nil

theorem takeOperand_effect {origin : Origin} {goal : Goal} {opening tokens : List Token}
    {frames : List Frame} {tier : Nat} (scope : Scope) (opened : Opening goal opening)
    (awaits : Awaits frames tier tokens) (token : Token) :
    Effect origin (opening ++ tokens) token (Parser.takeOperand scope origin goal frames token) := by
  unfold Parser.takeOperand
  split
  · next value found =>
    exact .reads (.operator opened awaits (.literal (value?_eq_some_iff.mp found))) onlyBinding_nil
  · split
    · next text kind =>
      exact .reads (.operator opened awaits (.name ⟨text, kind⟩)) (onlyBinding_checkUse scope token)
    -- A closing parenthesis here leaves a mode of its own.
    · exact .refuses [] (.inr (.inl rfl)) onlyBinding_nil
    · next kind =>
      refine .reads ?_ onlyBinding_nil
      rw [List.append_assoc]
      exact .operand opened (.group awaits kind)
    · next kind =>
      refine .reads ?_ onlyBinding_nil
      rw [List.append_assoc]
      exact .operand opened (.unary awaits (.inl kind))
    · next kind =>
      refine .reads ?_ onlyBinding_nil
      rw [List.append_assoc]
      exact .operand opened (.unary awaits (.inr kind))
    · exact .of_refuse ..

theorem takeOperator_effect {origin : Origin} {goal : Goal} {opening tokens operandTokens : List Token}
    {frames : List Frame} {tier : Nat} {operand : Expr} (scope : Scope) (opened : Opening goal opening)
    (awaits : Awaits frames tier tokens) (derived : Derives 7 operandTokens operand) (token : Token) :
    Effect origin (opening ++ tokens ++ operandTokens) token
      (Parser.takeOperator scope origin goal frames operand token) := by
  have bound := awaits.tier_le
  unfold Parser.takeOperator
  split
  · next level found =>
    have bounds := level.strength_bounds
    obtain ⟨value, rest, restTier, restTokens, valueTokens, collapsed, waits, le, valueDerived, joined⟩ :=
      collapse_derives awaits bounds.2 derived (by omega) (by omega)
    -- The operator comes to lie on what the collapse leaves, whose tier is its own or a looser one.
    rw [Nat.max_eq_left bounds.1] at le valueDerived
    have tierFound : binaryTier? token.kind = some level.strength := by rw [binaryTier?_eq, found]; rfl
    simp only [collapsed]
    refine .reads ?_ onlyBinding_nil
    have regrouped : opening ++ tokens ++ operandTokens ++ [token] =
        opening ++ (restTokens ++ valueTokens ++ [token]) := by simp [joined]
    rw [regrouped]
    exact .operand opened (.binary waits le tierFound valueDerived)
  · obtain ⟨value, rest, restTier, restTokens, valueTokens, collapsed, waits, le, valueDerived, joined⟩ :=
      collapse_derives awaits (Nat.zero_le 5) derived (by omega) (by omega)
    simp only [collapsed]
    -- At strength zero only a parenthesis or the bottom of the stack stops the collapse.
    cases waits with
    | @group _ _ outerTokens parenthesis waits kind =>
      dsimp only
      split
      · next closing =>
        refine .reads ?_ onlyBinding_nil
        have regrouped : opening ++ tokens ++ operandTokens ++ [token] =
            opening ++ outerTokens ++ (parenthesis :: (valueTokens ++ [token])) := by
          simp [List.append_assoc, ← joined]
        rw [regrouped]
        exact .operator opened waits (.grouping kind valueDerived closing)
      · exact .of_refuse ..
    | nil =>
      dsimp only
      split
      · next ending =>
        rw [List.nil_append] at joined
        have spelled := opened.spells valueDerived ending
        rw [joined, ← List.append_assoc] at spelled
        exact .completes spelled (complete_completes scope origin goal value)
      · exact .of_refuse ..
    -- These two would still take the operand.
    | unary _ _ => omega
    | @binary _ _ _ _ _ _ level _ _ _ _ => have := level.strength_bounds; omega

theorem takeName_effect {origin : Origin} {ty : Ty} {type : Token} (scope : Scope)
    (typed : typeKind? ty = some type.kind) (token : Token) :
    Effect origin [type] token (Parser.takeName scope origin ty token) := by
  unfold Parser.takeName
  split
  · next text kind => exact .reads (.named typed ⟨text, kind⟩) onlyBinding_nil
  · exact .of_refuse ..

theorem takeInitial_effect {origin : Origin} {ty : Ty} {type name : Token} (scope : Scope)
    (typed : typeKind? ty = some type.kind) (named : IsName name) (token : Token) :
    Effect origin [type, name] token (Parser.takeInitial scope origin ty name token) := by
  unfold Parser.takeInitial
  split
  · next kind => exact .reads (.opened (.declare typed named kind)) onlyBinding_nil
  · next kind => exact .completes (.declare typed named kind) (declare_completes ..)
  · exact .of_refuse ..

theorem Effect.report {origin : Origin} {read : List Token} {token : Token} {outcome : ParserOutcome}
    (effect : Effect origin read token outcome) {before : List Report} (binding : OnlyBinding before) :
    Effect origin read token { outcome with reports := before ++ outcome.reports } := by
  cases effect with
  | reads reading later => exact .reads reading (onlyBinding_append.mpr ⟨binding, later⟩)
  | completes spelled completed =>
    obtain ⟨scope, reports, rfl, later⟩ := completed
    exact .completes spelled ⟨scope, before ++ reports, rfl, onlyBinding_append.mpr ⟨binding, later⟩⟩
  | refuses reports idle later =>
    rw [← List.append_assoc]
    exact .refuses (before ++ reports) idle (onlyBinding_append.mpr ⟨binding, later⟩)

theorem takeLeading_effect {name : Token} (scope : Scope) (named : IsName name) (token : Token) :
    Effect name.origin [name] token (Parser.takeLeading scope name token) := by
  unfold Parser.takeLeading
  split
  · next kind => exact .reads (.opened (.assign named kind)) onlyBinding_nil
  -- The name was an operand all along, and is checked as a use only now.
  · exact (takeOperator_effect scope .expression .nil (.name named) token).report
      (onlyBinding_checkUse scope name)

theorem begin_effect (scope : Scope) {token : Token} (goesOn : token.kind ≠ .finish) :
    Effect token.origin [] token (Parser.begin scope token) := by
  unfold Parser.begin
  split
  · contradiction
  · next kind => exact .reads (.typed (kind ▸ rfl)) onlyBinding_nil
  · next kind => exact .reads (.typed (kind ▸ rfl)) onlyBinding_nil
  · next kind => exact .reads (.typed (kind ▸ rfl)) onlyBinding_nil
  · next kind => exact .reads (.typed (kind ▸ rfl)) onlyBinding_nil
  · next kind => exact .reads (.opened (.print kind)) onlyBinding_nil
  · next text kind => exact .reads (.leading ⟨text, kind⟩) onlyBinding_nil
  · exact takeOperand_effect scope .expression .nil token

theorem takeToken_effect {origin : Origin} {mode : Mode} {read : List Token} (scope : Scope)
    (reading : Reading origin mode read) (token : Token) :
    Effect origin read token (Parser.takeToken ⟨mode, scope⟩ token) := by
  cases reading with
  | typed type => exact takeName_effect scope type token
  | named type name => exact takeInitial_effect scope type name token
  | leading name => exact takeLeading_effect scope name token
  | operand opened awaits => exact takeOperand_effect scope opened awaits token
  | operator opened awaits derived => exact takeOperator_effect scope opened awaits derived token

theorem takeToken_finish {origin : Origin} {mode : Mode} {read : List Token} (scope : Scope)
    (reading : Reading origin mode read) {token : Token} (kind : token.kind = .finish) :
    ∃ before fault, OnlyBinding before ∧
      Parser.takeToken ⟨mode, scope⟩ token = ⟨⟨.skipping, scope⟩, [], before ++ [.grammar fault token]⟩ := by
  -- After an end mark nothing resumes, so refusing it always ends in the same mode.
  have refused : ∀ fault, Parser.refuse scope fault token =
      ⟨⟨.skipping, scope⟩, [], [] ++ [.grammar fault token]⟩ := by
    intro fault
    simp [Parser.refuse, Parser.afterDropped, kind]
  have afterOperand : ∀ origin goal frames operand, ∃ fault,
      Parser.takeOperator scope origin goal frames operand token = Parser.refuse scope fault token := by
    intro origin goal frames operand
    simp only [Parser.takeOperator, kind, TokenKind.level?]
    split
    · exact ⟨.expectedCloseParen, by simp⟩
    · exact ⟨.expectedSemicolon goal.phrase, by simp⟩
  cases reading with
  | typed _ => exact ⟨[], .expectedName, onlyBinding_nil, by
      simp only [Parser.takeToken, Parser.takeName, kind, refused]⟩
  | named _ _ => exact ⟨[], .expectedSemicolon .declaration, onlyBinding_nil, by
      simp only [Parser.takeToken, Parser.takeInitial, kind, refused]⟩
  | @leading name _ =>
    obtain ⟨fault, taken⟩ := afterOperand name.origin .expression [] (.variable name)
    refine ⟨Parser.checkUse scope name, fault, onlyBinding_checkUse scope name, ?_⟩
    simp only [Parser.takeToken, Parser.takeLeading, kind, taken, refused, List.nil_append]
  | operand _ _ => exact ⟨[], .expectedExpression, onlyBinding_nil, by
      simp only [Parser.takeToken, Parser.takeOperand, kind, TokenKind.value?, refused]⟩
  | @operator origin goal _ _ _ frames _ operand _ _ _ =>
    obtain ⟨fault, taken⟩ := afterOperand origin goal frames operand
    exact ⟨[], fault, onlyBinding_nil, by simp only [Parser.takeToken, taken, refused]⟩

/-! ## Cutting a run -/

/-- What the mode says about the tokens since the last cut, and what was reported about them. -/
inductive Pending : Mode → List Token → List Report → Prop where
  | between : Pending .start [] []
  | underway {mode : Mode} {first : Token} {rest : List Token} {reports : List Report} :
      first.kind ≠ .blankLine → Reading first.origin mode (significant (first :: rest)) →
      OnlyBinding reports → Pending mode (first :: rest) reports
  | lost {mode : Mode} {tokens : List Token} {reports : List Report} :
      mode = .stray ∨ mode = .skipping → (Segment.skipped tokens reports).Valid →
      Pending mode tokens reports

/-- That the rest of the tokens, and then the end mark, can be cut from every mode: what remains to be
    shown of a run once its first token is taken. -/
def RestIsCut (rest : List Token) (stop : Token) : Prop :=
  ∀ mode scope pending reports, Pending mode pending reports →
    let outcome := Parser.run ⟨mode, scope⟩ (rest ++ [stop])
    ∃ segments, IsCut segments (pending ++ rest) outcome.statements (reports ++ outcome.reports)

theorem skipped_valid_append {tokens : List Token} {reports : List Report}
    (valid : (Segment.skipped tokens reports).Valid) (token : Token) :
    (Segment.skipped (tokens ++ [token]) reports).Valid := by
  obtain ⟨first, rest, rfl, kind, before, fault, culprit, reported, binding, place⟩ := valid
  refine ⟨first, rest ++ [token], rfl, kind, before, fault, culprit, reported, binding, ?_⟩
  cases place with
  | inl own => exact .inl (List.mem_append_left _ own)
  | inr atEnd => exact .inr atEnd

theorem RestIsCut.close {rest : List Token} {stop : Token} (later : RestIsCut rest stop) (scope : Scope)
    (segment : Segment) (valid : segment.Valid) :
    let outcome := Parser.run ⟨.start, scope⟩ (rest ++ [stop])
    ∃ segments, IsCut segments (segment.tokens ++ rest) (segment.statements ++ outcome.statements)
      (segment.reports ++ outcome.reports) := by
  obtain ⟨segments, cut⟩ := later .start scope [] [] .between
  exact ⟨segment :: segments, cut.cons valid⟩

/-- Goes on in a stretch that is given up, or closes it if the parser is between statements. -/
theorem RestIsCut.giveUp {rest : List Token} {stop : Token} (later : RestIsCut rest stop)
    {mode : Mode} (idle : mode.IsIdle) (scope : Scope) {tokens : List Token} {reports : List Report}
    (valid : (Segment.skipped tokens reports).Valid) :
    let outcome := Parser.run ⟨mode, scope⟩ (rest ++ [stop])
    ∃ segments, IsCut segments (tokens ++ rest) outcome.statements (reports ++ outcome.reports) := by
  cases idle with
  | inl between =>
    subst between
    exact later.close scope (.skipped tokens reports) valid
  | inr lost => exact later mode scope tokens reports (.lost lost valid)

theorem RestIsCut.after {rest : List Token} {stop : Token} (later : RestIsCut rest stop)
    {first token : Token} {others read : List Token} {before : List Report} {outcome : ParserOutcome}
    (begins : first.kind ≠ .blankLine) (own : token ∈ first :: others)
    (spelled : significant (first :: others) = read ++ [token]) (binding : OnlyBinding before)
    (effect : Effect first.origin read token outcome) :
    let more := Parser.run outcome.state (rest ++ [stop])
    ∃ segments, IsCut segments (first :: others ++ rest) (outcome.statements ++ more.statements)
      (before ++ (outcome.reports ++ more.reports)) := by
  -- One way of going on for each effect: the stretch grows, or it is closed as a statement, or it is
  -- given up.
  simp only [← List.append_assoc before]
  cases effect with
  | reads reading reported =>
    exact later _ _ _ _ (.underway begins (spelled ▸ reading) (onlyBinding_append.mpr ⟨binding, reported⟩))
  | @completes _ action spells completed =>
    obtain ⟨scope, reports, rfl, reported⟩ := completed
    exact later.close scope (.kept (first :: others) ⟨action, first.origin⟩ (before ++ reports))
      ⟨first, others, rfl, begins, spelled ▸ spells, rfl, onlyBinding_append.mpr ⟨binding, reported⟩⟩
  | @refuses mode scope fault reports idle reported =>
    refine later.giveUp idle scope ⟨first, others, rfl, begins, before ++ reports, fault, token, ?_,
      onlyBinding_append.mpr ⟨binding, reported⟩, .inl own⟩
    rw [List.append_assoc]

theorem RestIsCut.afterFirst {rest : List Token} {stop : Token} (later : RestIsCut rest stop)
    (scope : Scope) {token : Token} (begins : token.kind ≠ .blankLine) (goesOn : token.kind ≠ .finish) :
    let now := Parser.begin scope token
    let more := Parser.run now.state (rest ++ [stop])
    ∃ segments, IsCut segments (token :: rest) (now.statements ++ more.statements)
      (now.reports ++ more.reports) :=
  later.after begins (List.mem_singleton_self token) (by simp [significant, begins]) onlyBinding_nil
    (begin_effect scope goesOn)

/-- What is left at the end mark is a stretch that was given up, if it is anything. -/
theorem restIsCut_nil {stop : Token} (ends : stop.kind = .finish) : RestIsCut [] stop := by
  have notBlank : stop.kind ≠ .blankLine := by simp [ends]
  intro mode scope pending reports pendingHere
  simp only [List.nil_append, Parser.run, Parser.step, notBlank, if_false, List.append_nil]
  cases pendingHere with
  | between =>
    refine ⟨[], ?_⟩
    simpa [Parser.takeToken, Parser.begin, ends, Parser.goOn] using isCut_nil
  | @underway _ first rest _ begins reading binding =>
    obtain ⟨before, fault, earlier, taken⟩ := takeToken_finish scope reading ends
    rw [taken]
    exact ⟨_, isCut_skipped ⟨first, rest, rfl, begins, reports ++ before, fault, stop, by simp,
      onlyBinding_append.mpr ⟨binding, earlier⟩, .inr ends⟩⟩
  | lost lost valid =>
    refine ⟨[.skipped pending reports], ?_⟩
    rcases lost with rfl | rfl
    · simpa [Parser.takeToken, Parser.goOn] using isCut_skipped valid
    · simpa [Parser.takeToken, Parser.skip, ends, Parser.goOn] using isCut_skipped valid

/-- A blank line is a stretch of its own between statements, and otherwise part of the one in hand. -/
theorem RestIsCut.afterBlankLine {rest : List Token} {stop : Token} (later : RestIsCut rest stop)
    {mode : Mode} (scope : Scope) {pending : List Token} {reports : List Report}
    (pendingHere : Pending mode pending reports) {token : Token} (blank : token.kind = .blankLine) :
    let now := Parser.takeBlankLine ⟨mode, scope⟩ token
    let more := Parser.run now.state (rest ++ [stop])
    ∃ segments, IsCut segments (pending ++ token :: rest) (now.statements ++ more.statements)
      (reports ++ (now.reports ++ more.reports)) := by
  have passed : mode ≠ .start → Parser.takeBlankLine ⟨mode, scope⟩ token = ⟨⟨mode, scope⟩, [], []⟩ := by
    intro inside
    cases mode <;> first | contradiction | rfl
  have regrouped : pending ++ token :: rest = pending ++ [token] ++ rest := by simp
  cases pendingHere with
  | between => exact later.close scope (.blank token) blank
  | @underway _ first others _ begins reading binding =>
    rw [passed reading.ne_start, regrouped]
    rw [← significant_append_blank blank] at reading
    exact later mode scope _ _ (.underway begins reading binding)
  | lost lost valid =>
    rw [passed (by rcases lost with rfl | rfl <;> simp), regrouped]
    exact later mode scope _ _ (.lost lost (skipped_valid_append valid token))

theorem RestIsCut.afterToken {rest : List Token} {stop : Token} (later : RestIsCut rest stop)
    {mode : Mode} (scope : Scope) {pending : List Token} {reports : List Report}
    (pendingHere : Pending mode pending reports) {token : Token} (notBlank : token.kind ≠ .blankLine)
    (goesOn : token.kind ≠ .finish) :
    let now := Parser.takeToken ⟨mode, scope⟩ token
    let more := Parser.run now.state (rest ++ [stop])
    ∃ segments, IsCut segments (pending ++ token :: rest) (now.statements ++ more.statements)
      (reports ++ (now.reports ++ more.reports)) := by
  have regrouped : pending ++ token :: rest = pending ++ [token] ++ rest := by simp
  cases pendingHere with
  | between => exact later.afterFirst scope notBlank goesOn
  | @underway _ first others _ begins reading binding =>
    rw [regrouped]
    exact later.after begins (by simp) (significant_append_token notBlank (first :: others)) binding
      (takeToken_effect scope reading token)
  | lost lost valid =>
    have dropped : ∃ segments, IsCut segments (pending ++ token :: rest) _ _ :=
      regrouped ▸ later.giveUp (afterDropped_isIdle token) scope (skipped_valid_append valid token)
    rcases lost with rfl | rfl
    · exact dropped
    · simp only [Parser.takeToken, Parser.skip]
      split
      -- A keyword that begins statements closes the stretch before it and is not dropped.
      · next keyword kind =>
        split
        · obtain ⟨segments, cut⟩ := later.afterFirst scope notBlank goesOn
          exact ⟨_, cut.cons valid⟩
        · have given : Parser.afterDropped token = .skipping := by simp [Parser.afterDropped, kind]
          exact given ▸ dropped
      · exact dropped

theorem restIsCut (rest : List Token) (goesOn : ∀ token ∈ rest, token.kind ≠ .finish) {stop : Token}
    (ends : stop.kind = .finish) : RestIsCut rest stop := by
  induction rest with
  | nil => exact restIsCut_nil ends
  | cons token rest inductionHypothesis =>
    have later := inductionHypothesis fun other member => goesOn other (List.mem_cons_of_mem _ member)
    have here := goesOn token List.mem_cons_self
    -- Blank lines never reach the modes, and only between statements do they count.
    intro mode scope pending reports pendingHere
    simp only [List.cons_append, Parser.run, Parser.step]
    by_cases blank : token.kind = .blankLine
    · rw [if_pos blank]
      exact later.afterBlankLine scope pendingHere blank
    · rw [if_neg blank]
      exact later.afterToken scope pendingHere blank here

theorem parse_isCut {tokens : List Token} (nonempty : tokens ≠ []) :
    ∃ segments, IsCut segments (beforeFinish tokens) (parse tokens).statements (parse tokens).reports := by
  obtain ⟨stop, ends, ended⟩ := terminated_eq nonempty
  have cut := restIsCut _ (goesOn_beforeFinish tokens) ends .start .empty [] [] .between
  simpa only [parse, parseWith, ended, List.nil_append] using cut

/-- Every statement is a blank line or spells some of the tokens. -/
theorem spells_of_mem_parse {tokens : List Token} (nonempty : tokens ≠ []) {statement : Stmt}
    (parsed : statement ∈ (parse tokens).statements) :
    statement.action = .blankLine ∨
      ∃ spelling, (∀ token ∈ spelling, token ∈ tokens) ∧ Spells spelling statement.action := by
  -- Only kept stretches give statements other than blank lines, and those spell their tokens.
  obtain ⟨segments, cut⟩ := parse_isCut nonempty
  rw [← cut.statements_eq, List.mem_flatMap] at parsed
  obtain ⟨segment, member, given⟩ := parsed
  have valid := cut.valid segment member
  cases segment with
  | blank line =>
    obtain rfl := List.mem_singleton.mp given
    exact .inl rfl
  | skipped _ _ => contradiction
  | kept stretch kept _ =>
    obtain rfl := List.mem_singleton.mp given
    obtain ⟨first, rest, _, _, spelled, _⟩ := valid
    refine .inr ⟨significant stretch, ?_, spelled⟩
    intro token inside
    have before : token ∈ beforeFinish tokens := by
      rw [← cut.tokens_eq]
      exact List.mem_flatMap.mpr ⟨_, member, (List.mem_filter.mp inside).1⟩
    exact List.takeWhile_sublist _ |>.mem before

/-- The tokens before the end mark can be cut into stretches that account for all statements and all
    reports of the parser, in order. -/
theorem parse_accounts_for_tokens (tokens : List Token) :
    ∃ segments, IsCut segments (beforeFinish tokens)
      (parse tokens).statements (parse tokens).reports := by
  by_cases empty : tokens = []
  · subst empty
    exact ⟨[], isCut_nil⟩
  · exact parse_isCut empty

end ScriptFrontend
