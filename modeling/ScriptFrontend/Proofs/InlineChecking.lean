import ScriptFrontend.Proofs.OperandNames

/-! # Checking while reading

The parser checks variables while it reads.  `parse_reports_eq_checks` says that this comes to the same
as checking the finished statements one by one, each with the types that the statements before it
declare.  A statement that was given up has complained of the names that it used so far, and of the
token that did not fit; it declares nothing.

The cut into stretches is that of `parse_accounts_for_tokens`, with more said about each stretch.
`Settling` is what is known in the middle of one, and `Progress` what one more token makes of it: from
`Effect` comes what the tokens spell, from `Ledger` what was reported about them.
-/

namespace ScriptFrontend

open Grammar Checker

/-! ## Stretches and their reports -/

/-- What the reports of a stretch are when the names before it have some types: for a statement, what
    the checker says of it; for a stretch that was given up, its names that are undefined and then the
    token that does not fit, which is its own or the end mark. -/
def Segment.ReportsFit (types : Symbol → Option Ty) : Segment → Prop
  | .blank _ => True
  | .kept _ statement reports => reports = Checker.action types statement.action
  | .skipped tokens reports =>
    ∃ read culprit fault, reports = undefined types (operandNames read) ++ [.grammar fault culprit] ∧
      ((∃ dropped, significant tokens = read ++ culprit :: dropped) ∨
        (significant tokens = read ∧ culprit.kind = .finish))

/-- Stretches that the parser reads one after the other, with reports that fit. -/
def InTurn : ParserState → List Segment → Prop
  | _, [] => True
  | state, segment :: rest =>
    (Parser.run state segment.tokens).statements = segment.statements ∧
      segment.ReportsFit state.scope.lookup ∧ InTurn (Parser.run state segment.tokens).state rest

theorem onlyBinding_undefined (types : Symbol → Option Ty) (names : List Token) :
    OnlyBinding (undefined types names) := by
  intro report member
  simp only [undefined, List.mem_map] at member
  obtain ⟨name, -, rfl⟩ := member
  trivial

/-- The tokens of a stretch other than a blank line begin with a token that counts. -/
def Begins (tokens : List Token) (first : Token) : Prop :=
  tokens.head? = some first ∧ first.kind ≠ .blankLine

theorem Begins.append {tokens : List Token} {first : Token} (begins : Begins tokens first)
    (more : List Token) : Begins (tokens ++ more) first :=
  ⟨by simp [begins.1], begins.2⟩

theorem valid_of_reportsFit {types : Symbol → Option Ty} {tokens : List Token} {first : Token}
    {reports : List Report} (begins : Begins tokens first)
    (fit : (Segment.skipped tokens reports).ReportsFit types) : (Segment.skipped tokens reports).Valid := by
  obtain ⟨read, culprit, fault, rfl, place⟩ := fit
  obtain ⟨others, rfl⟩ := List.head?_eq_some_iff.mp begins.1
  refine ⟨first, others, rfl, begins.2, _, fault, culprit, rfl, onlyBinding_undefined _ _, ?_⟩
  cases place with
  | inl own =>
    obtain ⟨dropped, spelled⟩ := own
    have member : culprit ∈ significant (first :: others) := by simp [spelled]
    exact .inl (List.mem_filter.mp member).1
  | inr atEnd => exact .inr atEnd.2

/-! ## In the middle of a stretch -/

/-- What has become of the tokens of an unfinished stretch that was begun in a state. -/
inductive Settling (base : ParserState) : List Token → ParserOutcome → Prop where
  | between : base.mode = .start → Settling base [] ⟨base, [], []⟩
  | underway {tokens : List Token} {first : Token} {mode : Mode} :
      Begins tokens first → Reading first.origin mode (significant tokens) →
      Settling base tokens ⟨⟨mode, base.scope⟩, [], undefined base.scope.lookup mode.uses⟩
  | lost {tokens read dropped : List Token} {first culprit : Token} {mode : Mode} (fault : GrammarFault) :
      Begins tokens first → mode = .stray ∨ mode = .skipping →
      significant tokens = read ++ culprit :: dropped →
      Settling base tokens ⟨⟨mode, base.scope⟩, [],
        undefined base.scope.lookup (operandNames read) ++ [.grammar fault culprit]⟩

/-- What tokens have given that are a whole stretch. -/
structure Finished (base : ParserState) (segment : Segment) (outcome : ParserOutcome) : Prop where
  valid : segment.Valid
  fit : segment.ReportsFit base.scope.lookup
  statements_eq : outcome.statements = segment.statements
  reports_eq : outcome.reports = segment.reports

/-- What tokens can have come to: an unfinished stretch, or a whole one and the place between two
    statements. -/
inductive Progress (base : ParserState) (tokens : List Token) (outcome : ParserOutcome) : Prop where
  | unfinished : Settling base tokens outcome → Progress base tokens outcome
  | finished (segment : Segment) : segment.tokens = tokens → Finished base segment outcome →
      outcome.state.mode = .start → Progress base tokens outcome

theorem finished_lost {base state : ParserState} {tokens read dropped : List Token} {first culprit : Token}
    (fault : GrammarFault) (begins : Begins tokens first)
    (spelled : significant tokens = read ++ culprit :: dropped) :
    let reports := undefined base.scope.lookup (operandNames read) ++ [.grammar fault culprit]
    Finished base (.skipped tokens reports) ⟨state, [], reports⟩ := by
  intro reports
  have fit : (Segment.skipped tokens reports).ReportsFit base.scope.lookup :=
    ⟨read, culprit, fault, rfl, .inl ⟨dropped, spelled⟩⟩
  exact ⟨valid_of_reportsFit begins fit, fit, rfl, rfl⟩

/-- A stretch that is given up goes on until the parser is between statements. -/
theorem progress_lost {base : ParserState} {tokens read dropped : List Token} {first culprit : Token}
    {mode : Mode} (fault : GrammarFault) (begins : Begins tokens first) (idle : mode.IsIdle)
    (spelled : significant tokens = read ++ culprit :: dropped) :
    Progress base tokens ⟨⟨mode, base.scope⟩, [],
      undefined base.scope.lookup (operandNames read) ++ [.grammar fault culprit]⟩ := by
  cases idle with
  | inl between => exact .finished (.skipped tokens _) rfl (finished_lost fault begins spelled) between
  | inr lost => exact .unfinished (.lost fault begins lost spelled)

/-- A token that does not fit is reported after the names that were used. -/
theorem Ledger.refused {scope : Scope} {uses operands : List Token} {token culprit : Token}
    {state : ParserState} {fault : GrammarFault} {earlier : List Report}
    (ledger : Ledger scope uses operands token ⟨state, [], earlier ++ [.grammar fault culprit]⟩) :
    state.scope = scope ∧
      undefined scope.lookup uses ++ earlier = undefined scope.lookup operands := by
  generalize whole : earlier ++ [.grammar fault culprit] = reports at ledger
  cases ledger with
  | @reads mode _ balance =>
    -- Nothing but undefined names would have been reported.
    have only := onlyBinding_undefined scope.lookup mode.uses
    rw [← balance, ← whole] at only
    exact absurd (only (.grammar fault culprit) (by simp)) id
  | refuses reported balance =>
    obtain ⟨rfl, -⟩ := List.append_inj' (whole.trans reported) rfl
    exact ⟨rfl, balance⟩

/-- What a token makes of a statement under way, seen from the tokens and from the reports. -/
theorem Effect.progress {base : ParserState} {tokens read uses : List Token} {first token : Token}
    {outcome : ParserOutcome} (begins : Begins tokens first) (spelled : significant tokens = read ++ [token])
    (effect : Effect first.origin read token outcome)
    (ledger : Ledger base.scope uses (operandNames read) token outcome) :
    Progress base tokens
      { outcome with reports := undefined base.scope.lookup uses ++ outcome.reports } := by
  cases effect with
  | reads reading binding =>
    cases ledger with
    | reads balance =>
      simp only [balance]
      exact .unfinished (.underway begins (spelled ▸ reading))
    | refuses reported balance =>
      rw [reported, onlyBinding_append] at binding
      exact absurd (binding.2 _ (.head _)) id
  | @completes _ done spells completed =>
    obtain ⟨scope, reports, rfl, binding⟩ := completed
    cases ledger with
    | completes balance extended =>
      have checked : OnlyBinding (Checker.action base.scope.lookup done) := by
        rw [← balance, onlyBinding_append]
        exact ⟨onlyBinding_undefined _ _, binding⟩
      obtain ⟨others, rfl⟩ := List.head?_eq_some_iff.mp begins.1
      simp only [balance]
      exact .finished (.kept (first :: others) ⟨done, first.origin⟩ _) rfl
        ⟨⟨first, others, rfl, begins.2, spelled ▸ spells, rfl, checked⟩, rfl, rfl, rfl⟩ rfl
  | @refuses mode scope fault reports idle binding =>
    obtain ⟨rfl, balance⟩ := ledger.refused
    simp only [← List.append_assoc, balance]
    exact progress_lost fault begins idle spelled

/-! ## Token by token -/

/-- An outcome and then another one, which goes on where the first has ended. -/
def ParserOutcome.andThen (before now : ParserOutcome) : ParserOutcome :=
  ⟨now.state, before.statements ++ now.statements, before.reports ++ now.reports⟩

theorem run_concat (base : ParserState) (tokens : List Token) (token : Token) :
    Parser.run base (tokens ++ [token]) =
      (Parser.run base tokens).andThen (Parser.step (Parser.run base tokens).state token) := by
  simp [Parser.run_append, Parser.run, ParserOutcome.andThen]

/-- The first token of a stretch that is no blank line. -/
theorem progress_first (base : ParserState) {token : Token} (notBlank : token.kind ≠ .blankLine)
    (goesOn : token.kind ≠ .finish) :
    Progress base [token] (Parser.begin base.scope token) := by
  have spelled : significant [token] = [] ++ [token] := by simp [significant, notBlank]
  exact (begin_effect base.scope goesOn).progress ⟨rfl, notBlank⟩ spelled begin_ledger

theorem takeBlankLine_inside {mode : Mode} (inside : mode ≠ .start) (scope : Scope) (token : Token) :
    Parser.takeBlankLine ⟨mode, scope⟩ token = ⟨⟨mode, scope⟩, [], []⟩ := by
  cases mode <;> simp_all [Parser.takeBlankLine]

/-- Where a statement was given up, a token begins the next one or is dropped. -/
theorem skip_cases (scope : Scope) (token : Token) :
    Parser.skip scope token = Parser.begin scope token ∨
      Parser.skip scope token = Parser.goOn scope (Parser.afterDropped token) := by
  unfold Parser.skip
  split
  · next keyword kind =>
    by_cases begins : keyword.beginsStatement
    · exact .inl (by simp [begins])
    · exact .inr (by simp [begins, Parser.afterDropped, kind])
  · exact .inr rfl

/-- A blank line is a stretch of its own between statements, and otherwise part of the one in hand. -/
theorem Settling.blankLine {base : ParserState} {tokens : List Token} {before : ParserOutcome}
    (settling : Settling base tokens before) {token : Token} (blank : token.kind = .blankLine) :
    Progress base (tokens ++ [token]) (before.andThen (Parser.takeBlankLine before.state token)) := by
  cases settling with
  | between mode =>
    have taken : Parser.takeBlankLine base token = ⟨base, [⟨.blankLine, token.origin⟩], []⟩ := by
      simp [Parser.takeBlankLine, mode]
    simp only [taken]
    exact .finished (.blank token) rfl ⟨blank, trivial, rfl, rfl⟩ mode
  | @underway _ first mode begins reading =>
    have passed := takeBlankLine_inside reading.ne_start base.scope token
    rw [← significant_append_blank blank] at reading
    simpa [passed, ParserOutcome.andThen] using
      Progress.unfinished (.underway (begins.append [token]) reading)
  | @lost _ read dropped first culprit mode fault begins lost spelled =>
    have inside : mode ≠ .start := by rcases lost with rfl | rfl <;> simp
    have passed := takeBlankLine_inside inside base.scope token
    rw [← significant_append_blank blank] at spelled
    simpa [passed, ParserOutcome.andThen] using
      Progress.unfinished (.lost fault (begins.append [token]) lost spelled)

/-- Any other token goes on with the stretch in hand, unless it is a keyword that begins statements and
    the stretch was given up: then the stretch ends before it. -/
theorem Settling.token {base : ParserState} {tokens : List Token} {before : ParserOutcome}
    (settling : Settling base tokens before) {token : Token} (notBlank : token.kind ≠ .blankLine)
    (goesOn : token.kind ≠ .finish) :
    Progress base (tokens ++ [token]) (before.andThen (Parser.takeToken before.state token)) ∨
      ∃ segment, segment.tokens = tokens ∧ Finished base segment before ∧
        Parser.takeToken before.state token = Parser.begin before.state.scope token := by
  cases settling with
  | between mode =>
    have taken : Parser.takeToken base token = Parser.begin base.scope token := by
      simp [Parser.takeToken, mode]
    exact .inl (by simpa [taken, ParserOutcome.andThen] using progress_first _ notBlank goesOn)
  | @underway _ first mode begins reading =>
    have ledger := takeToken_ledger ⟨mode, base.scope⟩ token
    rw [reading.operands] at ledger
    exact .inl ((takeToken_effect base.scope reading token).progress (begins.append [token])
      (significant_append_token notBlank tokens) ledger)
  | @lost _ read dropped first culprit mode fault begins lost spelled =>
    have given : significant (tokens ++ [token]) = read ++ culprit :: (dropped ++ [token]) := by
      simp [significant_append_token notBlank, spelled]
    have stays : Progress base (tokens ++ [token]) ⟨⟨Parser.afterDropped token, base.scope⟩, [], _⟩ :=
      progress_lost fault (begins.append [token]) (afterDropped_isIdle token) given
    rcases lost with rfl | rfl
    · exact .inl (by simpa [Parser.takeToken, Parser.goOn, ParserOutcome.andThen] using stays)
    · cases skip_cases base.scope token with
      | inl begun =>
        exact .inr ⟨.skipped tokens _, rfl, finished_lost fault begins spelled, begun⟩
      | inr dropped =>
        exact .inl (by simpa [Parser.takeToken, dropped, Parser.goOn, ParserOutcome.andThen] using stays)

/-! ## Whole runs -/

/-- That the rest of the tokens, and then the end mark, can be cut after any unfinished stretch. -/
def RestInTurn (rest : List Token) (stop : Token) : Prop :=
  ∀ base tokens, Settling base tokens (Parser.run base tokens) →
    let outcome := Parser.run base (tokens ++ (rest ++ [stop]))
    ∃ segments, IsCut segments (tokens ++ rest) outcome.statements outcome.reports ∧ InTurn base segments

/-- A whole stretch comes before what is cut after it. -/
theorem Finished.cons {base : ParserState} {segment : Segment}
    (finished : Finished base segment (Parser.run base segment.tokens)) {segments : List Segment}
    {rest more : List Token}
    (cut : IsCut segments rest (Parser.run (Parser.run base segment.tokens).state more).statements
      (Parser.run (Parser.run base segment.tokens).state more).reports)
    (inTurn : InTurn (Parser.run base segment.tokens).state segments) :
    let outcome := Parser.run base (segment.tokens ++ more)
    IsCut (segment :: segments) (segment.tokens ++ rest) outcome.statements outcome.reports ∧
      InTurn base (segment :: segments) := by
  refine ⟨?_, finished.statements_eq, finished.fit, inTurn⟩
  have whole := cut.cons finished.valid
  rw [← finished.statements_eq, ← finished.reports_eq] at whole
  rw [Parser.run_append]
  exact whole

theorem Progress.goOn {base : ParserState} {tokens rest : List Token} {stop : Token}
    (progress : Progress base tokens (Parser.run base tokens)) (later : RestInTurn rest stop) :
    let outcome := Parser.run base (tokens ++ (rest ++ [stop]))
    ∃ segments, IsCut segments (tokens ++ rest) outcome.statements outcome.reports ∧
      InTurn base segments := by
  cases progress with
  | unfinished settling => exact later base tokens settling
  | finished segment whole finished between =>
    subst whole
    obtain ⟨segments, cut, inTurn⟩ := later (Parser.run base segment.tokens).state [] (.between between)
    exact ⟨segment :: segments, finished.cons cut inTurn⟩

/-- The end mark finishes a stretch that is not whole, and adds nothing otherwise. -/
theorem restInTurn_nil {stop : Token} (ends : stop.kind = .finish) : RestInTurn [] stop := by
  intro base tokens settling
  have notBlank : stop.kind ≠ .blankLine := by simp [ends]
  rw [List.nil_append, List.append_nil, run_concat, Parser.step, if_neg notBlank]
  generalize ran : Parser.run base tokens = before at settling
  cases settling with
  | between mode =>
    refine ⟨[], ?_, trivial⟩
    simpa [Parser.takeToken, mode, Parser.begin, ends, Parser.goOn, ParserOutcome.andThen] using isCut_nil
  | @underway _ first mode begins reading =>
    obtain ⟨earlier, fault, -, taken⟩ := takeToken_finish base.scope reading ends
    have ledger := takeToken_ledger ⟨mode, base.scope⟩ stop
    rw [taken, reading.operands] at ledger
    have fit : (Segment.skipped tokens _).ReportsFit base.scope.lookup :=
      ⟨significant tokens, stop, fault, rfl, .inr ⟨rfl, ends⟩⟩
    refine ⟨[.skipped tokens _], ?_, by simp [Segment.tokens, ran, Segment.statements], fit, trivial⟩
    simpa [taken, ParserOutcome.andThen, ← List.append_assoc, ledger.refused.2] using
      isCut_skipped (valid_of_reportsFit begins fit)
  | @lost _ read dropped first culprit mode fault begins lost spelled =>
    have finished : Finished base (.skipped tokens _) ⟨⟨mode, base.scope⟩, [], _⟩ :=
      finished_lost fault begins spelled
    have taken : Parser.takeToken ⟨mode, base.scope⟩ stop = ⟨⟨.skipping, base.scope⟩, [], []⟩ := by
      rcases lost with rfl | rfl <;>
        simp [Parser.takeToken, Parser.skip, Parser.afterDropped, ends, Parser.goOn]
    refine ⟨[.skipped tokens _], ?_, by simp [Segment.tokens, ran, Segment.statements], finished.fit, trivial⟩
    simpa [taken, ParserOutcome.andThen] using isCut_skipped finished.valid

theorem restInTurn (rest : List Token) (goesOn : ∀ token ∈ rest, token.kind ≠ .finish) {stop : Token}
    (ends : stop.kind = .finish) : RestInTurn rest stop := by
  induction rest with
  | nil => exact restInTurn_nil ends
  | cons token rest inductionHypothesis =>
    have later := inductionHypothesis fun other member => goesOn other (.tail _ member)
    intro base tokens settling
    have here := run_concat base tokens token
    have regrouped : tokens ++ (token :: rest ++ [stop]) = tokens ++ [token] ++ (rest ++ [stop]) := by simp
    have regroupedRest : tokens ++ token :: rest = tokens ++ [token] ++ rest := by simp
    by_cases blank : token.kind = .blankLine
    · have progress := settling.blankLine blank
      rw [Parser.step, if_pos blank] at here
      rw [regrouped, regroupedRest]
      exact (here ▸ progress).goOn later
    · rw [Parser.step, if_neg blank] at here
      cases settling.token blank (goesOn token (.head _)) with
      | inl progress =>
        rw [regrouped, regroupedRest]
        exact (here ▸ progress).goOn later
      | inr begun =>
        -- The token begins a stretch of its own, from the state in which the one before it ends.
        obtain ⟨segment, rfl, finished, taken⟩ := begun
        have first := progress_first (Parser.run base segment.tokens).state blank (goesOn token (.head _))
        rw [← taken] at first
        have single : Parser.run (Parser.run base segment.tokens).state [token] =
            Parser.takeToken (Parser.run base segment.tokens).state token := by
          simp [Parser.run, Parser.step, blank]
        obtain ⟨segments, cut, inTurn⟩ := (single ▸ first).goOn later
        exact ⟨segment :: segments, finished.cons cut inTurn⟩

theorem parse_inTurn (tokens : List Token) :
    ∃ segments, IsCut segments (beforeFinish tokens) (parse tokens).statements (parse tokens).reports ∧
      InTurn ⟨.start, .empty⟩ segments := by
  by_cases empty : tokens = []
  · subst empty
    exact ⟨[], isCut_nil, trivial⟩
  · obtain ⟨stop, ends, ended⟩ := terminated_eq empty
    have cut := restInTurn _ (goesOn_beforeFinish tokens) ends ⟨.start, .empty⟩ [] (.between rfl)
    simpa only [parse, parseWith, ended, List.nil_append] using cut

/-- Each stretch is read in the state that the stretches before it lead to. -/
theorem InTurn.split {base : ParserState} {before after : List Segment} {segment : Segment}
    (inTurn : InTurn base (before ++ segment :: after)) :
    (Parser.run base (before.flatMap Segment.tokens)).statements = before.flatMap Segment.statements ∧
      segment.ReportsFit (Parser.run base (before.flatMap Segment.tokens)).state.scope.lookup := by
  induction before generalizing base with
  | nil => exact ⟨rfl, inTurn.2.1⟩
  | cons first before inductionHypothesis =>
    obtain ⟨statements, fit⟩ := inductionHypothesis inTurn.2.2
    rw [List.flatMap_cons, Parser.run_append]
    exact ⟨by rw [inTurn.1, statements, List.flatMap_cons], fit⟩

theorem lookup_run_empty (tokens : List Token) :
    (Parser.run ⟨.start, .empty⟩ tokens).state.scope.lookup =
      declaredType? (Parser.run ⟨.start, .empty⟩ tokens).statements := by
  funext name
  rw [run_extends ⟨.start, .empty⟩ tokens name]
  simp

/-! ## Where the reports point -/

variable {types : Symbol → Option Ty}

/-- A complaint about a name gives the place of the name, and its text. -/
theorem toDiagnostic_of_isName {name : Token} (named : IsName name) (error : BindingError) :
    (Report.binding error name).toDiagnostic =
      ⟨.parse, name.file, name.line, some (.lexeme name.lexeme.text), error.message⟩ := by
  obtain ⟨text, kind⟩ := named
  simp [Report.toDiagnostic, Diagnostic.parse, kind]

theorem isName_of_reported {segment : Segment} (valid : segment.Valid) (fit : segment.ReportsFit types)
    {error : BindingError} {name : Token} (reported : .binding error name ∈ segment.reports) :
    IsName name := by
  cases segment with
  | blank line => contradiction
  | kept tokens statement reports =>
    obtain ⟨first, rest, -, -, spelled, -⟩ := valid
    obtain rfl : reports = _ := fit
    obtain ⟨_, other, inside, same⟩ := action_about statement.action _ reported
    cases same
    exact (spelled.names name inside).2
  | skipped tokens reports =>
    obtain ⟨read, culprit, fault, rfl, -⟩ := fit
    cases List.mem_append.mp reported with
    | inl used =>
      obtain ⟨_, other, inside, same⟩ := undefined_about _ _ used
      cases same
      exact isName_iff.mp (List.mem_filter.mp inside).2
    | inr culprit => simp at culprit

theorem typeKind?_ne_void {ty : Ty} {kind : TokenKind} (named : typeKind? ty = some kind) : ty ≠ .void := by
  rintro rfl
  contradiction

theorem Grammar.Spells.declared_ne_void {tokens : List Token} {statement : Stmt}
    (spelled : Spells tokens statement.action) (name : Symbol) : statement.declared? name ≠ some .void := by
  obtain ⟨done, origin⟩ := statement
  cases spelled with
  | expression _ _ | print _ _ _ | assign _ _ _ _ => simp [Stmt.declared?]
  | declare typed _ _ | initialized typed _ _ _ _ => simp [Stmt.declared?, typeKind?_ne_void typed]

/-- No stretch declares a name as `void`. -/
theorem declaredType?_ne_void {segments : List Segment} (valid : ∀ segment ∈ segments, segment.Valid)
    (name : Symbol) : declaredType? (segments.flatMap Segment.statements) name ≠ some .void := by
  intro found
  obtain ⟨statement, member, declared⟩ := List.exists_of_findSome?_eq_some found
  obtain ⟨segment, here, given⟩ := List.mem_flatMap.mp member
  have validHere := valid segment here
  cases segment with
  | blank line =>
    obtain rfl := List.mem_singleton.mp given
    contradiction
  | kept _ _ _ =>
    obtain rfl := List.mem_singleton.mp given
    obtain ⟨first, rest, -, -, spelled, -⟩ := validHere
    exact spelled.declared_ne_void name declared
  | skipped _ _ => contradiction

/-- The reports about each stretch are those of a check of what became of it, made with the types that
    the statements before it declare: the first declaration of a name counts, and none is `void`.  These
    types are also what the parser's scope holds when it comes to the stretch.  A complaint about a name
    points at the name. -/
theorem parse_reports_eq_checks (tokens : List Token) :
    ∃ segments, IsCut segments (beforeFinish tokens) (parse tokens).statements (parse tokens).reports ∧
      ∀ before segment after, segments = before ++ segment :: after →
        let types := declaredType? (before.flatMap Segment.statements)
        (Parser.run ⟨.start, .empty⟩ (before.flatMap Segment.tokens)).state.scope.lookup = types ∧
          (∀ name, types name ≠ some .void) ∧ segment.ReportsFit types ∧
          ∀ error name, .binding error name ∈ segment.reports →
            (Report.binding error name).toDiagnostic =
              ⟨.parse, name.file, name.line, some (.lexeme name.lexeme.text), error.message⟩ := by
  obtain ⟨segments, cut, inTurn⟩ := parse_inTurn tokens
  refine ⟨segments, cut, ?_⟩
  rintro before segment after rfl types
  obtain ⟨statements, fit⟩ := inTurn.split
  have lookup := lookup_run_empty (before.flatMap Segment.tokens)
  rw [statements] at lookup
  rw [lookup] at fit
  refine ⟨lookup, ?_, fit, ?_⟩
  · exact declaredType?_ne_void fun earlier member => cut.valid earlier (by simp [member])
  · intro error name reported
    exact toDiagnostic_of_isName (isName_of_reported (cut.valid segment (by simp)) fit reported) error

end ScriptFrontend
