import ScriptFrontend.Parser.Frame
import ScriptFrontend.Parser.Report

/-! # Parsing

The parser reads each token once.  Between tokens it is in a `Mode`, which says what may come next and
holds what the statement in hand has become so far; beside it lies the scope of the variables declared
before.  `step` takes one token, and `run` takes many.

A token that does not fit is reported and costs the statement in hand.  The token is dropped, and with
it all that follows up to a semicolon, which is dropped too, or up to a keyword that begins a statement,
which is not.  A closing parenthesis where an operand is due takes the token after it along unseen.

Blank lines count between statements only.  Anywhere else they are passed over.
-/

namespace ScriptFrontend

/-- What an expression is read for. -/
inductive Goal where
  | expression
  | print
  | declare (ty : Ty) (name : Token)
  | assign (name : Token)
  deriving DecidableEq, Repr

/-- What the semicolon after the expression ends. -/
def Goal.phrase : Goal → Phrase
  | .expression => .expression
  | .print => .value
  | .declare .. => .declaration
  | .assign _ => .assignment

/-- What the parser is in the middle of.  In a statement it keeps the place of the statement's first token. -/
inductive Mode where
  -- Between statements.
  | start
  -- A type was read, and a name is due.
  | typed (origin : Origin) (ty : Ty)
  -- A type and a name were read.
  | named (origin : Origin) (ty : Ty) (name : Token)
  -- A name was read at the beginning of a statement.
  | leading (name : Token)
  -- An operand is due.
  | operand (origin : Origin) (goal : Goal) (frames : List Frame)
  -- An operand was read, and an operator or an end is due.
  | operator (origin : Origin) (goal : Goal) (frames : List Frame) (operand : Expr)
  -- A closing parenthesis stood where an operand was due.
  | stray
  -- A statement was given up.
  | skipping
  deriving DecidableEq, Repr

structure ParserState where
  mode : Mode
  scope : Scope
  deriving DecidableEq, Repr

/-- What tokens lead to: a state, and the statements and reports they completed. -/
structure ParserOutcome where
  state : ParserState
  statements : List Stmt
  reports : List Report
  deriving DecidableEq, Repr

namespace Parser

/-- Nothing completed. -/
def goOn (scope : Scope) (mode : Mode) : ParserOutcome := ⟨⟨mode, scope⟩, [], []⟩

/-- The mode after a token is dropped: a semicolon ends what is given up. -/
def afterDropped (token : Token) : Mode :=
  if token.kind = .mark .semicolon then .start else .skipping

/-- Reports a token that does not fit, and drops it. -/
def refuse (scope : Scope) (fault : GrammarFault) (token : Token) : ParserOutcome :=
  ⟨⟨afterDropped token, scope⟩, [], [.grammar fault token]⟩

def checkUse (scope : Scope) (name : Token) : List Report :=
  match scope.lookup name.lexeme with
  | some _ => []
  | none => [.binding (.undefined name.lexeme) name]

/-- Completes a declaration.  A clashing one is reported, and kept. -/
def declare (scope : Scope) (origin : Origin) (ty : Ty) (name : Token) (initial : Option Expr) :
    ParserOutcome :=
  let initialReports := match initial with
    | some value =>
      Report.ofCheck name (Scope.checkInitializer name.lexeme ty (scope.staticType value))
    | none => []
  let defined := scope.define name.lexeme ty
  let scope := match defined with
    | .ok extended => extended
    | .error _ => scope
  ⟨⟨.start, scope⟩, [⟨.declare ty name initial, origin⟩],
    initialReports ++ Report.ofCheck name defined⟩

/-- Completes a statement with the expression that was read for it. -/
def complete (scope : Scope) (origin : Origin) (goal : Goal) (value : Expr) : ParserOutcome :=
  match goal with
  | .expression => ⟨⟨.start, scope⟩, [⟨.expression value, origin⟩], []⟩
  | .print => ⟨⟨.start, scope⟩, [⟨.print value, origin⟩], []⟩
  | .declare ty name => declare scope origin ty name (some value)
  | .assign name =>
    ⟨⟨.start, scope⟩, [⟨.assign name value, origin⟩],
      Report.ofCheck name (scope.checkAssignment name.lexeme (scope.staticType value))⟩

/-- Takes a token where an operand is due. -/
def takeOperand (scope : Scope) (origin : Origin) (goal : Goal) (frames : List Frame)
    (token : Token) : ParserOutcome :=
  match token.kind.value? with
  | some value => goOn scope (.operator origin goal frames (.literal value))
  | none =>
    match token.kind with
    | .identifier _ =>
      ⟨⟨.operator origin goal frames (.variable token), scope⟩, [], checkUse scope token⟩
    | .mark .closeParen => ⟨⟨.stray, scope⟩, [], [.grammar .unexpectedCloseParen token]⟩
    | .mark .openParen => goOn scope (.operand origin goal (.group :: frames))
    | .mark .bang | .mark .minus => goOn scope (.operand origin goal (.unary token :: frames))
    | _ => refuse scope .expectedExpression token

/-- Takes a token after an operand. -/
def takeOperator (scope : Scope) (origin : Origin) (goal : Goal) (frames : List Frame)
    (operand : Expr) (token : Token) : ParserOutcome :=
  match token.kind.level? with
  | some level =>
    let (left, rest) := Frame.collapse level.strength operand frames
    goOn scope (.operand origin goal (.binary left token level :: rest))
  | none =>
    match Frame.collapse 0 operand frames with
    | (inner, .group :: rest) =>
      if token.kind = .mark .closeParen then
        goOn scope (.operator origin goal rest (.grouping inner))
      else refuse scope .expectedCloseParen token
    | (whole, _) =>
      if token.kind = .mark .semicolon then complete scope origin goal whole
      else refuse scope (.expectedSemicolon goal.phrase) token

/-- Takes the first token of a statement, or the end mark between statements. -/
def begin (scope : Scope) (token : Token) : ParserOutcome :=
  match token.kind with
  | .finish => goOn scope .start
  | .keyword .kwInt => goOn scope (.typed token.origin .int)
  | .keyword .kwDouble => goOn scope (.typed token.origin .double)
  | .keyword .kwString => goOn scope (.typed token.origin .string)
  | .keyword .kwBool => goOn scope (.typed token.origin .bool)
  | .keyword .kwPrint => goOn scope (.operand token.origin .print [])
  | .identifier _ => goOn scope (.leading token)
  | _ => takeOperand scope token.origin .expression [] token

def takeName (scope : Scope) (origin : Origin) (ty : Ty) (token : Token) : ParserOutcome :=
  match token.kind with
  | .identifier _ => goOn scope (.named origin ty token)
  | _ => refuse scope .expectedName token

def takeInitial (scope : Scope) (origin : Origin) (ty : Ty) (name token : Token) : ParserOutcome :=
  match token.kind with
  | .mark .equal => goOn scope (.operand origin (.declare ty name) [])
  | .mark .semicolon => declare scope origin ty name none
  | _ => refuse scope (.expectedSemicolon .declaration) token

/-- Takes a token after a name at the beginning of a statement: an equals sign makes it an assignment,
    and anything else shows that the name was an operand. -/
def takeLeading (scope : Scope) (name token : Token) : ParserOutcome :=
  match token.kind with
  | .mark .equal => goOn scope (.operand name.origin (.assign name) [])
  | _ =>
    let outcome := takeOperator scope name.origin .expression [] (.variable name) token
    { outcome with reports := checkUse scope name ++ outcome.reports }

def skip (scope : Scope) (token : Token) : ParserOutcome :=
  match token.kind with
  | .keyword keyword => if keyword.beginsStatement then begin scope token else goOn scope .skipping
  | _ => goOn scope (afterDropped token)

def takeToken (state : ParserState) (token : Token) : ParserOutcome :=
  match state.mode with
  | .start => begin state.scope token
  | .typed origin ty => takeName state.scope origin ty token
  | .named origin ty name => takeInitial state.scope origin ty name token
  | .leading name => takeLeading state.scope name token
  | .operand origin goal frames => takeOperand state.scope origin goal frames token
  | .operator origin goal frames operand =>
    takeOperator state.scope origin goal frames operand token
  | .stray => goOn state.scope (afterDropped token)
  | .skipping => skip state.scope token

/-- Takes a blank line, which is a statement of its own between statements. -/
def takeBlankLine (state : ParserState) (token : Token) : ParserOutcome :=
  match state.mode with
  | .start => ⟨state, [⟨.blankLine, token.origin⟩], []⟩
  | _ => ⟨state, [], []⟩

def step (state : ParserState) (token : Token) : ParserOutcome :=
  if token.kind = .blankLine then takeBlankLine state token else takeToken state token

/-- Takes tokens in order and collects what they complete. -/
def run (state : ParserState) : List Token → ParserOutcome
  | [] => ⟨state, [], []⟩
  | token :: rest =>
    let now := step state token
    let later := run now.state rest
    ⟨later.state, now.statements ++ later.statements, now.reports ++ later.reports⟩

/-- Reading two token lists one after the other is reading both joined. -/
theorem run_append (state : ParserState) (left right : List Token) :
    run state (left ++ right) =
      ⟨(run (run state left).state right).state,
        (run state left).statements ++ (run (run state left).state right).statements,
        (run state left).reports ++ (run (run state left).state right).reports⟩ := by
  induction left generalizing state with
  | nil => rfl
  | cons token left ih => simp [run, ih, List.append_assoc]

end Parser

/-- Tokens up to and including the first end mark.  Tokens without one are ended by their last token,
    made into an end mark. -/
def terminated (tokens : List Token) : List Token :=
  match tokens.getLast? with
  | none => []
  | some last =>
    let stop := (tokens.find? fun token => token.kind = .finish).getD { last with kind := .finish }
    tokens.takeWhile (fun token => token.kind ≠ .finish) ++ [stop]

structure Parsed where
  statements : List Stmt
  reports : List Report
  deriving DecidableEq, Repr

/-- Parses tokens, with some variables already declared. -/
def parseWith (scope : Scope) (tokens : List Token) : Parsed :=
  let outcome := Parser.run ⟨.start, scope⟩ (terminated tokens)
  ⟨outcome.statements, outcome.reports⟩

def parse (tokens : List Token) : Parsed := parseWith .empty tokens

end ScriptFrontend
