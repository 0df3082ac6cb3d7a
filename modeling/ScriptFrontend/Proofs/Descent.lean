import Mathlib.Logic.Relation
import ScriptFrontend.Parser

/-! # Parsing by descent

The parser a second time, told as routines that call each other: one for statements, one for each level of
binary operators, one for prefix operators and one for what binds by itself.  They share a cursor into the
token list.  Looking at a token may move the cursor, because blank lines are passed over; taking a token
moves it, except at an end mark.

* `Activity` — the place in the routines at which the parser is, with the calls that wait for an expression.
* `next` — one step: a look at one token at most, and what the routine does about it.  A step that would
  read outside the token list is `none`, and so is one that finds an assignment without its equals sign.
* `Reaches` — the states that the parser comes through.

Nothing here says that a run ends or stays inside the list, or that it gives what `parse` gives.
`parse_by_descent` does.
-/

namespace ScriptFrontend.Descent

/-! ## The token list -/

/-- Tokens that end in an end mark.  If they do not, a copy of their last token becomes one.  There may be
    others before it. -/
def ended (tokens : List Token) : List Token :=
  match tokens.getLast? with
  | none => []
  | some last => if last.kind = .finish then tokens else tokens ++ [{ last with kind := .finish }]

/-- The first token from a cursor on that is no blank line, and its place.  A blank line at the very end
    is not passed over.  Outside the list there is nothing to look at. -/
def peek? (tokens : List Token) (cursor : Nat) : Option (Nat × Token) :=
  match tokens[cursor]? with
  | none => none
  | some token =>
    if token.kind = .blankLine ∧ cursor + 1 < tokens.length then peek? tokens (cursor + 1)
    else some (cursor, token)
  termination_by tokens.length - cursor

/-- The first token after a cursor that is no blank line, or the one at the cursor if there is none.  What
    comes after the cursor has to begin inside the list or at its end. -/
def second? (tokens : List Token) (cursor : Nat) (first : Token) : Option Token :=
  if cursor + 1 ≤ tokens.length then
    some (((tokens.drop (cursor + 1)).find? fun token => token.kind ≠ .blankLine).getD first)
  else none

/-- Where the cursor goes when it takes the token at which it stands. -/
def past (tokens : List Token) (cursor : Nat) (token : Token) : Nat :=
  if token.kind ≠ .finish ∧ cursor + 1 < tokens.length then cursor + 1 else cursor

/-! ## States -/

/-- What a routine that has called another one will do with the expression that comes back. -/
inductive Call where
  -- It is the first operand of a level.
  | left (level : Level)
  -- It is the operand after an operator of a level.
  | right (level : Level) (left : Expr) (operator : Token)
  -- It is the operand of a prefix operator.
  | sign (operator : Token)
  -- It is in parentheses.
  | group

/-- What an expression is read for: a statement with its origin, and in it the calls under way, innermost
    first. -/
structure Context where
  origin : Origin
  goal : Goal
  calls : List Call

def Context.call (context : Context) (call : Call) : Context :=
  { context with calls := call :: context.calls }

/-- Where the parser is in its routines. -/
inductive Activity where
  -- At the head of the loop over statements.
  | rounds
  -- At the first token of a statement.
  | statement
  -- In a declaration, after its type, or after its type and its name.
  | typed (origin : Origin) (ty : Ty)
  | named (origin : Origin) (ty : Ty) (name : Token)
  -- In an assignment, before or after its name.
  | assigning
  | assigned (name : Token)
  -- At the entry of the routine of a level, and at the head of its loop.
  | level (context : Context) (level : Level)
  | operators (context : Context) (level : Level) (left : Expr)
  -- At the entry of the routines for prefix operators and for what binds by itself.
  | unary (context : Context)
  | primary (context : Context)
  -- On the way back to the routine that called.
  | returning (context : Context) (value : Expr)
  -- Before the parenthesis that closes a group, and before the semicolon that ends a statement.
  | closing (context : Context) (inner : Expr)
  | ending (origin : Origin) (goal : Goal) (value : Expr)
  -- At the entry of the recovery from a fault, and at the head of its loop.
  | synchronizing
  | recovering
  -- Out of the loop over statements.
  | finished

/-- The cursor, the scope and what has been completed and reported so far. -/
structure State where
  cursor : Nat
  scope : Scope
  statements : List Stmt
  reports : List Report
  activity : Activity

namespace State

def start : State := ⟨0, .empty, [], [], .rounds⟩

/-- Goes on elsewhere without taking a token. -/
def become (state : State) (activity : Activity) : State := { state with activity }

/-- Takes the token at the cursor. -/
def take (tokens : List Token) (state : State) (token : Token) (activity : Activity) : State :=
  { state with cursor := past tokens state.cursor token, activity }

def report (state : State) (reports : List Report) : State :=
  { state with reports := state.reports ++ reports }

/-- Gives the statement up, with all calls under way.  The token is not taken. -/
def fail (state : State) (fault : GrammarFault) (token : Token) : State :=
  (state.report [.grammar fault token]).become .synchronizing

/-- Takes the semicolon that completes a statement. -/
def complete (tokens : List Token) (state : State) (token : Token) (outcome : ParserOutcome) : State :=
  { cursor := past tokens state.cursor token
    scope := outcome.state.scope
    statements := state.statements ++ outcome.statements
    reports := state.reports ++ outcome.reports
    activity := .rounds }

/-- Looks at the next token that is no blank line, with the cursor moved to it. -/
def look (tokens : List Token) (state : State) (use : State → Token → Option State) : Option State :=
  (peek? tokens state.cursor).bind fun (cursor, token) => use { state with cursor } token

end State

/-! ## Routines -/

/-- A round of the loop over statements.  Only here do blank lines count. -/
def round (state : State) (token : Token) : State :=
  match token.kind with
  | .finish => state.become .finished
  | .blankLine =>
    { state with
      cursor := state.cursor + 1
      statements := state.statements ++ [⟨.blankLine, token.origin⟩] }
  | _ => state.become .statement

def typeNamed? : TokenKind → Option Ty
  | .keyword .kwInt => some .int
  | .keyword .kwDouble => some .double
  | .keyword .kwString => some .string
  | .keyword .kwBool => some .bool
  | _ => none

/-- The routine for expressions, which is that of the loosest level. -/
def expression (origin : Origin) (goal : Goal) (calls : List Call) : Activity :=
  .level ⟨origin, goal, calls⟩ .equality

/-- The routine for the operands of a level. -/
def operandOf (context : Context) : Level → Activity
  | .equality => .level context .comparison
  | .comparison => .level context .additive
  | .additive => .level context .multiplicative
  | .multiplicative => .level context .modulus
  | .modulus => .unary context

/-- Chooses the routine of a statement.  A name begins an assignment if an equals sign follows it. -/
def beginStatement (tokens : List Token) (state : State) (first : Token) : Option State :=
  match typeNamed? first.kind with
  | some ty => some (state.take tokens first (.typed first.origin ty))
  | none =>
    match first.kind with
    | .identifier _ =>
      (second? tokens state.cursor first).map fun second =>
        if second.kind = .mark .equal then state.become .assigning
        else state.become (expression first.origin .expression [])
    | .keyword .kwPrint => some (state.take tokens first (expression first.origin .print []))
    | _ => some (state.become (expression first.origin .expression []))

def declarationName (tokens : List Token) (origin : Origin) (ty : Ty) (state : State) (token : Token) :
    State :=
  match token.kind with
  | .identifier _ => state.take tokens token (.named origin ty token)
  | _ => state.fail .expectedName token

def declarationRest (tokens : List Token) (origin : Origin) (ty : Ty) (name : Token) (state : State)
    (token : Token) : State :=
  match token.kind with
  | .mark .equal => state.take tokens token (expression origin (.declare ty name) [])
  | .mark .semicolon => state.complete tokens token (Parser.declare state.scope origin ty name none)
  | _ => state.fail (.expectedSemicolon .declaration) token

def assignmentName (tokens : List Token) (state : State) (token : Token) : State :=
  match token.kind with
  | .identifier _ => state.take tokens token (.assigned token)
  | _ => state.fail .expectedName token

/-- The equals sign of an assignment was seen before the routine was chosen; there is no going on
    without it. -/
def assignmentValue (tokens : List Token) (name : Token) (state : State) (token : Token) : Option State :=
  match token.kind with
  | .mark .equal => some (state.take tokens token (expression name.origin (.assign name) []))
  | _ => none

def prefixOperator (tokens : List Token) (context : Context) (state : State) (token : Token) : State :=
  match token.kind with
  | .mark .bang | .mark .minus => state.take tokens token (.unary (context.call (.sign token)))
  | _ => state.become (.primary context)

def atom (tokens : List Token) (context : Context) (state : State) (token : Token) : State :=
  match token.kind.value? with
  | some value => state.take tokens token (.returning context (.literal value))
  | none =>
    match token.kind with
    | .identifier _ =>
      (state.report (Parser.checkUse state.scope token)).take tokens token
        (.returning context (.variable token))
    | .mark .closeParen =>
      (state.report [.grammar .unexpectedCloseParen token]).take tokens token .synchronizing
    | .mark .openParen =>
      state.take tokens token (expression context.origin context.goal (.group :: context.calls))
    | _ => state.fail .expectedExpression token

/-- A round of the loop over the operators of a level. -/
def operatorRound (tokens : List Token) (context : Context) (level : Level) (left : Expr) (state : State)
    (token : Token) : State :=
  if token.kind.level? = some level then
    state.take tokens token (operandOf (context.call (.right level left token)) level)
  else state.become (.returning context left)

/-- Gives a value to the innermost call. -/
def resume (origin : Origin) (goal : Goal) (value : Expr) : List Call → Activity
  | [] => .ending origin goal value
  | .left level :: calls => .operators ⟨origin, goal, calls⟩ level value
  | .right level left operator :: calls =>
    .operators ⟨origin, goal, calls⟩ level (.binary left operator value)
  | .sign operator :: calls => .returning ⟨origin, goal, calls⟩ (.unary operator value)
  | .group :: calls => .closing ⟨origin, goal, calls⟩ value

def closeGroup (tokens : List Token) (context : Context) (inner : Expr) (state : State) (token : Token) :
    State :=
  if token.kind = .mark .closeParen then state.take tokens token (.returning context (.grouping inner))
  else state.fail .expectedCloseParen token

def endStatement (tokens : List Token) (origin : Origin) (goal : Goal) (value : Expr) (state : State)
    (token : Token) : State :=
  if token.kind = .mark .semicolon then
    state.complete tokens token (Parser.complete state.scope origin goal value)
  else state.fail (.expectedSemicolon goal.phrase) token

/-- Where recovery stands when a token has been dropped. -/
def afterDropped (token : Token) : Activity :=
  if token.kind = .mark .semicolon then .rounds else .recovering

/-- A round of the loop of the recovery. -/
def recoveryRound (tokens : List Token) (state : State) (token : Token) : State :=
  match token.kind with
  | .finish => state.become .rounds
  | .keyword keyword =>
    if keyword.beginsStatement then state.become .rounds
    else state.take tokens token (afterDropped token)
  | _ => state.take tokens token (afterDropped token)

/-! ## Runs -/

/-- One step, if there is one. -/
def next (tokens : List Token) (state : State) : Option State :=
  match state.activity with
  | .rounds => tokens[state.cursor]?.map (round state)
  | .statement => state.look tokens (beginStatement tokens)
  | .typed origin ty => state.look tokens fun state token => declarationName tokens origin ty state token
  | .named origin ty name =>
    state.look tokens fun state token => declarationRest tokens origin ty name state token
  | .assigning => state.look tokens fun state token => assignmentName tokens state token
  | .assigned name => state.look tokens (assignmentValue tokens name)
  | .level context level => some (state.become (operandOf (context.call (.left level)) level))
  | .operators context level left =>
    state.look tokens fun state token => operatorRound tokens context level left state token
  | .unary context => state.look tokens fun state token => prefixOperator tokens context state token
  | .primary context => state.look tokens fun state token => atom tokens context state token
  | .returning context value =>
    some (state.become (resume context.origin context.goal value context.calls))
  | .closing context inner => state.look tokens fun state token => closeGroup tokens context inner state token
  | .ending origin goal value =>
    state.look tokens fun state token => endStatement tokens origin goal value state token
  | .synchronizing => state.look tokens fun state token => state.take tokens token (afterDropped token)
  | .recovering => state.look tokens fun state token => recoveryRound tokens state token
  | .finished => some state

/-- Many steps. -/
def run? (tokens : List Token) : Nat → State → Option State
  | 0, state => some state
  | steps + 1, state => (next tokens state).bind (run? tokens steps)

/-- What a step leads to, as long as the parser has not finished. -/
def Step (tokens : List Token) (state after : State) : Prop :=
  state.activity ≠ .finished ∧ next tokens state = some after

/-- The states that the parser comes through. -/
def Reaches (tokens : List Token) : State → Prop := Relation.ReflTransGen (Step tokens) .start

end ScriptFrontend.Descent
