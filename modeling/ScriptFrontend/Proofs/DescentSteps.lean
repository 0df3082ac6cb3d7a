import ScriptFrontend.Proofs.DescentOutlook

/-! # Steps of the descent

Every step of the descent moves it on: the cursor does not go back and stays before the first end mark or on
it, the potential falls, and the outlook stays as it is (`next_advances`).

* `Sound` — what a state relies on, above all what its calls and the token ahead have to do with each other:
  an expression is given back only when what comes next does not bind it more tightly than the calls do.
* `Advances` — what a step has to show.  There are three ways to show it: taking a token as the parser takes
  it, going elsewhere without taking one, and giving the statement up.
-/

namespace ScriptFrontend.Descent

open Grammar

/-! ## What a state relies on -/

/-- Whether what comes next binds less tightly than a tier. -/
def Below (read : List Token) (cursor tier : Nat) : Prop :=
  ∀ token, upcoming read cursor = some token → pull token < tier

/-- What a place in the routines relies on. -/
def Fits (front : List Token) (stop : Token) (cursor : Nat) : Activity → Prop
  | .rounds | .typed .. | .named .. | .synchronizing | .recovering => True
  | .statement => ∃ first, Finds front stop cursor cursor first ∧ first.kind ≠ .finish
  | .assigning => ∃ name symbol index second, Finds front stop cursor cursor name ∧
      name.kind = .identifier symbol ∧ Finds front stop (cursor + 1) index second ∧
      second.kind = .mark .equal
  | .assigned _ => ∃ second, upcoming (front ++ [stop]) cursor = some second ∧ second.kind = .mark .equal
  | .level context own => Nested context.calls own.strength
  | .operators context own _ =>
    Nested context.calls own.strength ∧ Below (front ++ [stop]) cursor (own.strength + 1)
  | .unary context => Nested context.calls 6
  | .primary context => Nested context.calls 6 ∧
      ∀ token, upcoming (front ++ [stop]) cursor = some token → ¬ IsSign token.kind
  | .returning context _ => ∃ tier, Nested context.calls tier ∧ Below (front ++ [stop]) cursor tier
  | .closing context _ => Nested context.calls 6 ∧ Below (front ++ [stop]) cursor 1
  | .ending .. => Below (front ++ [stop]) cursor 1
  | .finished => cursor = front.length

structure Sound (front : List Token) (stop : Token) (state : State) : Prop where
  inside : state.cursor ≤ front.length
  fits : Fits front stop state.cursor state.activity

theorem fits_expression (front : List Token) (stop : Token) (cursor : Nat) (origin : Origin) (goal : Goal) :
    Fits front stop cursor (expression origin goal []) := Nested.nil

theorem fits_operandOf (front : List Token) (stop : Token) (cursor : Nat) {context : Context} {level : Level}
    (nested : Nested context.calls (level.strength + 1)) :
    Fits front stop cursor (operandOf context level) := by
  cases level <;> exact nested

theorem fits_afterDropped (front : List Token) (stop : Token) (cursor : Nat) (token : Token) :
    Fits front stop cursor (afterDropped token) := by
  unfold afterDropped
  split <;> trivial

/-- After what binds by itself anything may come. -/
theorem below_six (read : List Token) (cursor : Nat) : Below read cursor 6 :=
  fun token _ => Nat.lt_succ_of_le (pull_le token)

/-! ## Moving on -/

/-- What a step has to show. -/
structure Advances (front : List Token) (stop : Token) (state after : State) : Prop where
  forward : state.cursor ≤ after.cursor
  lower : potential front after < potential front state
  sound : Sound front stop after
  kept : outlook (front ++ [stop]) after = outlook (front ++ [stop]) state

namespace Advances

variable {tokens front : List Token} {stop token : Token} {state after : State}

/-- A step may pass over blank lines first, inside a statement. -/
theorem of_look {index : Nat} (found : Finds front stop state.cursor index token)
    (inside : state.activity.mode ≠ .start)
    (advances : Advances front stop { state with cursor := index } after) : Advances front stop state after where
  forward := Nat.le_trans found.le advances.forward
  lower := Nat.lt_of_lt_of_le advances.lower (potential_look found.le)
  sound := advances.sound
  kept := advances.kept.trans (outlook_look found inside)

theorem of_report {earlier : List Report} {activity : Activity} (inside : state.cursor ≤ front.length)
    (defers : Defers ((front ++ [stop]).drop state.cursor) ⟨state.activity.mode, state.scope⟩ earlier
      ⟨activity.mode, state.scope⟩)
    (lighter : activity.weight (state.cursor < front.length) <
      state.activity.weight (state.cursor < front.length))
    (fits : Fits front stop state.cursor activity) :
    Advances front stop state ((state.report earlier).become activity) where
  forward := Nat.le_refl state.cursor
  lower := potential_lt_of_lighter rfl lighter
  sound := ⟨inside, fits⟩
  kept := outlook_become defers

/-- Going elsewhere. -/
theorem of_become {activity : Activity} (inside : state.cursor ≤ front.length)
    (defers : Defers ((front ++ [stop]).drop state.cursor) ⟨state.activity.mode, state.scope⟩ []
      ⟨activity.mode, state.scope⟩)
    (lighter : activity.weight (state.cursor < front.length) <
      state.activity.weight (state.cursor < front.length))
    (fits : Fits front stop state.cursor activity) :
    Advances front stop state (state.become activity) := by
  have advances := of_report inside defers lighter fits
  rwa [State.report, List.append_nil] at advances

/-- Going elsewhere within one mode. -/
theorem of_turn {activity : Activity} (inside : state.cursor ≤ front.length)
    (same : activity.mode = state.activity.mode)
    (lighter : activity.weight (state.cursor < front.length) <
      state.activity.weight (state.cursor < front.length))
    (fits : Fits front stop state.cursor activity) :
    Advances front stop state (state.become activity) :=
  of_become inside (same ▸ Defers.refl _ _) lighter fits

/-- Giving the statement up. -/
theorem of_fail {fault : GrammarFault} (here : Finds front stop state.cursor state.cursor token)
    (refuses : Parser.takeToken ⟨state.activity.mode, state.scope⟩ token =
      Parser.refuse state.scope fault token)
    (heavy : ∀ more, 3 < state.activity.weight more) : Advances front stop state (state.fail fault token) := by
  refine of_report here.place.inside ?_ (heavy _) trivial
  rw [here.here]
  exact .refused here.notBlank refuses _

variable (marked : Marked tokens front stop) (here : Finds front stop state.cursor state.cursor token)
  (goesOn : token.kind ≠ .finish)

include marked here goesOn

/-- Taking a token as the parser takes it. -/
theorem of_taken {statements : List Stmt} {reports : List Report}
    (moved : after.cursor = past tokens state.cursor token)
    (taken : Parser.takeToken ⟨state.activity.mode, state.scope⟩ token =
      ⟨⟨after.activity.mode, after.scope⟩, statements, reports⟩)
    (completed : after.statements = state.statements ++ statements)
    (reported : after.reports = state.reports ++ reports)
    (payable : ∀ more other, after.activity.weight more ≤ state.activity.weight other + 23)
    (fits : Fits front stop (state.cursor + 1) after.activity) : Advances front stop state after := by
  have before := here.place.before goesOn
  have moved : after.cursor = state.cursor + 1 := moved.trans (marked.past_eq goesOn before)
  exact {
    forward := by omega
    lower := potential_lt_of_moved (by omega) (by omega) payable
    sound := ⟨by omega, moved ▸ fits⟩
    kept := outlook_take here moved taken completed reported }

theorem of_take {activity : Activity}
    (taken : Parser.takeToken ⟨state.activity.mode, state.scope⟩ token =
      Parser.goOn state.scope activity.mode)
    (payable : ∀ more other, activity.weight more ≤ state.activity.weight other + 23)
    (fits : Fits front stop (state.cursor + 1) activity) :
    Advances front stop state (state.take tokens token activity) :=
  of_taken marked here goesOn rfl taken (List.append_nil _).symm (List.append_nil _).symm payable fits

/-- Taking the semicolon that completes a statement. -/
theorem of_complete {outcome : ParserOutcome} {statement : Stmt} (completes : Completes outcome statement)
    (taken : Parser.takeToken ⟨state.activity.mode, state.scope⟩ token = outcome) :
    Advances front stop state (state.complete tokens token outcome) := by
  obtain ⟨scope, reports, rfl, -⟩ := completes
  exact of_taken marked here goesOn rfl taken rfl rfl (payable_of_light weight_rounds _) trivial

end Advances

/-! ## Statements -/

theorem begin_of_typeNamed {token : Token} {ty : Ty} (typed : typeNamed? token.kind = some ty) (scope : Scope) :
    Parser.begin scope token = Parser.goOn scope (.typed token.origin ty) := by
  unfold typeNamed? at typed
  split at typed <;> cases typed <;> simp [Parser.begin, *]

theorem begin_of_other {token : Token} (goesOn : token.kind ≠ .finish) (untyped : typeNamed? token.kind = none)
    (notName : ∀ symbol, token.kind ≠ .identifier symbol) (notPrint : token.kind ≠ .keyword .kwPrint)
    (scope : Scope) :
    Parser.begin scope token = Parser.takeOperand scope token.origin .expression [] token := by
  unfold Parser.begin
  split <;> simp_all [typeNamed?]

section

variable {tokens front : List Token} {stop token : Token} {state : State} (marked : Marked tokens front stop)

include marked

/-- A round of the loop over statements stops at the end mark, or makes a statement of a blank line, or goes
    to the first token of a statement. -/
theorem round_advances (inside : state.cursor ≤ front.length) (active : state.activity = .rounds) :
    ∃ after, tokens[state.cursor]?.map (round state) = some after ∧ Advances front stop state after := by
  obtain ⟨token, read, split, place⟩ := marked.exists_token inside
  refine ⟨round state token, by rw [read, Option.map_some], ?_⟩
  unfold round
  split
  · next finish =>
    have last := place.finish_iff.mp finish
    exact .of_turn inside (by rw [active]; rfl) (by simp [active, Activity.weight, last]) last
  · next blank =>
    have before := place.before (by simp [blank])
    exact {
      forward := Nat.le_succ _
      lower := potential_lt_of_moved (Nat.lt_succ_self _) before
        (by rw [active]; exact payable_of_light weight_rounds _)
      sound := ⟨before, by simp [active, Fits]⟩
      kept := by
        simp [outlook, active, Activity.mode, split, Parser.run, Parser.step, blank, Parser.takeBlankLine] }
  · next notFinish notBlank =>
    have before := place.before notFinish
    exact .of_turn inside (by rw [active]; rfl) (by simp [active, Activity.weight, before])
      ⟨token, .standing notBlank split place, notFinish⟩

variable (here : Finds front stop state.cursor state.cursor token)

include here

/-- The first token of a statement chooses its routine. -/
theorem beginStatement_advances (goesOn : token.kind ≠ .finish) (active : state.activity = .statement) :
    ∃ after, beginStatement tokens state token = some after ∧ Advances front stop state after := by
  have before := here.place.before goesOn
  have lighter (more : Bool) :
      (expression token.origin .expression []).weight more < state.activity.weight more := by
    rw [active, weight_expression]
    exact Nat.lt_succ_self 20
  unfold beginStatement
  cases typed : typeNamed? token.kind with
  | some ty =>
    refine ⟨_, rfl, .of_take marked here goesOn ?_ (payable_of_light (by simp [Activity.weight]) _) trivial⟩
    simpa [active, Activity.mode, Parser.takeToken] using begin_of_typeNamed typed state.scope
  | none =>
    dsimp only
    split
    · next symbol named =>
      obtain ⟨index, second, seen, found⟩ := marked.second?_eq before token
      refine ⟨_, by rw [seen, Option.map_some], ?_⟩
      split
      · next equal =>
        exact .of_turn here.place.inside (by rw [active]; rfl) (by simp [active, Activity.weight])
          ⟨token, symbol, index, second, here, named, found, equal⟩
      · next notEqual =>
        refine .of_become here.place.inside ?_ (lighter _) (fits_expression ..)
        rw [here.here, active]
        exact .of_name named found notEqual state.scope
    · next print =>
      refine ⟨_, rfl, .of_take marked here goesOn ?_ (payable_expression _ _ _) (fits_expression ..)⟩
      simp [active, Activity.mode, Parser.takeToken, Parser.begin, print, expression, frames]
    · next notName notPrint =>
      refine ⟨_, rfl, .of_become here.place.inside ?_ (lighter _) (fits_expression ..)⟩
      rw [here.here, active]
      refine .of_token here.notBlank ?_ _
      simpa [Activity.mode, expression, frames, Parser.takeToken] using
        begin_of_other goesOn typed notName notPrint state.scope

theorem declarationName_advances {origin : Origin} {ty : Ty} (active : state.activity = .typed origin ty) :
    Advances front stop state (declarationName tokens origin ty state token) := by
  unfold declarationName
  split
  · next kind =>
    refine .of_take marked here (by simp [kind]) ?_ (payable_of_light (by simp [Activity.weight]) _) trivial
    simp [active, Activity.mode, Parser.takeToken, Parser.takeName, kind]
  · next kind =>
    refine .of_fail here ?_ (by simp [active, Activity.weight])
    simp only [active, Activity.mode, Parser.takeToken, Parser.takeName]

theorem declarationRest_advances {origin : Origin} {ty : Ty} {name : Token}
    (active : state.activity = .named origin ty name) :
    Advances front stop state (declarationRest tokens origin ty name state token) := by
  unfold declarationRest
  split
  · next kind =>
    refine .of_take marked here (by simp [kind]) ?_ (payable_expression _ _ _) (fits_expression ..)
    simp [active, Activity.mode, Parser.takeToken, Parser.takeInitial, kind, expression, frames]
  · next kind =>
    refine .of_complete marked here (by simp [kind]) (declare_completes ..) ?_
    simp [active, Activity.mode, Parser.takeToken, Parser.takeInitial, kind]
  · next =>
    refine .of_fail here ?_ (by simp [active, Activity.weight])
    simp only [active, Activity.mode, Parser.takeToken, Parser.takeInitial]

/-- An assignment begins with a name and has an equals sign after it. -/
theorem assignmentName_advances {index : Nat} {second : Token} {symbol : String}
    (active : state.activity = .assigning) (named : token.kind = .identifier symbol)
    (found : Finds front stop (state.cursor + 1) index second) (equal : second.kind = .mark .equal) :
    Advances front stop state (assignmentName tokens state token) := by
  simp only [assignmentName, named]
  refine .of_take marked here (by simp [named]) ?_ (payable_of_light (by simp [Activity.weight]) _)
    ⟨second, found.upcoming_eq, equal⟩
  simp [active, Activity.mode, Parser.takeToken, Parser.begin, named]

theorem assignmentValue_advances {name : Token} (active : state.activity = .assigned name)
    (equal : token.kind = .mark .equal) :
    ∃ after, assignmentValue tokens name state token = some after ∧ Advances front stop state after := by
  simp only [assignmentValue, equal]
  refine ⟨_, rfl, .of_take marked here (by simp [equal]) ?_ (payable_expression _ _ _) (fits_expression ..)⟩
  simp [active, Activity.mode, Parser.takeToken, Parser.takeLeading, equal, expression, frames]

theorem endStatement_advances {origin : Origin} {goal : Goal} {value : Expr}
    (active : state.activity = .ending origin goal value) (weak : pull token < 1) :
    Advances front stop state (endStatement tokens origin goal value state token) := by
  have level := level?_of_pull weak
  unfold endStatement
  split
  · next kind =>
    refine .of_complete marked here (by simp [kind]) (complete_completes ..) ?_
    simp only [active, Activity.mode, Parser.takeToken, Parser.takeOperator, level, Frame.collapse]
    rw [if_pos kind]
  · next kind =>
    refine .of_fail here ?_ (by simp [active, Activity.weight])
    simp only [active, Activity.mode, Parser.takeToken, Parser.takeOperator, level, Frame.collapse]
    rw [if_neg kind]

/-! ## Expressions -/

omit marked here in
/-- The first operand of a level is read by the routine for its operands. -/
theorem level_advances {context : Context} {level : Level} (inside : state.cursor ≤ front.length)
    (active : state.activity = .level context level) (nested : Nested context.calls level.strength) :
    Advances front stop state (state.become (operandOf (context.call (.left level)) level)) := by
  refine .of_turn inside (by rw [active, mode_operandOf]; rfl) ?_ (fits_operandOf _ _ _ (.left nested))
  rw [active]
  exact weight_operandOf _ context level _

/-- A round of the loop over the operators of a level goes on to an operand, or leaves the loop. -/
theorem operatorRound_advances {context : Context} {level : Level} {left : Expr}
    (active : state.activity = .operators context level left) (nested : Nested context.calls level.strength)
    (weak : pull token < level.strength + 1) :
    Advances front stop state (operatorRound tokens context level left state token) := by
  unfold operatorRound
  split
  · next found =>
    have goesOn : token.kind ≠ .finish := by
      intro finish
      simp [finish, TokenKind.level?] at found
    refine .of_take marked here goesOn ?_ ?_ (fits_operandOf _ _ _ (.right nested))
    · rw [active, mode_operandOf]
      simp only [Activity.mode, Parser.takeToken, Parser.takeOperator, found, nested.settled.collapse,
        Context.call, frames]
    · intro more other
      have light := weight_operandOf more context level (.right level left token)
      rw [active]
      simp only [Activity.weight] at light ⊢
      omega
  · next notOwn =>
    refine .of_turn here.place.inside (by rw [active]; rfl) (by simp [active, Activity.weight])
      ⟨level.strength, nested, ?_⟩
    intro ahead upcoming
    obtain rfl := here.unique upcoming
    exact Nat.lt_of_le_of_ne (Nat.le_of_lt_succ weak) fun same => notOwn (level?_of_pull_eq same)

theorem prefixOperator_advances {context : Context} (active : state.activity = .unary context)
    (nested : Nested context.calls 6) :
    Advances front stop state (prefixOperator tokens context state token) := by
  unfold prefixOperator
  split
  case h_1 kind | h_2 kind =>
    refine .of_take marked here (by simp [kind]) ?_ ?_ (.sign nested)
    · simp [active, Activity.mode, Parser.takeToken, Parser.takeOperand, kind, TokenKind.value?, Context.call,
        frames]
    · intro more other
      rw [active]
      simp only [Activity.weight, Context.call, List.length_cons]
      omega
  case h_3 notBang notMinus =>
    refine .of_turn here.place.inside (by rw [active]; rfl) (by simp [active, Activity.weight]) ⟨nested, ?_⟩
    intro ahead upcoming
    obtain rfl := here.unique upcoming
    exact not_or.mpr ⟨notBang, notMinus⟩

theorem atom_advances {context : Context} (active : state.activity = .primary context)
    (nested : Nested context.calls 6) (notSign : ¬ IsSign token.kind) :
    Advances front stop state (atom tokens context state token) := by
  have payable (value : Expr) (more other : Bool) :
      (Activity.returning context value).weight more ≤ state.activity.weight other + 23 := by
    rw [active]
    simp only [Activity.weight]
    omega
  unfold atom
  split
  · next value literal =>
    have goesOn : token.kind ≠ .finish := by
      intro finish
      simp [finish, TokenKind.value?] at literal
    refine .of_take marked here goesOn ?_ (payable _) ⟨6, nested, below_six _ _⟩
    simp only [active, Activity.mode, Parser.takeToken, Parser.takeOperand, literal]
  · next noLiteral =>
    split
    · next kind =>
      refine .of_taken marked here (by simp [kind]) rfl ?_ (List.append_nil _).symm rfl (payable _)
        ⟨6, nested, below_six _ _⟩
      simp only [active, Activity.mode, Parser.takeToken, Parser.takeOperand, kind]
      rfl
    · next kind =>
      refine .of_taken marked here (by simp [kind]) rfl ?_ (List.append_nil _).symm rfl
        (payable_of_light ?_ _) trivial
      · simp only [active, Activity.mode, Parser.takeToken, Parser.takeOperand, kind]
        rfl
      · simp [State.take, Activity.weight]
    · next kind =>
      refine .of_take marked here (by simp [kind]) ?_ ?_ (.group nested)
      · simp only [active, Activity.mode, Parser.takeToken, Parser.takeOperand, kind]
        rfl
      · intro more other
        rw [active]
        simp only [expression, Activity.weight, Level.strength, List.length_cons]
        omega
    · next notName notClose notOpen =>
      obtain ⟨notBang, notMinus⟩ := not_or.mp notSign
      refine .of_fail here ?_ (by simp only [active, Activity.weight]; omega)
      simp only [active, Activity.mode, Parser.takeToken, Parser.takeOperand, noLiteral]

theorem closeGroup_advances {context : Context} {inner : Expr}
    (active : state.activity = .closing context inner) (nested : Nested context.calls 6)
    (weak : pull token < 1) :
    Advances front stop state (closeGroup tokens context inner state token) := by
  have level := level?_of_pull weak
  unfold closeGroup
  split
  · next kind =>
    refine .of_take marked here (by simp [kind]) ?_ ?_ ⟨6, nested, below_six _ _⟩
    · simp only [active, Activity.mode, Parser.takeToken, Parser.takeOperator, level, Frame.collapse]
      rw [if_pos kind]
    · intro more other
      rw [active]
      simp only [Activity.weight]
      omega
  · next kind =>
    refine .of_fail here ?_ (by simp only [active, Activity.weight]; omega)
    simp only [active, Activity.mode, Parser.takeToken, Parser.takeOperator, level, Frame.collapse]
    rw [if_neg kind]

omit here in
/-- An expression that is complete goes to the innermost call.  The parser would leave it on the stack, but
    what comes next would take it off there too. -/
theorem resume_advances {context : Context} {value : Expr} {tier : Nat} (inside : state.cursor ≤ front.length)
    (active : state.activity = .returning context value) (nested : Nested context.calls tier)
    (below : Below (front ++ [stop]) state.cursor tier) :
    Advances front stop state (state.become (resume context.origin context.goal value context.calls)) := by
  obtain ⟨origin, goal, calls⟩ := context
  obtain ⟨index, token, -, found⟩ := marked.exists_finds inside
  have weak := below token found.upcoming_eq
  cases nested with
  | nil => exact .of_turn inside (by rw [active]; rfl) (by simp [active, Activity.weight, resume]) below
  | left nested =>
    exact .of_turn inside (by rw [active]; rfl) (by simp [active, Activity.weight, resume]; omega) ⟨nested, below⟩
  | @right calls level left operator nested =>
    refine .of_become inside ?_ (by simp [active, Activity.weight, resume]; omega) ⟨nested, below⟩
    rw [active]
    refine .of_collapse found ?_ state.scope origin goal
    simp only [frames, Frame.collapse, Nat.le_of_lt_succ weak, if_true]
  | sign nested =>
    refine .of_become inside ?_ (by simp [active, Activity.weight, resume]) ⟨6, nested, below⟩
    rw [active]
    refine .of_collapse found ?_ state.scope origin goal
    simp only [frames, Frame.collapse]
  | group nested =>
    exact .of_turn inside (by rw [active]; rfl) (by simp [active, Activity.weight, resume]; omega) ⟨nested, below⟩

/-! ## Recovery -/

theorem synchronize_advances (active : state.activity = .synchronizing) :
    Advances front stop state (state.take tokens token (afterDropped token)) := by
  by_cases finish : token.kind = .finish
  · have stays : state.take tokens token (afterDropped token) = state.become .recovering := by
      simp [State.take, past_finish finish, afterDropped, finish, State.become]
    rw [stays]
    refine .of_become here.place.inside ?_ (by simp [active, Activity.weight, here.place.finish_iff.mp finish]) trivial
    rw [here.here, active]
    exact .of_token here.notBlank (by simp [Activity.mode, Parser.takeToken, Parser.skip, finish]) _
  · refine .of_take marked here finish ?_ (payable_of_light (weight_afterDropped · token) _)
      (fits_afterDropped ..)
    rw [active, mode_afterDropped]
    rfl

theorem recoveryRound_advances (active : state.activity = .recovering) :
    Advances front stop state (recoveryRound tokens state token) := by
  have lighter (more : Bool) : Activity.rounds.weight more < state.activity.weight more := by
    cases more <;> simp [active, Activity.weight]
  have dropped (goesOn : token.kind ≠ .finish)
      (drops : Parser.skip state.scope token = Parser.goOn state.scope (Parser.afterDropped token)) :
      Advances front stop state (state.take tokens token (afterDropped token)) := by
    refine .of_take marked here goesOn ?_ (payable_of_light (weight_afterDropped · token) _)
      (fits_afterDropped ..)
    rw [active, mode_afterDropped]
    exact drops
  unfold recoveryRound
  split
  · next finish =>
    refine .of_become here.place.inside ?_ (lighter _) trivial
    have exhausted : (front ++ [stop]).drop (state.cursor + 1) = [] := by simp [here.place.finish_iff.mp finish]
    rw [here.here, exhausted, active]
    constructor <;>
      simp [Activity.mode, Parser.run, Parser.step, Parser.takeToken, Parser.skip, Parser.begin, finish,
        Parser.goOn]
  · next keyword kind =>
    split
    · next begins =>
      refine .of_become here.place.inside ?_ (lighter _) trivial
      rw [here.here, active]
      exact .of_token here.notBlank (by simp [Activity.mode, Parser.takeToken, Parser.skip, kind, begins]) _
    · next begins =>
      exact dropped (by simp [kind]) (by simp [Parser.skip, kind, begins, Parser.afterDropped])
  · next notFinish notKeyword => exact dropped notFinish (by simp only [Parser.skip])

end

/-! ## Every step -/

section

variable {tokens front : List Token} {stop : Token} {state : State} {use : State → Token → Option State}
  (marked : Marked tokens front stop)

include marked

theorem look_standing {token : Token} (here : Finds front stop state.cursor state.cursor token) :
    state.look tokens use = use state token := by
  simp only [State.look, marked.peek?_of_standing here, Option.bind_some]

/-- Inside a statement a look leads to some token, with nothing lost on the way. -/
theorem look_advances (inside : state.cursor ≤ front.length) (notStart : state.activity.mode ≠ .start)
    (uses : ∀ index token, Finds front stop state.cursor index token →
      ∃ after, use { state with cursor := index } token = some after ∧
        Advances front stop { state with cursor := index } after) :
    ∃ after, state.look tokens use = some after ∧ Advances front stop state after := by
  obtain ⟨index, token, looked, found⟩ := marked.exists_finds inside
  obtain ⟨after, used, advances⟩ := uses index token found
  refine ⟨after, ?_, .of_look found notStart advances⟩
  simp only [State.look, looked, Option.bind_some, used]

/-- As long as the descent has not finished there is a step, and it moves on. -/
theorem next_advances (sound : Sound front stop state) (running : state.activity ≠ .finished) :
    ∃ after, next tokens state = some after ∧ Advances front stop state after := by
  obtain ⟨inside, fits⟩ := sound
  unfold next
  cases active : state.activity with
  | rounds => exact round_advances marked inside active
  | statement =>
    rw [active] at fits
    obtain ⟨first, here, goesOn⟩ := fits
    dsimp only
    rw [look_standing marked here]
    exact beginStatement_advances marked here goesOn active
  | typed origin ty =>
    refine look_advances marked inside (by simp [active, Activity.mode]) fun index token found => ?_
    exact ⟨_, rfl, declarationName_advances marked found.again active⟩
  | named origin ty name =>
    refine look_advances marked inside (by simp [active, Activity.mode]) fun index token found => ?_
    exact ⟨_, rfl, declarationRest_advances marked found.again active⟩
  | assigning =>
    rw [active] at fits
    obtain ⟨name, symbol, index, second, here, named, found, equal⟩ := fits
    dsimp only
    rw [look_standing marked here]
    exact ⟨_, rfl, assignmentName_advances marked here active named found equal⟩
  | assigned name =>
    rw [active] at fits
    obtain ⟨second, upcoming, equal⟩ := fits
    refine look_advances marked inside (by simp [active, Activity.mode]) fun index token found => ?_
    obtain rfl := found.unique upcoming
    exact assignmentValue_advances marked found.again active equal
  | level context own =>
    rw [active] at fits
    exact ⟨_, rfl, level_advances inside active fits⟩
  | operators context own left =>
    rw [active] at fits
    obtain ⟨nested, below⟩ := fits
    refine look_advances marked inside (by simp [active, Activity.mode]) fun index token found => ?_
    exact ⟨_, rfl, operatorRound_advances marked found.again active nested (below token found.upcoming_eq)⟩
  | unary context =>
    rw [active] at fits
    refine look_advances marked inside (by simp [active, Activity.mode]) fun index token found => ?_
    exact ⟨_, rfl, prefixOperator_advances marked found.again active fits⟩
  | primary context =>
    rw [active] at fits
    obtain ⟨nested, notSign⟩ := fits
    refine look_advances marked inside (by simp [active, Activity.mode]) fun index token found => ?_
    exact ⟨_, rfl, atom_advances marked found.again active nested (notSign token found.upcoming_eq)⟩
  | returning context value =>
    rw [active] at fits
    obtain ⟨tier, nested, below⟩ := fits
    exact ⟨_, rfl, resume_advances marked inside active nested below⟩
  | closing context inner =>
    rw [active] at fits
    obtain ⟨nested, below⟩ := fits
    refine look_advances marked inside (by simp [active, Activity.mode]) fun index token found => ?_
    exact ⟨_, rfl, closeGroup_advances marked found.again active nested (below token found.upcoming_eq)⟩
  | ending origin goal value =>
    rw [active] at fits
    refine look_advances marked inside (by simp [active, Activity.mode]) fun index token found => ?_
    exact ⟨_, rfl, endStatement_advances marked found.again active (fits token found.upcoming_eq)⟩
  | synchronizing =>
    refine look_advances marked inside (by simp [active, Activity.mode]) fun index token found => ?_
    exact ⟨_, rfl, synchronize_advances marked found.again active⟩
  | recovering =>
    refine look_advances marked inside (by simp [active, Activity.mode]) fun index token found => ?_
    exact ⟨_, rfl, recoveryRound_advances marked found.again active⟩
  | finished => exact absurd active running

end

end ScriptFrontend.Descent
