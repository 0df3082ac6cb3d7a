import ScriptFrontend.Proofs.HostGrammar

/-! # Host text is read in one way

A reader of host lexemes with a stack, right on every expression of the grammar (`read_of_reads`).  It
is here for what follows from that: no lexemes are derived by two trees (`Reads.unique`).

Nothing is asked of the reader on lexemes that are no expression.
-/

namespace ScriptFrontend.Host

namespace Reader

inductive Frame where
  | binary (left : Expr) (operator : BinaryOp)
  | prefixed (operator : PrefixOp)
  | assign (target : String)
  | group
  | call (routine : Builtin) (arguments : List Expr)

/-- What comes next: an operand, an operator or an end, or the rest of the path of a routine. -/
inductive Place where
  | operand
  | operator (operand : Expr)
  | member
  | routine

/-- Gives an operand to the frames that bind with at least the given strength. -/
def collapse (strength : Nat) (operand : Expr) : List Frame → Expr × List Frame
  | .prefixed operator :: frames => collapse strength (.prefixed operator operand) frames
  | .binary left operator :: frames =>
    if strength ≤ operator.tier then collapse strength (.binary operator left operand) frames
    else (operand, .binary left operator :: frames)
  | .assign target :: frames =>
    if strength = 0 then collapse strength (.assign target operand) frames
    else (operand, .assign target :: frames)
  | frames => (operand, frames)

def binaryOp? (mark : Mark) : Option BinaryOp :=
  [.add, .sub, .mul, .div, .mod, .eq, .ne, .lt, .le, .gt, .ge].find? fun operator => operator.mark = mark

def takeOperand (frames : List Frame) : Lexeme → Option (List Frame × Place)
  | .word "null" => some (frames, .operator (.literal .null))
  | .word "true" => some (frames, .operator (.literal (.bool true)))
  | .word "false" => some (frames, .operator (.literal (.bool false)))
  | .word text => some (frames, .operator (.name text))
  | .integer value => some (frames, .operator (.literal (.int value)))
  | .float value => some (frames, .operator (.literal (.float (.ofMagnitude value.toMagnitude))))
  | .string value => some (frames, .operator (.literal (.string value)))
  | .mark .minus => some (.prefixed .neg :: frames, .operand)
  | .mark .bang => some (.prefixed .not :: frames, .operand)
  | .mark .openParen => some (.group :: frames, .operand)
  | .mark .closeParen =>
    match frames with
    | .call routine [] :: frames => some (frames, .operator (.invoke routine []))
    | _ => none
  | _ => none

def takeOperator (frames : List Frame) (operand : Expr) : Lexeme → Option (List Frame × Place)
  | .mark .equal =>
    match operand with
    | .name target => some (.assign target :: frames, .operand)
    | _ => none
  | .mark .dot => some (frames, .member)
  | .mark .comma =>
    match collapse 0 operand frames with
    | (value, .call routine arguments :: frames) =>
      some (.call routine (arguments ++ [value]) :: frames, .operand)
    | _ => none
  | .mark .closeParen =>
    match collapse 0 operand frames with
    | (value, .group :: frames) => some (frames, .operator (.parenthesized value))
    | (value, .call routine arguments :: frames) =>
      some (frames, .operator (.invoke routine (arguments ++ [value])))
    | _ => none
  | .mark mark => do
    let operator ← binaryOp? mark
    let (left, frames) := collapse operator.tier operand frames
    return (.binary left operator :: frames, .operand)
  | _ => none

def step (frames : List Frame) : Place → Lexeme → Option (List Frame × Place)
  | .operand, lexeme => takeOperand frames lexeme
  | .operator operand, lexeme => takeOperator frames operand lexeme
  | .member, _ => some (frames, .routine)
  | .routine, _ => some (.call .write [] :: frames, .operand)

def run (frames : List Frame) (place : Place) : List Lexeme → Option Expr
  | [] =>
    match place with
    | .operator operand => some (collapse 0 operand frames).1
    | _ => none
  | lexeme :: rest => (step frames place lexeme).bind fun (frames, place) => run frames place rest

/-! ## The reader on expressions -/

/-- Lexemes that lead from one state of the reader to another, whatever comes after them. -/
def LeadsTo (frames : List Frame) (place : Place) (lexemes : List Lexeme) (after : List Frame)
    (placeAfter : Place) : Prop :=
  ∀ rest, run frames place (lexemes ++ rest) = run after placeAfter rest

theorem LeadsTo.append {first second third : List Frame} {place placeSecond placeThird : Place}
    {left right : List Lexeme} (earlier : LeadsTo first place left second placeSecond)
    (later : LeadsTo second placeSecond right third placeThird) :
    LeadsTo first place (left ++ right) third placeThird := by
  intro rest
  rw [List.append_assoc, earlier, later]

theorem leadsTo_lexeme {frames after : List Frame} {place placeAfter : Place} {lexeme : Lexeme}
    (taken : step frames place lexeme = some (after, placeAfter)) :
    LeadsTo frames place [lexeme] after placeAfter := by
  intro rest
  simp [run, taken]

/-- Frames under which an expression of a tier is read whole. -/
def Settled (tier : Nat) : List Frame → Prop
  | .binary _ operator :: _ => operator.tier < tier
  | .prefixed _ :: _ => 5 ≤ tier
  | .assign _ :: _ | .group :: _ | .call _ _ :: _ | [] => True

theorem Settled.tighten {tier : Nat} {frames : List Frame} (settled : Settled tier frames) :
    Settled (tier + 1) frames := by
  rcases frames with _ | ⟨(⟨_, _⟩ | _ | _ | _ | ⟨_, _⟩), _⟩ <;> simp only [Settled] at settled ⊢ <;> omega

theorem tier_bounds (operator : BinaryOp) : 1 ≤ operator.tier ∧ operator.tier ≤ 4 := by
  cases operator <;> decide

theorem binaryOp?_mark (operator : BinaryOp) : binaryOp? operator.mark = some operator := by
  cases operator <;> rfl

theorem Settled.collapse {operator : BinaryOp} {frames : List Frame}
    (settled : Settled operator.tier frames) (operand : Expr) :
    collapse operator.tier operand frames = (operand, frames) := by
  have bounds := tier_bounds operator
  cases frames with
  | nil => rfl
  | cons frame frames =>
    cases frame with
    | binary left other => simp only [Reader.collapse, Nat.not_le.mpr settled, if_false]
    | prefixed _ => simp only [Settled] at settled; omega
    | assign target => simp only [Reader.collapse, Nat.ne_of_gt bounds.1, if_false]
    | group | call _ _ => rfl

/-- What it means that lexemes are read as an expression of a tier: what they leave on the stack
    collapses as the expression itself would. -/
def ReadsAs (tier : Nat) (lexemes : List Lexeme) (value : Expr) : Prop :=
  ∀ frames, Settled tier frames →
    ∃ stack operand, LeadsTo frames .operand lexemes stack (.operator operand) ∧
      ∀ strength ≤ tier, collapse strength operand stack = collapse strength value frames

/-- What it means that lexemes are read as arguments: with the closing parenthesis they complete a
    call that has some arguments already. -/
def ReadsAsArguments (lexemes : List Lexeme) (arguments : List Expr) : Prop :=
  ∀ frames routine before, (arguments = [] → before = []) →
    LeadsTo (.call routine before :: frames) .operand (lexemes ++ [.mark .closeParen]) frames
      (.operator (.invoke routine (before ++ arguments)))

theorem readsAs_operand {lexeme : Lexeme} {value : Expr}
    (taken : ∀ frames, takeOperand frames lexeme = some (frames, .operator value)) :
    ReadsAs 6 [lexeme] value := by
  intro frames _
  exact ⟨frames, value, leadsTo_lexeme (taken frames), fun _ _ => rfl⟩

theorem takeOperand_name {text : String} (plain : text ∉ literalWords) (frames : List Frame) :
    takeOperand frames (.word text) = some (frames, .operator (.name text)) := by
  simp only [literalWords, List.mem_cons, List.not_mem_nil, or_false, not_or] at plain
  unfold takeOperand
  split <;> simp_all

theorem readsAs_prefixed {operator : PrefixOp} {lexemes : List Lexeme} {operand : Expr}
    (reads : ReadsAs 5 lexemes operand) :
    ReadsAs 5 (.mark operator.mark :: lexemes) (.prefixed operator operand) := by
  intro frames _
  obtain ⟨stack, last, leads, collapses⟩ := reads (.prefixed operator :: frames) (Nat.le_refl 5)
  have begun : LeadsTo frames .operand [.mark operator.mark] (.prefixed operator :: frames) .operand :=
    leadsTo_lexeme (by cases operator <;> rfl)
  exact ⟨stack, last, begun.append leads, collapses⟩

theorem readsAs_binary {operator : BinaryOp} {leftLexemes rightLexemes : List Lexeme}
    {left right : Expr} (readsLeft : ReadsAs operator.tier leftLexemes left)
    (readsRight : ReadsAs (operator.tier + 1) rightLexemes right) :
    ReadsAs operator.tier (leftLexemes ++ .mark operator.mark :: rightLexemes)
      (.binary operator left right) := by
  intro frames settled
  obtain ⟨stack, operand, leadsLeft, collapsesLeft⟩ := readsLeft frames settled
  obtain ⟨rightStack, rightOperand, leadsRight, collapsesRight⟩ :=
    readsRight (.binary left operator :: frames) (Nat.lt_succ_self _)
  have shifted : LeadsTo stack (.operator operand) [.mark operator.mark]
      (.binary left operator :: frames) .operand := by
    apply leadsTo_lexeme
    have collapsed : collapse operator.tier operand stack = (left, frames) := by
      rw [collapsesLeft _ (Nat.le_refl _), settled.collapse left]
    have found := binaryOp?_mark operator
    -- No mark of an operator is one of those that are looked at before operators.
    cases operator <;> simp_all [step, takeOperator, BinaryOp.mark]
  -- Weaker collapses go through the right operand, the operator and the left one.
  refine ⟨rightStack, rightOperand, leadsLeft.append (shifted.append leadsRight), ?_⟩
  intro strength le
  rw [collapsesRight strength (Nat.le_succ_of_le le)]
  simp only [collapse, le, if_true]

theorem readsAs_assign {target : String} {lexemes : List Lexeme} {value : Expr}
    (plain : target ∉ literalWords) (reads : ReadsAs 0 lexemes value) :
    ReadsAs 0 (.word target :: .mark .equal :: lexemes) (.assign target value) := by
  intro frames _
  obtain ⟨stack, operand, leads, collapses⟩ := reads (.assign target :: frames) trivial
  have named : LeadsTo frames .operand [.word target] frames (.operator (.name target)) :=
    leadsTo_lexeme (takeOperand_name plain frames)
  have begun : LeadsTo frames (.operator (.name target)) [.mark .equal] (.assign target :: frames)
      .operand := leadsTo_lexeme rfl
  refine ⟨stack, operand, named.append (begun.append leads), ?_⟩
  intro strength le
  obtain rfl : strength = 0 := Nat.le_zero.mp le
  rw [collapses 0 le]
  rfl

/-- Collapsing what an expression leaves gives it whole, if nothing below it takes operands. -/
theorem ReadsAs.whole {lexemes : List Lexeme} {value : Expr} (reads : ReadsAs 0 lexemes value)
    (frames : List Frame) (settled : Settled 0 frames)
    (kept : collapse 0 value frames = (value, frames)) :
    ∃ stack operand, LeadsTo frames .operand lexemes stack (.operator operand) ∧
      collapse 0 operand stack = (value, frames) := by
  obtain ⟨stack, operand, leads, collapses⟩ := reads frames settled
  exact ⟨stack, operand, leads, by rw [collapses 0 (Nat.le_refl 0), kept]⟩

theorem readsAs_parenthesized {lexemes : List Lexeme} {inner : Expr} (reads : ReadsAs 0 lexemes inner) :
    ReadsAs 6 (.mark .openParen :: (lexemes ++ [.mark .closeParen])) (.parenthesized inner) := by
  intro frames _
  obtain ⟨stack, operand, leads, collapsed⟩ := reads.whole (.group :: frames) trivial rfl
  have begun : LeadsTo frames .operand [.mark .openParen] (.group :: frames) .operand :=
    leadsTo_lexeme rfl
  have ended : LeadsTo stack (.operator operand) [.mark .closeParen] frames
      (.operator (.parenthesized inner)) := leadsTo_lexeme (by simp [step, takeOperator, collapsed])
  exact ⟨frames, .parenthesized inner, begun.append (leads.append ended), fun _ _ => rfl⟩

/-! ## Arguments -/

theorem readsAsArguments_last {lexemes : List Lexeme} {argument : Expr}
    (reads : ReadsAs 0 lexemes argument) : ReadsAsArguments lexemes [argument] := by
  intro frames routine before _
  obtain ⟨stack, operand, leads, collapsed⟩ :=
    reads.whole (.call routine before :: frames) trivial rfl
  exact leads.append (leadsTo_lexeme (by simp [step, takeOperator, collapsed]))

theorem readsAsArguments_more {lexemes rest : List Lexeme} {argument next : Expr}
    {arguments : List Expr} (reads : ReadsAs 0 lexemes argument)
    (readsRest : ReadsAsArguments rest (next :: arguments)) :
    ReadsAsArguments (lexemes ++ .mark .comma :: rest) (argument :: next :: arguments) := by
  intro frames routine before _
  obtain ⟨stack, operand, leads, collapsed⟩ :=
    reads.whole (.call routine before :: frames) trivial rfl
  have divided : LeadsTo stack (.operator operand) [.mark .comma]
      (.call routine (before ++ [argument]) :: frames) .operand :=
    leadsTo_lexeme (by simp [step, takeOperator, collapsed])
  have readOn := readsRest frames routine (before ++ [argument]) (by simp)
  simpa [List.append_assoc] using leads.append (divided.append readOn)

theorem readsAs_invoke {routine : Builtin} {lexemes : List Lexeme} {arguments : List Expr}
    (reads : ReadsAsArguments lexemes arguments) :
    ReadsAs 6 (routine.call ++ (lexemes ++ [.mark .closeParen])) (.invoke routine arguments) := by
  intro frames _
  -- The four lexemes of a path are taken one by one, and the last of them opens the call.
  have called : LeadsTo frames .operand routine.call (.call routine [] :: frames) .operand := by
    cases routine
    intro rest
    rfl
  refine ⟨frames, _, called.append (reads frames routine [] (fun _ => rfl)), fun _ _ => rfl⟩

end Reader

/-! ## Uniqueness -/

open Reader in
theorem Reads.readsAs {tier : Nat} {lexemes : List Lexeme} {value : Expr}
    (derived : Reads tier lexemes value) : ReadsAs tier lexemes value := by
  -- Expressions and arguments are defined together, so the induction has a motive for each.
  refine @Reads.rec (fun tier lexemes value _ => ReadsAs tier lexemes value)
    (fun lexemes arguments _ => ReadsAsArguments lexemes arguments)
    ?tighter ?assign ?binary ?prefixed ?null ?true ?false ?integer ?float ?string ?name
    ?parenthesized ?invoke ?none ?last ?more tier lexemes value derived
  case tighter =>
    intro tier lexemes value _ inductionHypothesis frames settled
    obtain ⟨stack, operand, leads, collapses⟩ := inductionHypothesis frames settled.tighten
    exact ⟨stack, operand, leads, fun strength le => collapses strength (Nat.le_succ_of_le le)⟩
  case assign =>
    intro target lexemes value plain _ inductionHypothesis
    exact readsAs_assign plain inductionHypothesis
  case binary =>
    intro operator leftLexemes rightLexemes left right _ _ leftHypothesis rightHypothesis
    exact readsAs_binary leftHypothesis rightHypothesis
  case prefixed =>
    intro operator lexemes operand _ inductionHypothesis
    exact readsAs_prefixed inductionHypothesis
  case name =>
    intro text plain
    exact readsAs_operand (takeOperand_name plain)
  case parenthesized =>
    intro lexemes inner _ inductionHypothesis
    exact readsAs_parenthesized inductionHypothesis
  case invoke =>
    intro routine lexemes arguments _ inductionHypothesis
    exact readsAs_invoke inductionHypothesis
  case none =>
    intro frames routine before empty
    rw [empty rfl]
    exact leadsTo_lexeme rfl
  case last =>
    intro lexemes argument _ inductionHypothesis
    exact readsAsArguments_last inductionHypothesis
  case more =>
    intro lexemes rest argument next arguments _ _ firstHypothesis restHypothesis
    exact readsAsArguments_more firstHypothesis restHypothesis
  all_goals intros; exact readsAs_operand fun _ => rfl

theorem Reads.run_eq {lexemes : List Lexeme} {value : Expr} (derived : Reads 0 lexemes value) :
    Reader.run [] .operand lexemes = some value := by
  obtain ⟨stack, operand, leads, collapsed⟩ := derived.readsAs.whole [] trivial rfl
  have ran := leads []
  rw [List.append_nil] at ran
  simp [ran, Reader.run, collapsed]

/-- No lexemes are two expressions. -/
theorem Reads.unique {lexemes : List Lexeme} {value other : Expr} (derived : Reads 0 lexemes value)
    (derivedOther : Reads 0 lexemes other) : value = other := by
  -- The reader gives one answer, and it is both trees.
  have same := derived.run_eq.symm.trans derivedOther.run_eq
  exact Option.some.inj same

end ScriptFrontend.Host
