import ScriptFrontend.Proofs.DescentSteps

/-! # The descent ends inside the token list

Runs of the descent, from what its steps show.  A run comes to its end because each step lowers the potential
(`exists_run`), and what it has then completed and reported is what `parse` gives, because no step changes the
outlook.

A loop cannot go round at one place, nor a routine call itself there.  Both would lead back to a state that is
no lighter than before, so the cursor must have moved (`cursor_lt_of_recurs`).  This holds too where the end
mark is not taken: a statement that is given up on it leads to the loop over statements, which stops there.
-/

namespace ScriptFrontend.Descent

open Relation

/-! ## Loops and calls -/

/-- Places of which the second comes after the first when a loop goes round, or when a routine calls itself,
    be it through others: calls that were under way then are still under way. -/
inductive Recurs : Activity → Activity → Prop where
  -- The loops over statements, of the recovery, and over the operators of a level.
  | rounds : Recurs .rounds .rounds
  | recovering : Recurs .recovering .recovering
  | operators {context : Context} {level : Level} {left grown : Expr} :
      Recurs (.operators context level left) (.operators context level grown)
  -- Prefix operators in front of each other, and an expression inside what binds by itself.
  | unary {context inner : Context} : context.calls <:+ inner.calls → Recurs (.unary context) (.unary inner)
  | expression {context inner : Context} :
      context.calls <:+ inner.calls → Recurs (.primary context) (.level inner .equality)

theorem Recurs.weight_le {earlier later : Activity} (recurs : Recurs earlier later) (more : Bool) :
    earlier.weight more ≤ later.weight more := by
  cases recurs with
  | rounds | recovering | operators => exact Nat.le_refl _
  | unary within | expression within =>
    have deeper := within.length_le
    simp only [Activity.weight, Level.strength]
    omega

/-! ## Runs -/

section

variable {tokens front : List Token} {stop : Token} {state later : State}

theorem Advances.trans {between : State} (first : Advances front stop state between)
    (second : Advances front stop between later) : Advances front stop state later where
  forward := Nat.le_trans first.forward second.forward
  lower := Nat.lt_trans second.lower first.lower
  sound := second.sound
  kept := second.kept.trans first.kept

/-- Back at a place that is no lighter, the cursor has moved. -/
theorem Advances.cursor_lt_of_recurs (advances : Advances front stop state later)
    (recurs : Recurs state.activity later.activity) : state.cursor < later.cursor := by
  refine Nat.lt_of_le_of_ne advances.forward fun same => ?_
  have heavier := recurs.weight_le (later.cursor < front.length)
  have lower := advances.lower
  simp only [potential, same] at lower
  omega

variable (marked : Marked tokens front stop)

include marked

theorem Step.advances (step : Step tokens state later) (sound : Sound front stop state) :
    Advances front stop state later := by
  obtain ⟨running, stepped⟩ := step
  obtain ⟨after, found, advances⟩ := next_advances marked sound running
  obtain rfl : after = later := Option.some.inj (found.symm.trans stepped)
  exact advances

theorem advances_of_transGen (sound : Sound front stop state) (steps : TransGen (Step tokens) state later) :
    Advances front stop state later := by
  induction steps with
  | single step => exact Step.advances marked step sound
  | tail _ step inductionHypothesis =>
    exact inductionHypothesis.trans (Step.advances marked step inductionHypothesis.sound)

omit marked in
theorem sound_start (front : List Token) (stop : Token) : Sound front stop .start :=
  ⟨Nat.zero_le _, trivial⟩

theorem sound_of_reaches (reaches : Reaches tokens state) : Sound front stop state := by
  rcases reflTransGen_iff_eq_or_transGen.mp reaches with rfl | steps
  · exact sound_start front stop
  · exact (advances_of_transGen marked (sound_start front stop) steps).sound

/-- Every run comes to its end, in no more steps than the potential allows. -/
theorem exists_run (sound : Sound front stop state) :
    ∃ steps final, steps ≤ potential front state ∧ run? tokens steps state = some final ∧
      final.activity = .finished ∧ Sound front stop final ∧
      outlook (front ++ [stop]) final = outlook (front ++ [stop]) state := by
  induction bound : potential front state using Nat.strongRecOn generalizing state with
  | ind _ inductionHypothesis =>
    by_cases finished : state.activity = .finished
    · exact ⟨0, state, Nat.zero_le _, rfl, finished, sound, rfl⟩
    · obtain ⟨after, stepped, advances⟩ := next_advances marked sound finished
      obtain ⟨steps, final, few, ran, ends, soundFinal, kept⟩ :=
        inductionHypothesis _ (bound ▸ advances.lower) advances.sound rfl
      have lower := advances.lower
      refine ⟨steps + 1, final, by omega, ?_, ends, soundFinal, kept.trans advances.kept⟩
      rw [run?, stepped, Option.bind_some, ran]

/-- Where the descent has finished nothing is ahead. -/
theorem outlook_finished (sound : Sound front stop state) (finished : state.activity = .finished) :
    outlook (front ++ [stop]) state = ⟨state.statements, state.reports⟩ := by
  have last : state.cursor = front.length := by simpa [finished, Fits] using sound.fits
  simp [outlook, last, finished, Activity.mode, Parser.run, Parser.step, Parser.takeToken, Parser.begin,
    marked.ends, Parser.goOn]

end

/-! ## Parsing -/

/-- What it means that the descent through tokens comes to its end, and with it to what was parsed. -/
structure Descends (tokens : List Token) (parsed : Parsed) : Prop where
  -- It finishes, and in a number of steps that is bounded by the number of tokens.
  ends : ∃ steps final, steps ≤ 24 * tokens.length ∧ run? tokens steps .start = some final ∧
    final.activity = .finished ∧ parsed = ⟨final.statements, final.reports⟩
  -- Wherever it comes, the cursor is inside the list, and the next step reads nothing outside of it.
  inside : ∀ state, Reaches tokens state → state.cursor < tokens.length
  reads : ∀ state, Reaches tokens state → (next tokens state).isSome
  -- No loop goes round and no routine calls itself with the cursor where it was.
  moves : ∀ state later, Reaches tokens state → TransGen (Step tokens) state later →
    Recurs state.activity later.activity → state.cursor < later.cursor

theorem Marked.descends {tokens front : List Token} {stop : Token} (marked : Marked tokens front stop) :
    Descends tokens (outlook (front ++ [stop]) .start) where
  ends := by
    obtain ⟨steps, final, few, ran, finished, sound, kept⟩ := exists_run marked (sound_start front stop)
    refine ⟨steps, final, ?_, ran, finished, by rw [← kept, outlook_finished marked sound finished]⟩
    have length := marked.length_lt
    have atMost : potential front .start ≤ 24 * front.length + 23 := Nat.add_le_add_left (weight_rounds _) _
    omega
  inside := by
    intro state reaches
    exact Nat.lt_of_le_of_lt (sound_of_reaches marked reaches).inside marked.length_lt
  reads := by
    intro state reaches
    by_cases finished : state.activity = .finished
    · simp [next, finished]
    · obtain ⟨after, stepped, -⟩ := next_advances marked (sound_of_reaches marked reaches) finished
      simp [stepped]
  moves := by
    intro state later reaches steps recurs
    exact (advances_of_transGen marked (sound_of_reaches marked reaches) steps).cursor_lt_of_recurs recurs

end Descent

open Descent in
/-- Parsing ends and never looks outside the tokens, whatever they are: without an end mark, with end marks in
    the middle, or with nothing but blank lines. -/
theorem parse_by_descent (tokens : List Token) :
    tokens = [] ∧ parse tokens = ⟨[], []⟩ ∨ Descends (ended tokens) (parse tokens) := by
  by_cases empty : tokens = []
  · subst empty
    exact .inl ⟨rfl, rfl⟩
  · obtain ⟨front, stop, marked, read⟩ := marked_ended empty
    have start : outlook (front ++ [stop]) .start = parse tokens := by
      simp [outlook, State.start, Activity.mode, parse, parseWith, read]
    exact .inr (start ▸ marked.descends)

end ScriptFrontend
