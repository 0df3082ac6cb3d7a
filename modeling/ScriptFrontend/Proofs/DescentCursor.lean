import Mathlib.Data.List.TakeWhile
import ScriptFrontend.Proofs.Descent
import ScriptFrontend.Proofs.ParserRules

/-! # The cursor of the descent

Where a cursor that has not passed the first end mark can look, and what it finds.

* `Marked` — a token list with its first end mark.  `marked_ended` says that every list that the descent
  is given has one, and that the parser reads exactly what comes before it, and the mark.
* `Finds` — what a look from a cursor leads to.  There is always something to find (`Marked.exists_finds`),
  because blank lines are passed over one by one and the end mark is not passed over.
* `potential` — a number that no step may leave as it is: what is ahead of the cursor, and how much the
  routine in hand can still do without moving it.
-/

namespace ScriptFrontend.Descent

/-! ## The first end mark -/

/-- Tokens that begin with some that are no end marks, and an end mark. -/
structure Marked (tokens front : List Token) (stop : Token) : Prop where
  ends : stop.kind = .finish
  goesOn : ∀ token ∈ front, token.kind ≠ .finish
  isPrefix : front ++ [stop] <+: tokens

theorem marked_ended {tokens : List Token} (nonempty : tokens ≠ []) :
    ∃ front stop, Marked (ended tokens) front stop ∧ terminated tokens = front ++ [stop] := by
  have last := List.getLast?_eq_some_getLast nonempty
  have isPrefix : tokens <+: ended tokens := by
    simp only [ended, last]
    split
    · exact List.prefix_refl tokens
    · exact List.prefix_append tokens _
  cases found : tokens.find? fun token => token.kind = .finish with
  | some stop =>
    obtain ⟨ends, front, beyond, rfl, goesOn⟩ := List.find?_eq_some_iff_append.mp found
    have goesOn : ∀ token ∈ front, token.kind ≠ .finish := by simpa using goesOn
    have ends : stop.kind = .finish := by simpa using ends
    have before : (front ++ stop :: beyond).takeWhile (fun token => token.kind ≠ .finish) = front := by
      rw [List.takeWhile_append_of_pos (by simpa using goesOn)]
      simp [ends]
    refine ⟨front, stop, ⟨ends, goesOn, ?_⟩, ?_⟩
    · exact .trans ⟨beyond, by simp⟩ isPrefix
    · simp only [terminated, last, found, before, Option.getD_some]
  | none =>
    have goesOn : ∀ token ∈ tokens, token.kind ≠ .finish := by simpa using List.find?_eq_none.mp found
    have before : tokens.takeWhile (fun token => token.kind ≠ .finish) = tokens :=
      List.takeWhile_eq_self_iff.mpr (by simpa using goesOn)
    refine ⟨tokens, { tokens.getLast nonempty with kind := .finish }, ⟨rfl, goesOn, ?_⟩, ?_⟩
    · have notFinish := goesOn _ (List.getLast_mem nonempty)
      simp only [ended, last, notFinish, if_false]
      exact List.prefix_refl _
    · simp only [terminated, last, found, before, Option.getD_none]

/-! ## Looking from a cursor -/

/-- The first token from a cursor on that is no blank line. -/
def upcoming (tokens : List Token) (cursor : Nat) : Option Token :=
  (tokens.drop cursor).find? fun token => token.kind ≠ .blankLine

/-- Where a token stands that has been read: no later than the end mark, and the mark only at its place. -/
structure StandsAt (front : List Token) (index : Nat) (token : Token) : Prop where
  inside : index ≤ front.length
  finish_iff : token.kind = .finish ↔ index = front.length

theorem StandsAt.before {front : List Token} {token : Token} {index : Nat} (place : StandsAt front index token)
    (goesOn : token.kind ≠ .finish) : index < front.length :=
  Nat.lt_of_le_of_ne place.inside (mt place.finish_iff.mpr goesOn)

/-- What a look from a cursor finds in tokens before an end mark, or in the mark: a token at some place,
    with nothing but blank lines in between. -/
structure Finds (front : List Token) (stop : Token) (cursor index : Nat) (token : Token) : Prop where
  le : cursor ≤ index
  notBlank : token.kind ≠ .blankLine
  blanks : ∃ blanks, (∀ line ∈ blanks, line.kind = .blankLine) ∧
    (front ++ [stop]).drop cursor = blanks ++ (front ++ [stop]).drop index
  here : (front ++ [stop]).drop index = token :: (front ++ [stop]).drop (index + 1)
  place : StandsAt front index token

theorem find?_blanks {blanks rest : List Token} (blank : ∀ line ∈ blanks, line.kind = .blankLine) :
    (blanks ++ rest).find? (fun token => token.kind ≠ .blankLine) =
      rest.find? (fun token => token.kind ≠ .blankLine) := by
  rw [List.find?_append, List.find?_eq_none.mpr (by simpa using blank), Option.none_or]

namespace Finds

variable {front : List Token} {stop : Token} {cursor index : Nat} {token : Token}

/-- A token that is no blank line is found where it stands. -/
theorem standing (notBlank : token.kind ≠ .blankLine)
    (here : (front ++ [stop]).drop cursor = token :: (front ++ [stop]).drop (cursor + 1))
    (place : StandsAt front cursor token) : Finds front stop cursor cursor token :=
  ⟨Nat.le_refl cursor, notBlank, ⟨[], by simp, rfl⟩, here, place⟩

theorem again (found : Finds front stop cursor index token) : Finds front stop index index token :=
  standing found.notBlank found.here found.place

theorem upcoming_eq (found : Finds front stop cursor index token) :
    upcoming (front ++ [stop]) cursor = some token := by
  obtain ⟨blanks, blank, split⟩ := found.blanks
  rw [upcoming, split, find?_blanks blank, found.here]
  simp [found.notBlank]

/-- From one place only one token is found. -/
theorem unique (found : Finds front stop cursor index token) {other : Token}
    (next : upcoming (front ++ [stop]) cursor = some other) : token = other :=
  Option.some.inj (found.upcoming_eq.symm.trans next)

end Finds

namespace Marked

variable {tokens front : List Token} {stop : Token} (marked : Marked tokens front stop)

include marked

theorem length_lt : front.length < tokens.length := by
  have length := marked.isPrefix.length_le
  rw [List.length_append, List.length_singleton] at length
  omega

/-- The token at a cursor that has not passed the end mark. -/
theorem exists_token {cursor : Nat} (inside : cursor ≤ front.length) :
    ∃ token, tokens[cursor]? = some token ∧
      (front ++ [stop]).drop cursor = token :: (front ++ [stop]).drop (cursor + 1) ∧
      StandsAt front cursor token := by
  have bound : cursor < (front ++ [stop]).length := by simp; omega
  refine ⟨(front ++ [stop])[cursor], ?_, List.drop_eq_getElem_cons bound, ?_⟩
  · rw [List.prefix_iff_getElem?.mp marked.isPrefix cursor bound]
  · refine ⟨inside, ?_⟩
    rcases Nat.eq_or_lt_of_le inside with last | before
    · simp [last, marked.ends]
    · rw [List.getElem_append_left before]
      exact iff_of_false (marked.goesOn _ (List.getElem_mem before)) (Nat.ne_of_lt before)

/-- There is something to find from every cursor that has not passed the end mark. -/
theorem exists_finds {cursor : Nat} (inside : cursor ≤ front.length) :
    ∃ index token, peek? tokens cursor = some (index, token) ∧ Finds front stop cursor index token := by
  have length := marked.length_lt
  -- The induction is on what is ahead of the cursor; the end mark itself is no blank line.
  induction ahead : front.length - cursor generalizing cursor with
  | zero =>
    obtain ⟨token, here, split, place⟩ := marked.exists_token inside
    have notBlank : token.kind ≠ .blankLine := by
      rw [place.finish_iff.mpr (by omega)]
      simp
    refine ⟨cursor, token, ?_, .standing notBlank split place⟩
    rw [peek?, here]
    simp [notBlank]
  | succ ahead inductionHypothesis =>
    obtain ⟨token, here, split, place⟩ := marked.exists_token inside
    by_cases blank : token.kind = .blankLine
    · obtain ⟨index, found, looked, finds⟩ :=
        inductionHypothesis (show cursor + 1 ≤ front.length by omega) (by omega)
      refine ⟨index, found, ?_, ⟨Nat.le_of_succ_le finds.le, finds.notBlank, ?_, finds.here, finds.place⟩⟩
      · rw [peek?, here]
        simp only [blank, true_and]
        rw [if_pos (by omega), looked]
      · obtain ⟨blanks, areBlank, rest⟩ := finds.blanks
        exact ⟨token :: blanks, List.forall_mem_cons.mpr ⟨blank, areBlank⟩, by rw [split, rest, List.cons_append]⟩
    · refine ⟨cursor, token, ?_, .standing blank split place⟩
      rw [peek?, here]
      simp [blank]

/-- A look from where a token is found leads nowhere else. -/
theorem peek?_of_standing {cursor : Nat} {token : Token} (found : Finds front stop cursor cursor token) :
    peek? tokens cursor = some (cursor, token) := by
  obtain ⟨other, here, split, -⟩ := marked.exists_token found.place.inside
  obtain rfl : token = other := (List.cons.inj (found.here.symm.trans split)).1
  rw [peek?, here]
  simp [found.notBlank]

/-- Before the end mark there is a second token to look at, and it is the next one to be found. -/
theorem second?_eq {cursor : Nat} (before : cursor < front.length) (first : Token) :
    ∃ index second, second? tokens cursor first = some second ∧ Finds front stop (cursor + 1) index second := by
  have length := marked.length_lt
  obtain ⟨index, second, -, found⟩ := marked.exists_finds (show cursor + 1 ≤ front.length by omega)
  refine ⟨index, second, ?_, found⟩
  obtain ⟨beyond, extended⟩ := marked.isPrefix
  have dropped : tokens.drop (cursor + 1) = (front ++ [stop]).drop (cursor + 1) ++ beyond := by
    rw [← extended, List.drop_append_of_le_length (by simp; omega)]
  have next := found.upcoming_eq
  rw [upcoming] at next
  rw [second?, if_pos (by omega), dropped, List.find?_append, next]
  rfl

/-- Taking a token moves the cursor, unless it is the end mark. -/
theorem past_eq {index : Nat} {token : Token} (goesOn : token.kind ≠ .finish) (before : index < front.length) :
    past tokens index token = index + 1 := by
  have length := marked.length_lt
  rw [past, if_pos ⟨goesOn, by omega⟩]

end Marked

theorem past_finish {tokens : List Token} {index : Nat} {token : Token} (finish : token.kind = .finish) :
    past tokens index token = index := by
  rw [past, if_neg (by simp [finish])]

/-! ## What is left to do -/

/-- How much an activity can do before the cursor has to move.  Calls that wait cost two each, one for the
    way back and one for the loop to which it leads.  Whether the loops over statements and of the recovery
    go on depends on whether there is more than the end mark ahead. -/
def Activity.weight (more : Bool) : Activity → Nat
  | .finished => 0
  | .rounds => if more then 22 else 1
  | .recovering => if more then 23 else 2
  | .synchronizing => 3
  | .typed .. | .named .. | .assigned _ | .ending .. => 4
  | .assigning => 5
  | .closing context _ | .primary context => 4 + 2 * context.calls.length
  | .returning context _ | .unary context => 5 + 2 * context.calls.length
  | .operators context _ _ => 6 + 2 * context.calls.length
  | .level context own => 23 - 3 * own.strength + 2 * context.calls.length
  | .statement => 21

/-- A number that every step lowers. -/
def potential (front : List Token) (state : State) : Nat :=
  24 * (front.length - state.cursor) + state.activity.weight (state.cursor < front.length)

theorem Activity.weight_le (activity : Activity) : activity.weight false ≤ activity.weight true := by
  cases activity <;> simp [weight]

theorem weight_expression (more : Bool) (origin : Origin) (goal : Goal) :
    (expression origin goal []).weight more = 20 := rfl

theorem weight_operandOf (more : Bool) (context : Context) (level : Level) (call : Call) :
    (operandOf (context.call call) level).weight more < (Activity.level context level).weight more := by
  cases level <;> simp [operandOf, Context.call, Activity.weight, Level.strength] <;> omega

theorem weight_afterDropped (more : Bool) (token : Token) : (afterDropped token).weight more ≤ 23 := by
  unfold afterDropped
  split <;> cases more <;> simp [Activity.weight]

theorem weight_rounds (more : Bool) : Activity.rounds.weight more ≤ 23 := by
  cases more <;> decide

theorem payable_of_light {activity : Activity} (light : ∀ more, activity.weight more ≤ 23)
    (earlier : Activity) : ∀ more other, activity.weight more ≤ earlier.weight other + 23 :=
  fun more _ => Nat.le_trans (light more) (Nat.le_add_left 23 _)

theorem payable_expression (origin : Origin) (goal : Goal) (earlier : Activity) :
    ∀ more other, (expression origin goal []).weight more ≤ earlier.weight other + 23 :=
  payable_of_light (fun more => by rw [weight_expression]; decide) earlier

/-- Passing over blank lines adds nothing. -/
theorem potential_look {front : List Token} {state : State} {index : Nat} (le : state.cursor ≤ index) :
    potential front { state with cursor := index } ≤ potential front state := by
  simp only [potential]
  refine Nat.add_le_add (by omega) ?_
  by_cases more : index < front.length
  · simp [more, Nat.lt_of_le_of_lt le more]
  · by_cases moreBefore : state.cursor < front.length
    · simpa [more, moreBefore] using state.activity.weight_le
    · simp [more, moreBefore]

/-- At one place only a lighter activity is a step forward. -/
theorem potential_lt_of_lighter {front : List Token} {state after : State} (same : after.cursor = state.cursor)
    (lighter : after.activity.weight (state.cursor < front.length) <
      state.activity.weight (state.cursor < front.length)) :
    potential front after < potential front state := by
  simp only [potential, same]
  exact Nat.add_lt_add_left lighter _

/-- Moving the cursor pays for a good deal of weight. -/
theorem potential_lt_of_moved {front : List Token} {state after : State} (moved : state.cursor < after.cursor)
    (inside : after.cursor ≤ front.length)
    (payable : ∀ more other, after.activity.weight more ≤ state.activity.weight other + 23) :
    potential front after < potential front state := by
  have paid := payable (after.cursor < front.length) (state.cursor < front.length)
  simp only [potential]
  omega

end ScriptFrontend.Descent
