import ScriptFrontend.Proofs.DescentTermination
import ScriptFrontend.Proofs.TokenPlaces
import ScriptFrontend.Session

/-! # Nothing after the first end mark is read

Two token lists that agree up to their first end mark cannot be told apart by the descent.  Its cursor is
compared with the length of the list when it passes over a blank line or takes a token, and the second token of
a statement is searched for in all the rest of the list.  From a cursor that has not passed the mark none of
these can see what comes after it (`peek?_eq_of_marked`, `second?_eq_of_marked`, `past_eq_of_marked`).  So every
step is the same in both lists (`next_eq_of_marked`), and so is every run (`run?_eq_of_marked`).

What several scans leave in the buffer of a session is parsed as far as the end mark of the first of them.
-/

namespace ScriptFrontend

namespace Descent

section

variable {tokens others front : List Token} {stop token : Token} {cursor : Nat} {state : State}
  (marked : Marked tokens front stop) (alike : Marked others front stop)

include marked alike

/-! ## Looking and taking -/

theorem getElem?_eq_of_marked (inside : cursor ≤ front.length) : tokens[cursor]? = others[cursor]? := by
  have bound : cursor < (front ++ [stop]).length := by simp; omega
  rw [List.prefix_iff_getElem?.mp marked.isPrefix cursor bound,
    List.prefix_iff_getElem?.mp alike.isPrefix cursor bound]

/-- Blank lines are passed over in the same way.  The mark is not one of them, so a look ends there. -/
theorem peek?_eq_of_marked (inside : cursor ≤ front.length) : peek? tokens cursor = peek? others cursor := by
  have length := marked.length_lt
  have otherLength := alike.length_lt
  induction ahead : front.length - cursor generalizing cursor with
  | zero =>
    obtain ⟨token, here, -, place⟩ := marked.exists_token inside
    have finish : token.kind = .finish := place.finish_iff.mpr (by omega)
    rw [peek?.eq_def tokens, peek?.eq_def others, ← getElem?_eq_of_marked marked alike inside, here]
    simp [finish]
  | succ ahead inductionHypothesis =>
    obtain ⟨token, here, -, -⟩ := marked.exists_token inside
    have later := inductionHypothesis (show cursor + 1 ≤ front.length by omega) (by omega)
    have more : cursor + 1 < tokens.length := by omega
    have otherMore : cursor + 1 < others.length := by omega
    rw [peek?.eq_def tokens, peek?.eq_def others, ← getElem?_eq_of_marked marked alike inside, here]
    simp only [more, otherMore, and_true, later]

/-- The second token of a statement is found before the mark, or is the mark. -/
theorem second?_eq_of_marked (before : cursor < front.length) (first : Token) :
    second? tokens cursor first = second? others cursor first := by
  obtain ⟨index, second, seen, found⟩ := marked.second?_eq before first
  obtain ⟨otherIndex, other, otherSeen, otherFound⟩ := alike.second?_eq before first
  rw [seen, otherSeen, found.unique otherFound.upcoming_eq]

theorem past_eq_of_marked (place : StandsAt front cursor token) :
    past tokens cursor token = past others cursor token := by
  by_cases finish : token.kind = .finish
  · rw [past_finish finish, past_finish finish]
  · have before := place.before finish
    rw [marked.past_eq finish before, alike.past_eq finish before]

/-- A look leads to the same place, and what is done there may rely on it. -/
theorem look_eq_of_marked {use otherUse : State → Token → Option State} (inside : state.cursor ≤ front.length)
    (uses : ∀ index token, Finds front stop state.cursor index token →
      use { state with cursor := index } token = otherUse { state with cursor := index } token) :
    state.look tokens use = state.look others otherUse := by
  obtain ⟨index, token, looked, found⟩ := marked.exists_finds inside
  have otherLooked := looked
  rw [peek?_eq_of_marked marked alike inside] at otherLooked
  simp only [State.look, looked, otherLooked, Option.bind_some]
  exact uses index token found

/-! ## Steps and runs -/

theorem beginStatement_eq_of_marked (place : StandsAt front state.cursor token) :
    beginStatement tokens state token = beginStatement others state token := by
  have same := past_eq_of_marked marked alike place
  unfold beginStatement
  simp only [State.take, same]
  split
  · rfl
  · split
    · next symbol named =>
      -- Only here is the rest of the list searched, and a name is no end mark.
      have before := place.before (by simp [named])
      rw [second?_eq_of_marked marked alike before token]
    · rfl
    · rfl

/-- Whatever the descent is doing, its next step is the same. -/
theorem next_eq_of_marked (inside : state.cursor ≤ front.length) : next tokens state = next others state := by
  unfold next
  cases state.activity with
  | rounds => simp only [getElem?_eq_of_marked marked alike inside]
  | level | returning | finished => rfl
  | statement =>
    apply look_eq_of_marked marked alike inside
    intro index token found
    exact beginStatement_eq_of_marked marked alike found.place
  | typed | named | assigning | assigned | operators | unary | primary | closing | ending | synchronizing
  | recovering =>
    apply look_eq_of_marked marked alike inside
    intro index token found
    have same := past_eq_of_marked marked alike found.place
    simp only [declarationName, declarationRest, assignmentName, assignmentValue, operatorRound, prefixOperator,
      atom, closeGroup, endStatement, recoveryRound, State.take, State.complete, State.report, same]

/-- So the descent goes through the same states, one by one. -/
theorem run?_eq_of_marked (sound : Sound front stop state) (steps : Nat) :
    run? tokens steps state = run? others steps state := by
  induction steps generalizing state with
  | zero => rfl
  | succ steps inductionHypothesis =>
    rw [run?, run?, ← next_eq_of_marked marked alike sound.inside]
    by_cases finished : state.activity = .finished
    · simp only [next, finished, Option.bind_some]
      exact inductionHypothesis sound
    · obtain ⟨after, stepped, advances⟩ := next_advances marked sound finished
      rw [stepped, Option.bind_some, Option.bind_some]
      exact inductionHypothesis advances.sound

end

end Descent

/-! ## Tokens after an end mark -/

theorem terminated_append_cons {stop : Token} (ends : stop.kind = .finish) (before after : List Token) :
    terminated (before ++ stop :: after) = terminated (before ++ [stop]) := by
  have cut : (before ++ stop :: after).takeWhile (fun token => token.kind ≠ .finish) =
      (before ++ [stop]).takeWhile (fun token => token.kind ≠ .finish) := by
    induction before with
    | nil => simp [ends]
    | cons token before inductionHypothesis =>
      rw [List.cons_append, List.cons_append, List.takeWhile_cons, List.takeWhile_cons, inductionHypothesis]
  have found : (before ++ stop :: after).find? (fun token => token.kind = .finish) =
      (before ++ [stop]).find? (fun token => token.kind = .finish) := by
    simp [List.find?_append, ends]
  have present : ((before ++ [stop]).find? (fun token => token.kind = .finish)).isSome := by
    simp [ends]
  obtain ⟨first, isFirst⟩ := Option.isSome_iff_exists.mp present
  have last := List.getLast?_eq_some_getLast (show before ++ stop :: after ≠ [] by simp)
  have otherLast := List.getLast?_eq_some_getLast (show before ++ [stop] ≠ [] by simp)
  simp only [terminated, last, otherLast, cut, found, isFirst, Option.getD_some]

theorem parse_append_cons {stop : Token} (ends : stop.kind = .finish) (before after : List Token) :
    parse (before ++ stop :: after) = parse (before ++ [stop]) := by
  simp only [parse, parseWith, terminated_append_cons ends before after]

/-- The descent through the tokens is the same too, step by step. -/
theorem Descent.run?_append_cons {stop : Token} (ends : stop.kind = .finish) (before after : List Token)
    (steps : Nat) :
    run? (ended (before ++ stop :: after)) steps .start = run? (ended (before ++ [stop])) steps .start := by
  obtain ⟨front, first, marked, read⟩ := marked_ended (show before ++ stop :: after ≠ [] by simp)
  obtain ⟨otherFront, otherFirst, alike, otherRead⟩ := marked_ended (show before ++ [stop] ≠ [] by simp)
  -- Both are read up to the same mark, because neither the mark nor what comes before it depends on the rest.
  rw [terminated_append_cons ends, otherRead] at read
  obtain ⟨rfl, sameFirst⟩ := List.append_inj' read rfl
  obtain rfl : otherFirst = first := List.singleton_inj.mp sameFirst
  exact run?_eq_of_marked marked alike (sound_start _ _) steps

/-! ## Sessions -/

namespace Session

/-- Scans texts, each with its file, one after the other. -/
def scanAll (session : Session) (texts : List (String × String)) : Session :=
  texts.foldl (fun session text => session.scan text.1 text.2) session

/-- Scanning only adds to the buffer. -/
theorem exists_tokens_scanAll (session : Session) (texts : List (String × String)) :
    ∃ more, (session.scanAll texts).tokens = session.tokens ++ more := by
  induction texts generalizing session with
  | nil => exact ⟨[], (List.append_nil _).symm⟩
  | cons text texts inductionHypothesis =>
    obtain ⟨more, added⟩ := inductionHypothesis (session.scan text.1 text.2)
    refine ⟨(ScriptFrontend.scan ⟨text.1, session.scans⟩ text.2).tokens ++ more, ?_⟩
    rw [← List.append_assoc]
    exact added

/-- Of all texts that are scanned into an empty buffer only the first is parsed. -/
theorem parse_tokens_scanAll (session : Session) (file text : String) (texts : List (String × String)) :
    ScriptFrontend.parse ((session.clear.scan file text).scanAll texts).tokens =
      ScriptFrontend.parse (ScriptFrontend.scan ⟨file, session.scans⟩ text).tokens := by
  obtain ⟨more, added⟩ := exists_tokens_scanAll (session.clear.scan file text) texts
  have cleared : (session.clear.scan file text).tokens =
      (ScriptFrontend.scan ⟨file, session.scans⟩ text).tokens := rfl
  rw [added, cleared, scan_eq_placedTokens, List.append_assoc]
  exact parse_append_cons rfl _ more

end Session

/-! ## Main result -/

/-- What follows an end mark has no part in parsing: not in its result, and not in any step on the way to it.  The
    tokens before the mark may have other end marks among them, and those after it may be any.  So what a session
    scans after a text, into a buffer that was empty before, changes neither the tree nor what parsing reports. -/
theorem parse_append_finish {stop : Token} (ends : stop.kind = .finish) (before after : List Token) :
    parse (before ++ [stop] ++ after) = parse (before ++ [stop]) ∧
      (∀ steps, Descent.run? (Descent.ended (before ++ [stop] ++ after)) steps .start =
        Descent.run? (Descent.ended (before ++ [stop])) steps .start) ∧
      ∀ (session : Session) (file text : String) (texts : List (String × String)),
        let parsed := parse (scan ⟨file, session.scans⟩ text).tokens
        let buffered := (session.clear.scan file text).scanAll texts
        buffered.parse.tree = parsed.statements ∧
          buffered.parse.diagnostics = buffered.diagnostics ++ parsed.reports.map Report.toDiagnostic := by
  have joined : before ++ [stop] ++ after = before ++ stop :: after := by simp
  rw [joined]
  refine ⟨parse_append_cons ends before after, Descent.run?_append_cons ends before after, ?_⟩
  intro session file text texts parsed buffered
  have read : parse buffered.tokens = parsed := session.parse_tokens_scanAll file text texts
  constructor
  · show (parse buffered.tokens).statements = parsed.statements
    rw [read]
  · show buffered.diagnostics ++ (parse buffered.tokens).reports.map Report.toDiagnostic = _
    rw [read]

/-- A declaration that an end mark cuts short is not completed by what comes after the mark. -/
theorem parse_append_finish_sample :
    let token (kind : TokenKind) (text : String) : Token := ⟨kind, Symbol.of 1 text, "script", 1⟩
    let stop := token .finish ""
    let before := [token .blankLine "\n", token (.keyword .kwInt) "int"]
    let after := [token (.identifier "x") "x", token (.mark .semicolon) ";", stop, token .blankLine "\n"]
    stop.kind = .finish ∧ (parse (before ++ [stop])).statements.length = 1 ∧
      parse (before ++ [stop] ++ after) = parse (before ++ [stop]) ∧
      (parse (before ++ [stop] ++ after)).reports = [.grammar .expectedName stop] := by
  intro token stop before after
  have ends : stop.kind = .finish := rfl
  have same := (parse_append_finish ends before after).1
  refine ⟨ends, by decide, same, ?_⟩
  rw [same]
  decide

end ScriptFrontend
