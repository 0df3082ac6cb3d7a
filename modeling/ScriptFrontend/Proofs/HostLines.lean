import ScriptFrontend.Proofs.ScriptedPrograms

/-! # The lines of host text

The text of a lowered script is read line by line: six lines before the statements, one for each statement,
and two after them (`lines_render`).  This takes more than the shape of the renderer, because a line feed or
a carriage return in the text of a statement would move everything after it.  Names have neither, numbers
have neither, and in a quoted string both are escaped (`Scripted.oneLine`).
-/

namespace ScriptFrontend

/-! ## Texts on one line -/

/-- Whether a text has no character that ends a line. -/
def OneLine (text : List Char) : Prop := '\n' ∉ text ∧ '\r' ∉ text

instance (text : List Char) : Decidable (OneLine text) := inferInstanceAs (Decidable (_ ∧ _))

@[simp] theorem oneLine_nil : OneLine [] := by
  simp [OneLine]

@[simp] theorem oneLine_append {left right : List Char} :
    OneLine (left ++ right) ↔ OneLine left ∧ OneLine right := by
  simp only [OneLine, List.mem_append, not_or]
  constructor
  · rintro ⟨⟨leftFeed, rightFeed⟩, leftReturn, rightReturn⟩
    exact ⟨⟨leftFeed, leftReturn⟩, rightFeed, rightReturn⟩
  · rintro ⟨⟨leftFeed, leftReturn⟩, rightFeed, rightReturn⟩
    exact ⟨⟨leftFeed, rightFeed⟩, leftReturn, rightReturn⟩

@[simp] theorem oneLine_cons {c : Char} {rest : List Char} :
    OneLine (c :: rest) ↔ (c ≠ '\n' ∧ c ≠ '\r') ∧ OneLine rest := by
  have single : OneLine [c] ↔ c ≠ '\n' ∧ c ≠ '\r' := by simp [OneLine, eq_comm]
  rw [← List.singleton_append, oneLine_append, single]

theorem oneLine_of_all {p : Char → Bool} {text : List Char} (all : ∀ c ∈ text, p c = true)
    (noFeed : p '\n' = false) (noReturn : p '\r' = false) : OneLine text := by
  constructor
  · intro member
    exact absurd (all _ member) (by simp [noFeed])
  · intro member
    exact absurd (all _ member) (by simp [noReturn])

theorem oneLine_of_subset {text whole : List Char} (within : text ⊆ whole) (oneLine : OneLine whole) :
    OneLine text :=
  ⟨fun member => oneLine.1 (within member), fun member => oneLine.2 (within member)⟩

theorem IsScriptName.oneLine {text : String} (name : IsScriptName text) : OneLine text.toList := by
  obtain ⟨-, c, others, spelled, begins, inside⟩ := name
  rw [spelled]
  refine oneLine_of_all (p := inWord) ?_ rfl rfl
  exact List.forall_mem_cons.mpr ⟨inWord_of_beginsWord begins, inside⟩

/-! ## Constants -/

namespace Text

theorem oneLine_digits (n : Nat) : OneLine (digits n) :=
  oneLine_of_all (p := Char.isDigit) (fun _ => isDigit_of_mem_digits) rfl rfl

theorem oneLine_signedDigits (value : Int) : OneLine (signedDigits value) := by
  cases value with
  | ofNat n => exact oneLine_digits n
  | negSucc n => exact oneLine_cons.mpr ⟨by decide, oneLine_digits (n + 1)⟩

theorem oneLine_escape (c : Char) : OneLine (escape c) := by
  unfold escape
  split
  · next letter chosen =>
    have meant := meaning?_of_letter? chosen
    refine oneLine_cons.mpr ⟨by decide, oneLine_cons.mpr ⟨?_, oneLine_nil⟩⟩
    constructor <;> rintro rfl <;> cases meant
  -- A character that is written as it is has no letter, as both line ends have.
  · next unescaped =>
    refine oneLine_cons.mpr ⟨?_, oneLine_nil⟩
    constructor <;> rintro rfl <;> cases unescaped

theorem oneLine_quote (text : List Char) : OneLine (quote text) := by
  have body : OneLine (text.flatMap escape) := by
    induction text with
    | nil => exact oneLine_nil
    | cons c rest inductionHypothesis =>
      exact oneLine_append.mpr ⟨oneLine_escape c, inductionHypothesis⟩
  simpa [quote] using body

end Text

theorem Decimal.oneLine_positional (x : Decimal) {suffix : String} (oneLine : OneLine suffix.toList) :
    OneLine (x.positional suffix).toList := by
  obtain ⟨digits, zeros | places⟩ := x
  · have filled : OneLine (List.replicate zeros '0') :=
      oneLine_of_all (p := Char.isDigit) (fun c member => by rw [List.eq_of_mem_replicate member]; rfl) rfl rfl
    simp [positional, Text.oneLine_digits, filled, oneLine]
  · have padded : ∀ count, OneLine (List.replicate count '0' ++ Text.digits digits) := by
      intro count
      refine oneLine_append.mpr ⟨?_, Text.oneLine_digits digits⟩
      exact oneLine_of_all (p := Char.isDigit)
        (fun c member => by rw [List.eq_of_mem_replicate member]; rfl) rfl rfl
    simp only [positional, String.toList_ofList, oneLine_append, oneLine_cons]
    refine ⟨?_, by decide, ?_⟩
    · exact oneLine_of_subset (List.take_subset _ _) (padded _)
    · exact oneLine_of_subset (List.drop_subset _ _) (padded _)

theorem Decimal.oneLine_scientific (x : Decimal) : OneLine x.scientific.toList := by
  have digits := Text.oneLine_digits x.digits
  simp only [scientific, String.toList_append, String.toList_ofList, oneLine_append]
  refine ⟨⟨?_, by decide⟩, Text.oneLine_signedDigits _⟩
  split
  · exact oneLine_nil
  · next digit spelled => rwa [spelled] at digits
  · next digit rest _ spelled =>
    rw [spelled, oneLine_cons] at digits
    exact oneLine_cons.mpr ⟨digits.1, oneLine_cons.mpr ⟨by decide, digits.2⟩⟩

theorem Decimal.oneLine_render (x : Decimal) : OneLine (x.render Host.numbers).toList := by
  unfold render
  split
  · exact x.oneLine_positional (by decide)
  · exact x.oneLine_scientific

theorem Binary64.oneLine_render (x : Binary64) : OneLine (x.render Host.numbers).toList := by
  have sign : OneLine (if x.negative then "-" else "").toList := by
    split <;> decide
  simp only [render]
  split
  · decide
  split
  · exact String.toList_append ▸ oneLine_append.mpr ⟨sign, by decide⟩
  split
  · exact String.toList_append ▸ oneLine_append.mpr ⟨sign, Decimal.oneLine_render _⟩
  · exact String.toList_append ▸ oneLine_append.mpr ⟨sign, Decimal.oneLine_render _⟩

namespace Host

theorem Constant.oneLine (constant : Constant) : OneLine constant.render.toList := by
  cases constant with
  | null => decide
  | int value =>
    rw [render, String.toList_ofList]
    exact Text.oneLine_signedDigits value
  | float x => exact x.oneLine_render
  | string value =>
    rw [render, String.toList_ofList]
    exact Text.oneLine_quote value.toList
  | bool value => cases value <;> decide

/-! ## Statements -/

theorem oneLine_parenthesizeIf {needed : Bool} {text : String} (oneLine : OneLine text.toList) :
    OneLine (parenthesizeIf needed text).toList := by
  cases needed with
  | true => simp [parenthesizeIf, oneLine]
  | false => exact oneLine

theorem Scripted.oneLine {value : Expr} (scripted : Scripted value) : OneLine value.render.toList := by
  induction scripted with
  | @binary operator left right _ _ leftHypothesis rightHypothesis =>
    have symbol : OneLine operator.symbol.toList := by cases operator <;> decide
    simp only [Expr.render, String.toList_append, oneLine_append]
    exact ⟨⟨⟨⟨oneLine_parenthesizeIf leftHypothesis, by decide⟩, symbol⟩, by decide⟩,
      oneLine_parenthesizeIf rightHypothesis⟩
  | parenthesized _ inductionHypothesis => simp [Expr.render, inductionHypothesis]
  | @literal constant _ => exact constant.oneLine
  | @prefixed operator operand _ inductionHypothesis =>
    have symbol : OneLine operator.symbol.toList := by cases operator <;> decide
    simp only [Expr.render, String.toList_append, oneLine_append]
    exact ⟨symbol, oneLine_parenthesizeIf inductionHypothesis⟩
  | name isName => exact isName.oneLine

theorem ScriptedAction.oneLine {action : Action} (scripted : ScriptedAction action) :
    OneLine action.render.toList := by
  have keyword : ∀ ty : Primitive, OneLine ty.keyword.toList := by
    intro ty
    cases ty <;> decide
  cases scripted with
  | expression value => simp [Action.render, value.oneLine]
  | print value =>
    have path : OneLine Builtin.write.path.toList := by decide
    simp [Action.render, Expr.render, renderArguments, value.oneLine, path]
  | assign name value => simp [Action.render, Expr.render, name.oneLine, value.oneLine]
  | declare name => simp [Action.render, keyword, name.oneLine]
  | initialized name value => simp [Action.render, keyword, name.oneLine, value.oneLine]
  | empty => decide

theorem Stmt.line_cases (statement : Stmt) :
    statement.action = .empty ∧ statement.line = "" ∨
      statement.action ≠ .empty ∧ statement.line = "        " ++ statement.action.render := by
  obtain ⟨action, origin⟩ := statement
  cases action <;> simp [line]

theorem ScriptedAction.oneLine_line {statement : Stmt} (scripted : ScriptedAction statement.action) :
    OneLine statement.line.toList := by
  rcases statement.line_cases with ⟨-, line⟩ | ⟨-, line⟩
  · rw [line]
    decide
  · simp [line, scripted.oneLine]

/-! ## Programs -/

/-- The lines before the statements of a lowered script. -/
def openingLines : List String :=
  ["using System;", "", "class VenaProgram", "\x7b", "    public static void Main()", "    \x7b"]

def closingLines : List String := ["    \x7d", "\x7d"]

/-- Texts without a line feed are found again when each is ended by one. -/
theorem splitOn_flatMap {texts : List (List Char)} (plain : ∀ text ∈ texts, '\n' ∉ text) :
    (texts.flatMap fun text => text ++ ['\n']).splitOn '\n' = texts ++ [[]] := by
  have joined : ['\n'].intercalate (texts ++ [[]]) = texts.flatMap fun text => text ++ ['\n'] := by
    induction texts with
    | nil => rfl
    | cons text texts inductionHypothesis =>
      have later := inductionHypothesis fun other member => plain other (.tail _ member)
      cases texts with
      | nil => simp [List.intercalate]
      | cons next texts =>
        rw [List.flatMap_cons, ← later]
        simp [List.intercalate]
  rw [← joined]
  apply List.splitOn_intercalate
  · intro text member
    cases List.mem_append.mp member with
    | inl inside => exact plain text inside
    | inr last => simp [List.mem_singleton.mp last]
  · simp

end Host

theorem emit_lines {text file : String} {program : Host.Program} (emitted : emit text file = .ok program) :
    program.lines = Host.openingLines ++ program.entry.body.map Host.Stmt.line ++ Host.closingLines := by
  obtain ⟨body, -, same⟩ := bind_eq_ok.mp (emit_eq_ok emitted).2
  cases same
  rfl

theorem emit_oneLine {text file : String} {program : Host.Program} (emitted : emit text file = .ok program) :
    ∀ line ∈ program.lines, OneLine line.toList := by
  rw [emit_lines emitted]
  intro line member
  simp only [List.mem_append, List.mem_map] at member
  obtain (opening | ⟨statement, inside, rfl⟩) | closing := member
  · revert opening
    revert line
    decide
  · exact (emit_scripted emitted statement inside).oneLine_line
  · revert closing
    revert line
    decide

/-- The text of a lowered script, line by line.  Nothing comes after the line feed of the last line. -/
theorem lines_render {text file : String} {program : Host.Program} (emitted : emit text file = .ok program) :
    program.render.toList.splitOn '\n' =
      (Host.openingLines ++ program.entry.body.map Host.Stmt.line ++ Host.closingLines).map String.toList ++
        [[]] := by
  have spelled : program.render.toList = (program.lines.map String.toList).flatMap fun line => line ++ ['\n'] := by
    simp [Host.Program.render, String.toList_join, List.flatMap_map]
  rw [spelled, Host.splitOn_flatMap, emit_lines emitted]
  intro line member
  obtain ⟨written, inside, rfl⟩ := List.mem_map.mp member
  exact (emit_oneLine emitted written inside).1

end ScriptFrontend
