import ScriptFrontend.Proofs.HostLines

/-! # Host text tells programs apart

Two accepted scripts whose programs have the same text have the same program, parentheses and places aside
(`body_eq_of_render_eq`).

One thing the text does not tell.  Names are written as they are, and nothing keeps a script from calling a
variable `null`, so that a mention of it is written like the literal.  `Expr.settled` takes such words for what
they are read as; a number that is not finite is written as a word, too, and is taken for it.  Settled
expressions can be read back.

A statement is read by its lexemes (`Writes`).  They show whether it declares, assigns or evaluates something,
and then `Reads.unique` applies to the value.
-/

namespace ScriptFrontend

namespace Host

/-! ## Programs up to parentheses and words -/

mutual

/-- An expression without its parentheses. -/
def Expr.erased : Expr → Expr
  | .binary operator left right => .binary operator left.erased right.erased
  | .parenthesized inner => inner.erased
  | .literal constant => .literal constant
  | .prefixed operator operand => .prefixed operator operand.erased
  | .name text => .name text
  | .assign target value => .assign target value.erased
  | .invoke routine arguments => .invoke routine (erasedArguments arguments)

def erasedArguments : List Expr → List Expr
  | [] => []
  | argument :: rest => argument.erased :: erasedArguments rest

end

def Action.erased : Action → Action
  | .declare ty name initial => .declare ty name (initial.map Expr.erased)
  | .expression value => .expression value.erased
  | .empty => .empty

/-- A constant as what its text is taken for: a number that is not finite is written as a word. -/
def Constant.settled : Constant → Expr
  | .float x => if x.isFinite then .literal (.float x) else .name (x.render numbers)
  | constant => .literal constant

/-- A variable as what its name is taken for. -/
def settledName (text : String) : Expr :=
  if text = "null" then .literal .null else .name text

mutual

/-- An expression with its words as what they are taken for. -/
def Expr.settled : Expr → Expr
  | .binary operator left right => .binary operator left.settled right.settled
  | .parenthesized inner => .parenthesized inner.settled
  | .literal constant => constant.settled
  | .prefixed operator operand => .prefixed operator operand.settled
  | .name text => settledName text
  | .assign target value => .assign target value.settled
  | .invoke routine arguments => .invoke routine (settledArguments arguments)

def settledArguments : List Expr → List Expr
  | [] => []
  | argument :: rest => argument.settled :: settledArguments rest

end

def Action.settled : Action → Action
  | .declare ty name initial => .declare ty name (initial.map Expr.settled)
  | .expression value => .expression value.settled
  | .empty => .empty

/-- Whether the words in the values of a statement are read as what they are. -/
def Action.readable : Action → Bool
  | .declare _ _ initial => initial.all Expr.readable
  | .expression value => value.readable
  | .empty => true

/-! ## Settled expressions -/

theorem Constant.settled_cases (constant : Constant) :
    constant.settled = .literal constant ∨ constant.settled = .name constant.render := by
  cases constant with
  | float x => cases finite : x.isFinite <;> simp [settled, finite, render]
  | null | int _ | string _ | bool _ => exact .inl rfl

theorem settledName_cases (text : String) :
    settledName text = .name text ∨ text = "null" ∧ settledName text = .literal .null := by
  unfold settledName
  split
  · next null => exact .inr ⟨null, rfl⟩
  · exact .inl rfl

theorem Constant.render_settled (constant : Constant) : constant.settled.render = constant.render := by
  rcases constant.settled_cases with same | word
  · rw [same, Expr.render]
  · rw [word, Expr.render]

theorem render_settledName (text : String) : (settledName text).render = text := by
  rcases settledName_cases text with same | ⟨rfl, null⟩
  · rw [same, Expr.render]
  · rw [null]
    rfl

theorem precedence_settled {value : Expr} (scripted : Scripted value) :
    value.settled.precedence = value.precedence := by
  cases scripted with
  | binary _ _ | parenthesized _ | prefixed _ => rfl
  | @literal constant _ =>
    rcases constant.settled_cases with same | word
    · rw [Expr.settled, same]
    · rw [Expr.settled, word]
      rfl
  | @name text _ =>
    rcases settledName_cases text with same | ⟨-, null⟩
    · rw [Expr.settled, same]
    · rw [Expr.settled, null]
      rfl

theorem Scripted.render_settled {value : Expr} (scripted : Scripted value) :
    value.settled.render = value.render := by
  induction scripted with
  | binary left right leftHypothesis rightHypothesis =>
    simp only [Expr.settled, Expr.render, leftHypothesis, rightHypothesis, precedence_settled left,
      precedence_settled right]
  | parenthesized _ inductionHypothesis => simp only [Expr.settled, Expr.render, inductionHypothesis]
  | @literal constant _ => exact constant.render_settled
  | prefixed operand inductionHypothesis =>
    simp only [Expr.settled, Expr.render, inductionHypothesis, precedence_settled operand]
  | @name text _ => exact render_settledName text

theorem isIdentifier_of_isScriptName {text : String} (name : IsScriptName text) (other : text ≠ "null") :
    isIdentifier text = true := by
  obtain ⟨notKeyword, c, others, spelled, begins, inside⟩ := name
  have plain : text ∉ literalWords := by
    simp only [literalWords, List.mem_cons, List.not_mem_nil, or_false, not_or]
    refine ⟨other, ?_, ?_⟩
    · rintro rfl
      exact absurd notKeyword (by decide)
    · rintro rfl
      exact absurd notKeyword (by decide)
  simp only [isIdentifier, spelled, begins, Bool.true_and, Bool.and_eq_true, List.all_eq_true,
    Bool.not_eq_true', List.contains_eq_mem, decide_eq_false_iff_not]
  exact ⟨inside, plain⟩

theorem Constant.Unsigned.readable_settled {constant : Constant} (unsigned : constant.Unsigned) :
    constant.settled.readable = true := by
  cases constant with
  | float x =>
    cases finite : x.isFinite with
    | true => simp [settled, finite, Expr.readable, readable]
    | false =>
      rw [settled, finite, if_neg Bool.false_ne_true, render_infinite unsigned finite]
      decide
  | null | int _ | string _ | bool _ => rfl

theorem Scripted.readable_settled {value : Expr} (scripted : Scripted value) :
    value.settled.readable = true := by
  induction scripted with
  | binary _ _ leftHypothesis rightHypothesis =>
    simp only [Expr.settled, Expr.readable, leftHypothesis, rightHypothesis, Bool.and_self]
  | parenthesized _ inductionHypothesis | prefixed _ inductionHypothesis => exact inductionHypothesis
  | literal unsigned => exact unsigned.readable_settled
  | @name text name =>
    rw [Expr.settled, settledName]
    split
    · rfl
    · next other => exact isIdentifier_of_isScriptName name other

/-- Constants without a sign are read as they are. -/
theorem Constant.Unsigned.bare_settled {constant : Constant} (unsigned : constant.Unsigned) :
    constant.settled.bare = constant.settled.erased := by
  cases constant with
  | int value =>
    obtain ⟨n, rfl⟩ := Int.eq_ofNat_of_zero_le unsigned
    rfl
  | float x =>
    cases finite : x.isFinite <;> simp [settled, finite, Expr.bare, Expr.erased, bare, unsigned.1]
  | null | string _ | bool _ => rfl

theorem Scripted.bare_settled {value : Expr} (scripted : Scripted value) :
    value.settled.bare = value.settled.erased := by
  induction scripted with
  | binary _ _ leftHypothesis rightHypothesis =>
    simp only [Expr.settled, Expr.bare, Expr.erased, leftHypothesis, rightHypothesis]
  | parenthesized _ inductionHypothesis => exact inductionHypothesis
  | literal unsigned => exact unsigned.bare_settled
  | prefixed _ inductionHypothesis => simp only [Expr.settled, Expr.bare, Expr.erased, inductionHypothesis]
  | @name text _ =>
    rw [Expr.settled, settledName]
    split <;> rfl

/-! ## Statements by their lexemes -/

/-- What it means that lexemes are those of a value: they are read as the value. -/
def ReadAs (lexemes : List Lexeme) (value : Expr) : Prop :=
  ∃ read, Reads 0 lexemes read ∧ read.bare = value.settled.erased

/-- The lexemes of a statement before its semicolon.  An assignment is told from other values by its equals
    sign, whatever its target is called. -/
inductive Writes : Action → List Lexeme → Prop where
  | value {value : Expr} {lexemes : List Lexeme} :
      (∀ target assigned, value.settled.erased ≠ .assign target assigned) → ReadAs lexemes value →
      Writes (.expression value) lexemes
  | assign {target : String} {value : Expr} {lexemes : List Lexeme} : ReadAs lexemes value →
      Writes (.expression (.assign target value)) (.word target :: .mark .equal :: lexemes)
  | declare {ty : Primitive} {name : String} : Writes (.declare ty name none) [.word ty.keyword, .word name]
  | initialized {ty : Primitive} {name : String} {value : Expr} {lexemes : List Lexeme} :
      ReadAs lexemes value →
      Writes (.declare ty name (some value)) (.word ty.keyword :: .word name :: .mark .equal :: lexemes)

theorem ReadAs.unique {lexemes : List Lexeme} {value other : Expr} (reads : ReadAs lexemes value)
    (readsOther : ReadAs lexemes other) : value.settled.erased = other.settled.erased := by
  obtain ⟨read, derived, bare⟩ := reads
  obtain ⟨readOther, derivedOther, bareOther⟩ := readsOther
  rw [← bare, ← bareOther, derived.unique derivedOther]

theorem Reader.takeOperand_word (frames : List Frame) (text : String) :
    ∃ operand, takeOperand frames (.word text) = some (frames, .operator operand) := by
  by_cases literal : text ∈ literalWords
  · simp only [literalWords, List.mem_cons, List.not_mem_nil, or_false] at literal
    rcases literal with rfl | rfl | rfl <;> exact ⟨_, rfl⟩
  · exact ⟨_, takeOperand_name literal frames⟩

/-- Two words one after the other begin no expression. -/
theorem not_reads_words {first second : String} {rest : List Lexeme} {value : Expr} :
    ¬ Reads 0 (.word first :: .word second :: rest) value := by
  intro derived
  have ran := derived.run_eq
  obtain ⟨operand, taken⟩ := Reader.takeOperand_word [] first
  simp [Reader.run, Reader.step, taken, Reader.takeOperator] at ran

/-- A word and an equals sign begin nothing but an assignment. -/
theorem Reads.eq_assign {target : String} {lexemes : List Lexeme} {value assigned : Expr}
    (derived : Reads 0 (.word target :: .mark .equal :: lexemes) value) (derivedRest : Reads 0 lexemes assigned) :
    value = .assign target assigned := by
  by_cases literal : target ∈ literalWords
  · have ran := derived.run_eq
    simp only [literalWords, List.mem_cons, List.not_mem_nil, or_false] at literal
    rcases literal with rfl | rfl | rfl <;>
      simp [Reader.run, Reader.step, Reader.takeOperand, Reader.takeOperator] at ran
  · exact derived.unique (.assign literal derivedRest)

/-- An assignment is not read as another value. -/
theorem ReadAs.not_assignment {target : String} {lexemes : List Lexeme} {value assigned : Expr}
    (plain : ∀ target assigned, value.settled.erased ≠ .assign target assigned)
    (reads : ReadAs lexemes assigned) : ¬ ReadAs (.word target :: .mark .equal :: lexemes) value := by
  rintro ⟨read, derived, bare⟩
  obtain ⟨readRest, derivedRest, -⟩ := reads
  rw [derived.eq_assign derivedRest] at bare
  exact plain _ _ bare.symm

theorem ReadAs.not_words {first second : String} {rest : List Lexeme} {value : Expr} :
    ¬ ReadAs (.word first :: .word second :: rest) value := by
  rintro ⟨read, derived, -⟩
  exact not_reads_words derived

theorem Primitive.keyword_injective : Function.Injective Primitive.keyword := by
  intro first second same
  cases first <;> cases second <;> first | rfl | exact absurd same (by decide)

/-- Lexemes are those of one statement. -/
theorem Writes.unique {first second : Action} {lexemes others : List Lexeme} (writes : Writes first lexemes)
    (writesOther : Writes second others) (same : lexemes = others) :
    first.settled.erased = second.settled.erased := by
  -- Headers differ by their first lexemes.  A value has no header, but does not begin like one.
  cases writes with
  | value plain reads =>
    subst same
    cases writesOther with
    | value _ readsOther => simp only [Action.settled, Action.erased, reads.unique readsOther]
    | assign readsOther => exact absurd reads (readsOther.not_assignment plain)
    | declare | initialized _ => exact absurd reads ReadAs.not_words
  | assign reads =>
    cases writesOther with
    | value plain readsOther => exact absurd (same ▸ readsOther) (reads.not_assignment plain)
    | assign readsOther =>
      cases same
      simp only [Action.settled, Expr.settled, Action.erased, Expr.erased, reads.unique readsOther]
    | declare | initialized _ => cases same
  | @declare ty name =>
    cases writesOther with
    | value _ readsOther => exact absurd (same ▸ readsOther) ReadAs.not_words
    | assign _ => cases same
    | initialized _ => simp at same
    | @declare tyOther nameOther =>
      simp only [List.cons.injEq, Lexeme.word.injEq, and_true] at same
      rw [Primitive.keyword_injective same.1, same.2]
  | @initialized ty name value lexemes reads =>
    cases writesOther with
    | value _ readsOther => exact absurd (same ▸ readsOther) ReadAs.not_words
    | assign _ => cases same
    | declare => simp at same
    | @initialized tyOther nameOther valueOther lexemesOther readsOther =>
      simp only [List.cons.injEq, Lexeme.word.injEq, true_and] at same
      obtain ⟨keyword, rfl, rfl⟩ := same
      rw [Primitive.keyword_injective keyword]
      simp only [Action.settled, Action.erased, Option.map_some, reads.unique readsOther]

/-! ## The lexemes of statements -/

theorem lex_of_lexesAs {text : List Char} {lexemes : List Lexeme} (lexed : LexesAs text lexemes []) :
    lex text = some lexemes := by
  simpa [LexesAs, lex, lexAfter] using lexed

theorem lexesAs_scriptName {text : String} (name : IsScriptName text) {rest : List Char}
    (detached : Detached rest) : LexesAs text.toList [.word text] rest :=
  lexesAs_spelled name.2 detached

theorem lexesAs_keyword (ty : Primitive) {rest : List Char} (detached : Detached rest) :
    LexesAs ty.keyword.toList [.word ty.keyword] rest := by
  cases ty <;> exact lexesAs_word rfl (List.all_eq_true.mp rfl) detached.endsWord

theorem lexesAs_semicolon : LexesAs [';'] [.mark .semicolon] [] :=
  lexesAs_mark .semicolon trivial

theorem detached_semicolon : Detached [';'] :=
  detached_cons (by decide) (by decide)

/-- What it means that a text gives the lexemes of a value, and nothing that follows changes them. -/
def Spells (text : List Char) (value : Expr) : Prop :=
  ∃ lexemes, ReadAs lexemes value ∧ ∀ rest, Detached rest → LexesAs text lexemes rest

theorem spells_of_readsBack {text : List Char} {value : Expr} (back : ReadsBack 0 text value.settled)
    (same : value.settled.bare = value.settled.erased) : Spells text value := by
  obtain ⟨-, lexemes, read, lexed, derived, bare⟩ := back
  exact ⟨lexemes, ⟨read, derived, bare.trans same⟩, lexed⟩

theorem Scripted.readsBack_settled {value : Expr} (scripted : Scripted value) :
    ReadsBack 0 value.render.toList value.settled := by
  have back := Expr.readsBack value.settled scripted.readable_settled
  rw [scripted.render_settled] at back
  exact back.loosen (Nat.zero_le _)

theorem Scripted.spells {value : Expr} (scripted : Scripted value) : Spells value.render.toList value :=
  spells_of_readsBack scripted.readsBack_settled scripted.bare_settled

theorem Scripted.spells_print {value : Expr} (scripted : Scripted value) :
    Spells (Expr.invoke .write [value]).render.toList (.invoke .write [value]) := by
  have back := readsBack_invoke .write (readsBackArguments_last scripted.readsBack_settled)
  have spelled : (Expr.invoke .write [value]).render.toList =
      Builtin.write.path.toList ++ ['('] ++ (value.render.toList ++ [')']) := by
    simp [Expr.render, renderArguments]
  rw [spelled]
  refine spells_of_readsBack (back.loosen (Nat.zero_le 6)) ?_
  simp only [Expr.settled, settledArguments, Expr.bare, bareArguments, Expr.erased, erasedArguments,
    scripted.bare_settled]

theorem Scripted.not_assignment {value : Expr} (scripted : Scripted value) :
    ∀ target assigned, value.settled.erased ≠ .assign target assigned := by
  intro target assigned
  induction scripted with
  | binary _ _ _ _ | prefixed _ _ => simp [Expr.settled, Expr.erased]
  | parenthesized _ inductionHypothesis => exact inductionHypothesis
  | @literal constant _ =>
    rcases constant.settled_cases with same | word
    · simp [Expr.settled, same, Expr.erased]
    · simp [Expr.settled, word, Expr.erased]
  | @name text _ =>
    rcases settledName_cases text with same | ⟨-, null⟩
    · simp [Expr.settled, same, Expr.erased]
    · simp [Expr.settled, null, Expr.erased]

/-- A value after an equals sign, and the semicolon after it. -/
theorem lexesAs_initial {text : List Char} {lexemes : List Lexeme}
    (lexed : ∀ rest, Detached rest → LexesAs text lexemes rest) :
    LexesAs ([' '] ++ (['='] ++ ([' '] ++ (text ++ [';'])))) (.mark .equal :: lexemes ++ [.mark .semicolon]) [] := by
  have valued := (lexed _ detached_semicolon).append lexesAs_semicolon
  have marked : LexesAs ['='] [.mark .equal] ([' '] ++ (text ++ [';']) ++ []) :=
    lexesAs_mark .equal (standsAlone_space _ _)
  exact (lexesAs_space _).append (marked.append ((lexesAs_space _).append valued))

/-- The text of a statement gives its lexemes. -/
theorem ScriptedAction.lex_render {action : Action} (scripted : ScriptedAction action)
    (something : action ≠ .empty) :
    ∃ lexemes, Writes action lexemes ∧ lex action.render.toList = some (lexemes ++ [.mark .semicolon]) := by
  cases scripted with
  | expression value =>
    obtain ⟨lexemes, reads, lexed⟩ := value.spells
    refine ⟨lexemes, .value value.not_assignment reads, lex_of_lexesAs ?_⟩
    rw [Action.render, String.toList_append]
    exact (lexed _ detached_semicolon).append lexesAs_semicolon
  | print value =>
    obtain ⟨lexemes, reads, lexed⟩ := value.spells_print
    refine ⟨lexemes, .value (by simp [Expr.settled, Expr.erased]) reads, lex_of_lexesAs ?_⟩
    rw [Action.render, String.toList_append]
    exact (lexed _ detached_semicolon).append lexesAs_semicolon
  | @assign target value name scripted =>
    obtain ⟨lexemes, reads, lexed⟩ := scripted.spells
    refine ⟨_, .assign reads, lex_of_lexesAs ?_⟩
    have whole := (lexesAs_scriptName name (detached_space _)).append (lexesAs_initial lexed)
    simpa [Action.render, Expr.render] using whole
  | @declare ty name isName =>
    refine ⟨_, .declare, lex_of_lexesAs ?_⟩
    have named := (lexesAs_scriptName isName detached_semicolon).append lexesAs_semicolon
    have whole := (lexesAs_keyword ty (detached_space _)).append ((lexesAs_space _).append named)
    simpa [Action.render] using whole
  | @initialized ty name value isName scripted =>
    obtain ⟨lexemes, reads, lexed⟩ := scripted.spells
    refine ⟨_, .initialized reads, lex_of_lexesAs ?_⟩
    have named := (lexesAs_scriptName isName (detached_space _)).append (lexesAs_initial lexed)
    have whole := (lexesAs_keyword ty (detached_space _)).append ((lexesAs_space _).append named)
    simpa [Action.render] using whole
  | empty => contradiction

/-! ## Lines -/

/-- Scripted statements on the same line are the same. -/
theorem ScriptedAction.eq_of_line_eq {statement other : Stmt} (scripted : ScriptedAction statement.action)
    (scriptedOther : ScriptedAction other.action) (same : statement.line = other.line) :
    statement.action.settled.erased = other.action.settled.erased := by
  rcases statement.line_cases with ⟨empty, line⟩ | ⟨something, line⟩ <;>
    rcases other.line_cases with ⟨emptyOther, lineOther⟩ | ⟨somethingOther, lineOther⟩ <;>
    rw [line, lineOther] at same
  · rw [empty, emptyOther]
  -- An empty line is not indented.
  · simp at same
  · simp at same
  · obtain ⟨lexemes, writes, lexed⟩ := scripted.lex_render something
    obtain ⟨lexemesOther, writesOther, lexedOther⟩ := scriptedOther.lex_render somethingOther
    have texts : statement.action.render = other.action.render := by
      simpa [String.ext_iff] using same
    rw [texts, lexedOther] at lexed
    exact writes.unique writesOther (List.append_cancel_right (Option.some.inj lexed)).symm

/-- Scripted statements with the same lines are the same. -/
theorem eq_of_lines_eq {body others : List Stmt} (scripted : ∀ statement ∈ body, ScriptedAction statement.action)
    (scriptedOthers : ∀ statement ∈ others, ScriptedAction statement.action)
    (same : body.map Stmt.line = others.map Stmt.line) :
    body.map (·.action.settled.erased) = others.map (·.action.settled.erased) := by
  induction body generalizing others with
  | nil =>
    cases others with
    | nil => rfl
    | cons _ _ => contradiction
  | cons statement body inductionHypothesis =>
    cases others with
    | nil => contradiction
    | cons other others =>
      rw [List.forall_mem_cons] at scripted scriptedOthers
      rw [List.map_cons, List.map_cons, List.cons.injEq] at same ⊢
      exact ⟨scripted.1.eq_of_line_eq scriptedOthers.1 same.1,
        inductionHypothesis scripted.2 scriptedOthers.2 same.2⟩

end Host

/-- Two accepted scripts with the same host text have the same statements, apart from parentheses and the
    places they came from, and with their words as what they are taken for. -/
theorem body_eq_of_render_eq {text file textOther fileOther : String} {program other : Host.Program}
    (emitted : emit text file = .ok program) (emittedOther : emit textOther fileOther = .ok other)
    (same : program.render = other.render) :
    program.entry.body.map (·.action.settled.erased) = other.entry.body.map (·.action.settled.erased) := by
  have lines := lines_render emitted
  rw [same, lines_render emittedOther] at lines
  have written := List.map_inj_right (fun _ _ => String.toList_injective) |>.mp (List.append_cancel_right lines)
  have bodies := List.append_cancel_left (List.append_cancel_right written)
  exact Host.eq_of_lines_eq (emit_scripted emitted) (emit_scripted emittedOther) bodies.symm

/-- The remainder binds more tightly in a script than in a program, where it needs the parentheses that the
    other script has by itself. -/
theorem body_eq_of_render_eq_sample :
    ∃ program other, emit "print 2 * 3 % 4;" "script" = .ok program ∧
      emit "print 2 * (3 % 4);" "script" = .ok other ∧ program.render = other.render ∧
      program.entry.body.map (·.action.settled.erased) = other.entry.body.map (·.action.settled.erased) := by
  have accepted : ∃ program ∈ (emit "print 2 * 3 % 4;" "script").toOption,
      ∃ other ∈ (emit "print 2 * (3 % 4);" "script").toOption, program.render = other.render := by
    decide +kernel
  obtain ⟨program, member, other, memberOther, texts⟩ := accepted
  have emitted := eq_ok_of_mem_toOption member
  have emittedOther := eq_ok_of_mem_toOption memberOther
  exact ⟨program, other, emitted, emittedOther, texts, body_eq_of_render_eq emitted emittedOther texts⟩

/-! ## Words that are taken for something else -/

/-- Programs with one text whose statements differ, as shown by whether their words are read as what they
    are. -/
theorem exists_distinct_bodies {text other file : String}
    (clash : ∃ program ∈ (emit text file).toOption, ∃ programOther ∈ (emit other file).toOption,
      program.render = programOther.render ∧ program.entry.body.map (·.action.erased.readable) ≠
        programOther.entry.body.map (·.action.erased.readable)) :
    ∃ program programOther, emit text file = .ok program ∧ emit other file = .ok programOther ∧
      program.render = programOther.render ∧
      program.entry.body.map (·.action.erased) ≠ programOther.entry.body.map (·.action.erased) := by
  obtain ⟨program, member, programOther, memberOther, texts, differ⟩ := clash
  refine ⟨program, programOther, eq_ok_of_mem_toOption member, eq_ok_of_mem_toOption memberOther, texts, ?_⟩
  intro bodies
  apply differ
  have readable := congrArg (List.map Host.Action.readable) bodies
  simpa [Function.comp_def] using readable

/-- The text alone does not tell a variable from a literal: a variable may be called `null`, and another one
    `inf`, which is how a number beyond the range of a float is written. -/
theorem distinct_bodies_of_render_eq :
    let hugeText :=
      String.ofList ("double inf = 1.0; print 1".toList ++ (List.replicate 309 '0' ++ ".0;".toList))
    (∃ program other, emit "int null = 1; print null;" "script" = .ok program ∧
      emit "int null = 1; print nil;" "script" = .ok other ∧ program.render = other.render ∧
      program.entry.body.map (·.action.erased) ≠ other.entry.body.map (·.action.erased)) ∧
    ∃ program other, emit "double inf = 1.0; print inf;" "script" = .ok program ∧
      emit hugeText "script" = .ok other ∧ program.render = other.render ∧
      program.entry.body.map (·.action.erased) ≠ other.entry.body.map (·.action.erased) := by
  intro hugeText
  constructor
  · apply exists_distinct_bodies
    decide +kernel
  · apply exists_distinct_bodies
    -- The scanner is given the characters of the long text, which would be slow to decode.
    simp only [hugeText, emit, frontEnd, scan, String.toList_ofList]
    decide +kernel

end ScriptFrontend
