import ScriptFrontend.Proofs.HostLexing
import ScriptFrontend.Proofs.HostReader

/-! # Host text keeps the tree

An expression is read back from its text, parentheses aside: `reads_render`.

Parentheses are written where an operand binds too loosely for its place, and two more things can go
wrong between a sign and its operand: two minus signs would be one lexeme, and so would a bang and an
equals sign.  What the induction carries is therefore the tier at which a text is read (`ReadsBack`),
which for a negative number is that of a prefix operator, and that no text begins with an equals sign.
-/

namespace ScriptFrontend.Host

/-! ## Expressions without parentheses -/

/-- A constant as it is read: a number with a sign is a prefix operator before its absolute value. -/
def Constant.bare : Constant → Expr
  | .int (.negSucc n) => .prefixed .neg (.literal (.int (n + 1)))
  | .float x =>
    if x.negative then .prefixed .neg (.literal (.float (.ofMagnitude x.magnitude)))
    else .literal (.float x)
  | constant => .literal constant

mutual

/-- An expression without its parentheses, its constants as they are read. -/
def Expr.bare : Expr → Expr
  | .binary operator left right => .binary operator left.bare right.bare
  | .parenthesized inner => inner.bare
  | .literal constant => constant.bare
  | .prefixed operator operand => .prefixed operator operand.bare
  | .name text => .name text
  | .assign target value => .assign target value.bare
  | .invoke routine arguments => .invoke routine (bareArguments arguments)

def bareArguments : List Expr → List Expr
  | [] => []
  | argument :: rest => argument.bare :: bareArguments rest

end

/-- Whether a text is a name: a word that is no literal. -/
def isIdentifier (text : String) : Bool :=
  match text.toList with
  | [] => false
  | c :: others => beginsWord c && others.all inWord && !literalWords.contains text

/-- Whether a constant has a text of its own, which infinities and NaNs have not. -/
def Constant.readable : Constant → Bool
  | .float x => x.isFinite
  | _ => true

mutual

/-- Whether the names in an expression are names and its numbers are finite. -/
def Expr.readable : Expr → Bool
  | .binary _ left right => left.readable && right.readable
  | .parenthesized inner => inner.readable
  | .literal constant => constant.readable
  | .prefixed _ operand => operand.readable
  | .name text => isIdentifier text
  | .assign target value => isIdentifier target && value.readable
  | .invoke _ arguments => readableArguments arguments

def readableArguments : List Expr → Bool
  | [] => true
  | argument :: rest => argument.readable && readableArguments rest

end

/-! ## Reading back -/

theorem Reads.loosen {tier looser : Nat} {lexemes : List Lexeme} {value : Expr}
    (derived : Reads tier lexemes value) (le : looser ≤ tier) : Reads looser lexemes value := by
  induction le with
  | refl => exact derived
  | step _ inductionHypothesis => exact inductionHypothesis derived.tighter

/-- What it means that a text is read back as an expression of a tier. -/
def ReadsBack (tier : Nat) (text : List Char) (value : Expr) : Prop :=
  (∃ c others, text = c :: others ∧ c ≠ '=') ∧
  ∃ lexemes read, (∀ rest, Detached rest → LexesAs text lexemes rest) ∧
    Reads tier lexemes read ∧ read.bare = value.bare

theorem ReadsBack.loosen {tier looser : Nat} {text : List Char} {value : Expr}
    (back : ReadsBack tier text value) (le : looser ≤ tier) : ReadsBack looser text value := by
  obtain ⟨begins, lexemes, read, lexed, derived, bare⟩ := back
  exact ⟨begins, lexemes, read, lexed, derived.loosen le, bare⟩

theorem readsBack_parenthesized {text : List Char} {inner : Expr} (back : ReadsBack 0 text inner) :
    ReadsBack 6 ('(' :: (text ++ [')'])) (.parenthesized inner) := by
  obtain ⟨-, lexemes, read, lexed, derived, bare⟩ := back
  refine ⟨⟨'(', _, rfl, by simp⟩, _, _, ?_, .parenthesized derived, bare⟩
  intro rest _
  have opens : LexesAs ['('] [.mark .openParen] (text ++ [')'] ++ rest) :=
    lexesAs_mark .openParen trivial
  have closes : LexesAs [')'] [.mark .closeParen] rest := lexesAs_mark .closeParen trivial
  exact opens.append ((lexed _ (detached_closing rest)).append closes)

/-- An operand is read back at the tier of its place, which parentheses bring it to. -/
theorem readsBack_parenthesizeIf {bound tier : Nat} (needed : Bool) {text : String} {value : Expr}
    (back : ReadsBack tier text.toList value) (top : bound ≤ 6) (kept : needed = false → bound ≤ tier) :
    ReadsBack bound (parenthesizeIf needed text).toList value := by
  cases needed with
  | false => exact back.loosen (kept rfl)
  | true =>
    have inside := (readsBack_parenthesized (back.loosen (Nat.zero_le tier))).loosen top
    have spelled : (parenthesizeIf true text).toList = '(' :: (text.toList ++ [')']) := by
      simp [parenthesizeIf]
    rw [spelled]
    exact inside

theorem readsBack_binary {operator : BinaryOp} {leftText rightText : List Char} {left right : Expr}
    (backLeft : ReadsBack operator.tier leftText left)
    (backRight : ReadsBack (operator.tier + 1) rightText right) :
    ReadsBack operator.tier (leftText ++ ([' '] ++ (operator.mark.spelling ++ ([' '] ++ rightText))))
      (.binary operator left right) := by
  obtain ⟨⟨c, others, begins, notEquals⟩, leftLexemes, leftRead, lexedLeft, derivedLeft, bareLeft⟩ := backLeft
  obtain ⟨-, rightLexemes, rightRead, lexedRight, derivedRight, bareRight⟩ := backRight
  refine ⟨⟨c, _, by rw [begins, List.cons_append], notEquals⟩, _, _, ?_,
    .binary derivedLeft derivedRight, by simp [Expr.bare, bareLeft, bareRight]⟩
  intro rest detached
  have marked := (lexesAs_mark operator.mark (standsAlone_space _ (rightText ++ rest))).append
    ((lexesAs_space (rightText ++ rest)).append (lexedRight rest detached))
  exact (lexedLeft _ (detached_space _)).append ((lexesAs_space _).append marked)

theorem readsBack_prefixed {operator : PrefixOp} {text : List Char} {operand : Expr}
    (back : ReadsBack 5 text operand) (once : text.head? ≠ operator.mark.spelling.head?) :
    ReadsBack 5 (operator.mark.spelling ++ text) (.prefixed operator operand) := by
  obtain ⟨⟨c, others, rfl, notEquals⟩, lexemes, read, lexed, derived, bare⟩ := back
  refine ⟨?_, .mark operator.mark :: lexemes, .prefixed operator read, ?_, .prefixed derived,
    by simp [Expr.bare, bare]⟩
  · cases operator
    · exact ⟨'-', _, rfl, by simp⟩
    · exact ⟨'!', _, rfl, by simp⟩
  · intro rest detached
    -- A minus sign is kept from another by the parentheses, a bang from an equals sign by the grammar.
    have alone : StandsAlone (c :: others ++ rest) operator.mark := by
      cases operator
      · exact once
      · intro followed
        exact notEquals (Option.some.inj followed)
    exact (lexesAs_mark _ alone).append (lexed rest detached)

/-! ## Names and constants -/

theorem isIdentifier_cases {text : String} (named : isIdentifier text = true) :
    text ∉ literalWords ∧ ∃ c others, text.toList = c :: others ∧ beginsWord c = true ∧
      ∀ d ∈ others, inWord d = true := by
  unfold isIdentifier at named
  split at named
  · contradiction
  · next c others spelled =>
    simp only [Bool.and_eq_true, List.all_eq_true, Bool.not_eq_true', List.contains_eq_mem,
      decide_eq_false_iff_not] at named
    exact ⟨named.2, c, others, spelled, named.1.1, named.1.2⟩

theorem lexesAs_identifier {text : String} (named : isIdentifier text = true) {rest : List Char}
    (detached : Detached rest) : LexesAs text.toList [.word text] rest :=
  lexesAs_spelled (isIdentifier_cases named).2 detached

theorem identifier_begins {text : String} (named : isIdentifier text = true) :
    ∃ c others, text.toList = c :: others ∧ c ≠ '=' := by
  obtain ⟨-, c, others, spelled, begins, -⟩ := isIdentifier_cases named
  refine ⟨c, others, spelled, ?_⟩
  rintro rfl
  contradiction

theorem readsBack_name {text : String} (named : isIdentifier text = true) :
    ReadsBack 6 text.toList (.name text) :=
  ⟨identifier_begins named, [.word text], .name text, fun _ => lexesAs_identifier named,
    .name (isIdentifier_cases named).1, rfl⟩

theorem readsBack_assign {target : String} {text : List Char} {value : Expr}
    (named : isIdentifier target = true) (back : ReadsBack 0 text value) :
    ReadsBack 0 (target.toList ++ ([' '] ++ (['='] ++ ([' '] ++ text)))) (.assign target value) := by
  obtain ⟨-, lexemes, read, lexed, derived, bare⟩ := back
  obtain ⟨c, others, begins, notEquals⟩ := identifier_begins named
  refine ⟨⟨c, _, by rw [begins, List.cons_append], notEquals⟩, _, _, ?_,
    .assign (isIdentifier_cases named).1 derived, by simp [Expr.bare, bare]⟩
  intro rest detached
  have marked := (lexesAs_mark .equal (standsAlone_space _ (text ++ rest))).append
    ((lexesAs_space (text ++ rest)).append (lexed rest detached))
  exact (lexesAs_identifier named (detached_space _)).append ((lexesAs_space _).append marked)

theorem lexesAs_literalWord (text : String) (member : text ∈ literalWords) {rest : List Char}
    (detached : Detached rest) : LexesAs text.toList [.word text] rest := by
  simp only [literalWords, List.mem_cons, List.not_mem_nil, or_false] at member
  rcases member with rfl | rfl | rfl
  all_goals exact lexesAs_word rfl (List.all_eq_true.mp rfl) detached.endsWord

theorem readsBack_digits (n : Nat) : ReadsBack 6 (Text.digits n) (.literal (.int n)) := by
  obtain ⟨digit, others, spelled, isDigit, _⟩ := Text.digits_eq_cons n
  refine ⟨⟨digit, others, spelled, ?_⟩, [.integer n], .literal (.int n), fun _ => lexesAs_integer n,
    .integer, rfl⟩
  rintro rfl
  contradiction

theorem readsBack_magnitude {text : List Char} {magnitude : Nat}
    (reads : Lexer.ReadsMagnitude text magnitude) :
    ReadsBack 6 text (.literal (.float (.ofMagnitude magnitude))) := by
  obtain ⟨decimal, rounds, lexed⟩ := lexesAs_magnitude reads
  obtain ⟨⟨digit, others, spelled, isDigit⟩, -⟩ := reads
  refine ⟨⟨digit, others, spelled, ?_⟩, [.float decimal], _, lexed, .float, by rw [rounds]⟩
  rintro rfl
  contradiction

theorem ReadsBack.of_bare {tier : Nat} {text : List Char} {value other : Expr}
    (back : ReadsBack tier text value) (same : value.bare = other.bare) : ReadsBack tier text other := by
  obtain ⟨begins, lexemes, read, lexed, derived, bare⟩ := back
  exact ⟨begins, lexemes, read, lexed, derived, bare.trans same⟩

theorem magnitude_lt_signWeight (x : Binary64) : x.magnitude < Binary64.signWeight :=
  Nat.mod_lt _ (by decide)

theorem negative_ofMagnitude {m : Nat} (bounded : m < Binary64.signWeight) :
    (Binary64.ofMagnitude m).negative = false := by
  have word : Binary64.signWeight < 2 ^ 64 := by decide
  simp only [Binary64.negative, Binary64.ofMagnitude, decide_eq_false_iff_not, UInt64.toNat_ofNat']
  rw [Nat.mod_eq_of_lt (by omega)]
  omega

theorem ofMagnitude_magnitude {x : Binary64} (unsigned : x.negative = false) :
    Binary64.ofMagnitude x.magnitude = x := by
  simp only [Binary64.negative, decide_eq_false_iff_not, Nat.not_le] at unsigned
  simp only [Binary64.ofMagnitude, Binary64.magnitude, Nat.mod_eq_of_lt unsigned, UInt64.ofNat_toNat]

theorem readsBack_float {x : Binary64} (finite : x.isFinite = true) :
    ReadsBack 5 (x.render numbers).toList (.literal (.float x)) := by
  obtain ⟨text, spelled, reads⟩ := render_finite finite
  have back := (readsBack_magnitude reads).loosen (by omega : 5 ≤ 6)
  rw [spelled]
  cases signed : x.negative with
  | true =>
    -- The sign is read as an operator, before a digit.
    obtain ⟨⟨digit, others, rfl, isDigit⟩, -⟩ := reads
    have once : (digit :: others).head? ≠ PrefixOp.neg.mark.spelling.head? := by
      intro same
      cases same
      contradiction
    refine (readsBack_prefixed back once).of_bare ?_
    simp [Expr.bare, Constant.bare, signed, negative_ofMagnitude (magnitude_lt_signWeight x)]
  | false =>
    refine back.of_bare ?_
    rw [ofMagnitude_magnitude signed]

theorem readsBack_int (value : Int) : ReadsBack 5 (Text.signedDigits value) (.literal (.int value)) := by
  cases value with
  | ofNat n => exact (readsBack_digits n).loosen (by omega)
  | negSucc n =>
    have once : (Text.digits (n + 1)).head? ≠ PrefixOp.neg.mark.spelling.head? := by
      obtain ⟨digit, others, spelled, isDigit, -⟩ := Text.digits_eq_cons (n + 1)
      rw [spelled]
      intro same
      cases same
      contradiction
    have back := (readsBack_digits (n + 1)).loosen (by omega : 5 ≤ 6)
    exact (readsBack_prefixed back once).of_bare rfl

theorem readsBack_constant {constant : Constant} (readable : constant.readable = true) :
    ReadsBack 5 constant.render.toList (.literal constant) := by
  cases constant with
  | null =>
    exact ⟨⟨'n', _, rfl, by simp⟩, _, _, fun _ => lexesAs_literalWord "null" (by decide),
      Reads.null.loosen (by omega), rfl⟩
  | int value =>
    have spelled : (Constant.int value).render.toList = Text.signedDigits value := String.toList_ofList
    exact spelled ▸ readsBack_int value
  | float x => exact readsBack_float readable
  | string value =>
    have spelled : (Constant.string value).render.toList = Text.quote value.toList := String.toList_ofList
    have lexed := lexesAs_quote value.toList
    rw [String.ofList_toList] at lexed
    rw [spelled]
    exact ⟨⟨'"', _, rfl, by simp⟩, _, _, fun rest _ => lexed rest, Reads.string.loosen (by omega), rfl⟩
  | bool value =>
    cases value with
    | true =>
      exact ⟨⟨'t', _, rfl, by simp⟩, _, _, fun _ => lexesAs_literalWord "true" (by decide),
        Reads.true.loosen (by omega), rfl⟩
    | false =>
      exact ⟨⟨'f', _, rfl, by simp⟩, _, _, fun _ => lexesAs_literalWord "false" (by decide),
        Reads.false.loosen (by omega), rfl⟩

/-! ## Expressions -/

@[simp]
theorem BinaryOp.precedence_eq (operator : BinaryOp) : operator.precedence = operator.tier := by
  cases operator <;> rfl

@[simp]
theorem BinaryOp.toList_symbol (operator : BinaryOp) : operator.symbol.toList = operator.mark.spelling := by
  cases operator <;> rfl

@[simp]
theorem PrefixOp.toList_symbol (operator : PrefixOp) : operator.symbol.toList = operator.mark.spelling := by
  cases operator <;> rfl

/-- What it means that arguments are read back, up to the closing parenthesis. -/
def ReadsBackArguments (text : List Char) (arguments : List Expr) : Prop :=
  ∃ lexemes read, (∀ rest, LexesAs text lexemes (')' :: rest)) ∧
    ReadsArguments lexemes read ∧ bareArguments read = bareArguments arguments

/-- The path of a routine is words with points between them. -/
theorem lexesAs_call (routine : Builtin) (rest : List Char) :
    LexesAs (routine.path.toList ++ ['(']) routine.call rest := by
  cases routine
  have point : ∀ d ∈ ('.' :: ("WriteLine(".toList ++ rest)).head?, inWord d = false := by
    intro d head
    cases head
    rfl
  have opening : ∀ d ∈ ('(' :: rest).head?, inWord d = false := by
    intro d head
    cases head
    rfl
  have first : LexesAs "Console".toList [.word "Console"] _ := lexesAs_word rfl (List.all_eq_true.mp rfl) point
  have second : LexesAs "WriteLine".toList [.word "WriteLine"] _ := lexesAs_word rfl (List.all_eq_true.mp rfl) opening
  have opens : LexesAs ['('] [.mark .openParen] rest := lexesAs_mark .openParen trivial
  have divides : LexesAs ['.'] [.mark .dot] ("WriteLine(".toList ++ rest) := lexesAs_mark .dot trivial
  exact first.append (divides.append (second.append opens))

theorem readsBack_invoke (routine : Builtin) {text : List Char} {arguments : List Expr}
    (back : ReadsBackArguments text arguments) :
    ReadsBack 6 (routine.path.toList ++ ['('] ++ (text ++ [')'])) (.invoke routine arguments) := by
  obtain ⟨lexemes, read, lexed, derived, bare⟩ := back
  refine ⟨?_, routine.call ++ (lexemes ++ [.mark .closeParen]), .invoke routine read, ?_,
    .invoke derived, by simp [Expr.bare, bare]⟩
  · cases routine
    exact ⟨'C', _, rfl, by simp⟩
  · intro rest _
    have closes : LexesAs [')'] [.mark .closeParen] rest := lexesAs_mark .closeParen trivial
    exact (lexesAs_call routine _).append ((lexed rest).append closes)

theorem readsBackArguments_last {text : List Char} {argument : Expr} (back : ReadsBack 0 text argument) :
    ReadsBackArguments text [argument] := by
  obtain ⟨-, lexemes, read, lexed, derived, bare⟩ := back
  exact ⟨lexemes, [read], fun rest => lexed _ (detached_closing rest), .last derived,
    by simp [bareArguments, bare]⟩

theorem readsBackArguments_more {text restText : List Char} {argument next : Expr} {others : List Expr}
    (back : ReadsBack 0 text argument) (backRest : ReadsBackArguments restText (next :: others)) :
    ReadsBackArguments (text ++ ([','] ++ ([' '] ++ restText))) (argument :: next :: others) := by
  obtain ⟨-, lexemes, read, lexed, derived, bare⟩ := back
  obtain ⟨restLexemes, restRead, lexedRest, derivedRest, bareRest⟩ := backRest
  cases restRead with
  | nil => contradiction
  | cons readNext readOthers =>
    refine ⟨_, _, ?_, .more derived derivedRest, by rw [bareArguments, bare, bareRest]; rfl⟩
    intro rest
    have divides : LexesAs [','] [.mark .comma] ([' '] ++ restText ++ ')' :: rest) :=
      lexesAs_mark .comma trivial
    have detached : Detached ([','] ++ ([' '] ++ restText) ++ ')' :: rest) :=
      detached_cons (by decide) (by decide)
    exact (lexed _ detached).append (divides.append ((lexesAs_space _).append (lexedRest rest)))

/-- No sign comes right after itself. -/
theorem head?_operand_ne (operator : PrefixOp) {needed : Bool} {text : String}
    (kept : needed = false → beginsWith text operator.symbol = false) :
    (parenthesizeIf needed text).toList.head? ≠ operator.mark.spelling.head? := by
  intro same
  cases needed with
  | true => cases operator <;> simp [parenthesizeIf, PrefixOp.mark, Mark.spelling] at same
  | false =>
    have other := kept rfl
    rw [parenthesizeIf] at same
    cases spelled : text.toList with
    | nil => cases operator <;> simp [spelled, PrefixOp.mark, Mark.spelling] at same
    | cons c others =>
      cases operator <;>
        simp_all [beginsWith, PrefixOp.mark, Mark.spelling]

mutual

/-- Every expression is read back, at a tier that suits the places where it stands bare. -/
theorem Expr.readsBack : ∀ value : Expr, value.readable = true →
    ReadsBack (min value.precedence 5) value.render.toList value
  | .binary operator left right, readable => by
    simp only [Expr.readable, Bool.and_eq_true] at readable
    have bounds := Reader.tier_bounds operator
    -- Without parentheses the left operand binds as tightly as the operator, the right one more tightly.
    have backLeft : ReadsBack operator.tier _ left :=
      readsBack_parenthesizeIf (left.precedence < operator.precedence)
        (Expr.readsBack left readable.1) (by omega) (by simp; omega)
    have backRight : ReadsBack (operator.tier + 1) _ right :=
      readsBack_parenthesizeIf (right.precedence ≤ operator.precedence)
        (Expr.readsBack right readable.2) (by omega) (by simp; omega)
    have back := (readsBack_binary backLeft backRight).loosen
      (Nat.min_le_left _ _ : min operator.tier 5 ≤ operator.tier)
    simpa [Expr.render, Expr.precedence] using back
  | .parenthesized inner, readable => by
    have back := readsBack_parenthesized ((Expr.readsBack inner readable).loosen (Nat.zero_le _))
    simpa [Expr.render, Expr.precedence] using back.loosen (by omega : 5 ≤ 6)
  | .literal constant, readable => readsBack_constant readable
  | .prefixed operator operand, readable => by
    -- Parentheses have two reasons here, and each is a condition of reading without them.
    let needed : Bool := operand.precedence < prefixPrecedence || beginsWith operand.render operator.symbol
    have kept : needed = false →
        5 ≤ operand.precedence ∧ beginsWith operand.render operator.symbol = false := by
      intro bare
      simp only [needed, Bool.or_eq_false_iff, decide_eq_false_iff_not, Nat.not_lt] at bare
      exact bare
    have back : ReadsBack 5 (parenthesizeIf needed operand.render).toList operand :=
      readsBack_parenthesizeIf needed (Expr.readsBack operand readable) (by omega)
        fun bare => Nat.le_min.mpr ⟨(kept bare).1, Nat.le_refl 5⟩
    have once := head?_operand_ne operator fun bare => (kept bare).2
    have spelled : (Expr.prefixed operator operand).render.toList =
        operator.mark.spelling ++ (parenthesizeIf needed operand.render).toList := by
      simp [Expr.render, needed]
    rw [spelled]
    exact readsBack_prefixed back once
  | .name text, readable => (readsBack_name readable).loosen (Nat.min_le_left 6 5)
  | .assign target value, readable => by
    simp only [Expr.readable, Bool.and_eq_true] at readable
    have back := readsBack_assign readable.1 ((Expr.readsBack value readable.2).loosen (Nat.zero_le _))
    simpa [Expr.render, Expr.precedence] using back
  | .invoke routine arguments, readable => by
    have back := readsBack_invoke routine (readsBackArguments arguments readable)
    simpa [Expr.render, Expr.precedence] using back.loosen (by omega : 5 ≤ 6)

theorem readsBackArguments : ∀ arguments : List Expr, readableArguments arguments = true →
    ReadsBackArguments (renderArguments arguments).toList arguments
  | [], _ => ⟨[], [], fun rest => by simp [LexesAs, renderArguments], .none, rfl⟩
  | [argument], readable => by
    simp only [readableArguments, Bool.and_true] at readable
    exact readsBackArguments_last ((Expr.readsBack argument readable).loosen (Nat.zero_le _))
  | argument :: next :: others, readable => by
    rw [readableArguments, Bool.and_eq_true] at readable
    have back := readsBackArguments_more ((Expr.readsBack argument readable.1).loosen (Nat.zero_le _))
      (readsBackArguments (next :: others) readable.2)
    simpa [renderArguments] using back

end

/-- The text of an expression has one reading, and it is the expression up to parentheses. -/
theorem reads_render (value : Expr) (readable : value.readable = true) :
    ∃ lexemes read, lex value.render.toList = some lexemes ∧ Reads 0 lexemes read ∧
      read.bare = value.bare ∧ ∀ other, Reads 0 lexemes other → other = read := by
  obtain ⟨-, lexemes, read, lexed, derived, bare⟩ := (Expr.readsBack value readable).loosen (Nat.zero_le _)
  refine ⟨lexemes, read, ?_, derived, bare, fun other derivedOther => derivedOther.unique derived⟩
  have whole := lexed [] detached_nil
  simpa [LexesAs, lex, lexAfter] using whole

/-- Signs of either kind, a loose right operand and a negative zero. -/
theorem reads_render_sample :
    let value : Expr := .assign "x" (.binary .sub (.prefixed .neg (.literal (.int (-5))))
      (.binary .mod (.prefixed .not (.assign "y" (.literal (.float ⟨0x8000000000000000⟩))))
        (.binary .mul (.name "a") (.invoke .write [.literal (.string "\"\n"), .literal .null]))))
    value.readable = true ∧ ∃ lexemes read, lex value.render.toList = some lexemes ∧
      Reads 0 lexemes read ∧ read.bare = value.bare ∧ ∀ other, Reads 0 lexemes other → other = read := by
  intro value
  have readable : value.readable = true := by decide
  exact ⟨readable, reads_render value readable⟩

end ScriptFrontend.Host
