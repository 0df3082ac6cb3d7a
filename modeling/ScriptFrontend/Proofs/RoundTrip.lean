import ScriptFrontend.Host.Lowering
import ScriptFrontend.Host.Render
import ScriptFrontend.Proofs.ParserCompleteness
import ScriptFrontend.Proofs.ParserSoundness
import ScriptFrontend.Proofs.ScriptScanning

/-! # Host text is script text

An expression of a script, lowered and rendered, is again script text for the same expression
(`parse_scan_render`), as long as it has no `nil` and no float, which the two languages write
differently.

The two tables of binding strengths do not agree: in scripts `%` binds more tightly than `*` and `/`, in
host text alike.  That does no harm, because the renderer never has to be trusted to put parentheses.
A tree that was parsed keeps to the tiers of the script grammar, so every operand is read at its place
without parentheses, and parentheses in addition change nothing (`ComesBack.parenthesizeIf`).
-/

namespace ScriptFrontend

open Grammar

/-! ## Expressions up to parentheses and places -/

/-- A token reduced to its kind and its text. -/
def Token.bare (token : Token) : Token := ⟨token.kind, Symbol.of 0 token.lexeme.text, "", 0⟩

theorem Token.bare_eq_of_look {token other : Token} (same : token.look = other.look) :
    token.bare = other.bare := by
  simp only [Token.look, Prod.mk.injEq] at same
  simp [Token.bare, same]

/-- An expression without its groupings, its tokens reduced to their kinds and texts. -/
def Expr.bare : Expr → Expr
  | .binary left operator right => .binary left.bare operator.bare right.bare
  | .grouping inner => inner.bare
  | .literal value => .literal value
  | .unary operator right => .unary operator.bare right.bare
  | .variable name => .variable name.bare

/-- The expressions inside an expression, itself among them. -/
def Expr.parts : Expr → List Expr
  | .binary left operator right => .binary left operator right :: (left.parts ++ right.parts)
  | .grouping inner => .grouping inner :: inner.parts
  | .literal value => [.literal value]
  | .unary operator right => .unary operator right :: right.parts
  | .variable name => [.variable name]

def Action.parts : Action → List Expr
  | .expression value | .print value | .assign _ value | .declare _ _ (some value) => value.parts
  | .declare _ _ none | .blankLine => []

/-- Whether scripts and host text write the literals of an expression alike: it has no `nil` and no
    float. -/
def Expr.writtenAlike : Expr → Bool
  | .literal .nil | .literal (.double _) => false
  | .literal _ | .variable _ => true
  | .binary left _ right => left.writtenAlike && right.writtenAlike
  | .grouping inner => inner.writtenAlike
  | .unary _ right => right.writtenAlike

theorem binaryTier?_bounds {kind : TokenKind} {tier : Nat} (found : binaryTier? kind = some tier) :
    1 ≤ tier ∧ tier ≤ 5 := by
  rw [binaryTier?_eq, Option.map_eq_some_iff] at found
  obtain ⟨level, -, rfl⟩ := found
  exact level.strength_bounds

theorem Grammar.Derives.part {tier : Nat} {tokens : List Token} {value part : Expr}
    (derived : Derives tier tokens value) (inside : part ∈ value.parts) :
    ∃ partTokens, (∀ token ∈ partTokens, token ∈ tokens) ∧ Derives 1 partTokens part := by
  induction derived with
  | tighter _ inductionHypothesis => exact inductionHypothesis inside
  | @binary _ operator leftTokens rightTokens _ _ found left right leftHypothesis rightHypothesis =>
    simp only [Expr.parts, List.mem_cons, List.mem_append] at inside
    rcases inside with rfl | inside | inside
    · exact ⟨_, fun _ member => member, (Derives.binary found left right).loosen (binaryTier?_bounds found).1⟩
    · obtain ⟨partTokens, within, derived⟩ := leftHypothesis inside
      exact ⟨partTokens, fun token member => by simp [within token member], derived⟩
    · obtain ⟨partTokens, within, derived⟩ := rightHypothesis inside
      exact ⟨partTokens, fun token member => by simp [within token member], derived⟩
  | unary sign right inductionHypothesis =>
    cases inside with
    | head => exact ⟨_, fun _ member => member, (Derives.unary sign right).loosen (by omega)⟩
    | tail _ inside =>
      obtain ⟨partTokens, within, derived⟩ := inductionHypothesis inside
      exact ⟨partTokens, fun token member => List.mem_cons_of_mem _ (within token member), derived⟩
  | literal kind =>
    obtain rfl := List.mem_singleton.mp inside
    exact ⟨_, fun _ member => member, (Derives.literal kind).loosen (by omega)⟩
  | name named =>
    obtain rfl := List.mem_singleton.mp inside
    exact ⟨_, fun _ member => member, (Derives.name named).loosen (by omega)⟩
  | grouping opens inner closes inductionHypothesis =>
    cases inside with
    | head => exact ⟨_, fun _ member => member, (Derives.grouping opens inner closes).loosen (by omega)⟩
    | tail _ inside =>
      obtain ⟨partTokens, within, derived⟩ := inductionHypothesis inside
      exact ⟨partTokens, fun token member => by simp [within token member], derived⟩

theorem Grammar.Spells.part {tokens : List Token} {action : Action} {part : Expr}
    (spelled : Spells tokens action) (inside : part ∈ action.parts) :
    ∃ partTokens, (∀ token ∈ partTokens, token ∈ tokens) ∧ Derives 1 partTokens part := by
  cases spelled with
  | declare _ _ _ => contradiction
  | expression derived _ | print _ derived _ | initialized _ _ _ derived _ | assign _ _ derived _ =>
    obtain ⟨partTokens, within, derivedPart⟩ := derived.part inside
    exact ⟨partTokens, fun token member => by simp [within token member], derivedPart⟩

/-! ## Texts that come back -/

/-- What it means that a text comes back as an expression of a tier: however its tokens are placed,
    they derive the expression up to groupings. -/
def ComesBack (tier : Nat) (text : List Char) (value : Expr) : Prop :=
  (∃ c others, text = c :: others ∧ c ≠ '=') ∧
  ∃ looks, (∀ rest, Detached rest → ScansAs text looks rest) ∧
    ∀ tokens, tokens.map Token.look = looks →
      ∃ read, Derives tier tokens read ∧ read.bare = value.bare

theorem ComesBack.loosen {tier looser : Nat} {text : List Char} {value : Expr}
    (back : ComesBack tier text value) (le : looser ≤ tier) : ComesBack looser text value := by
  obtain ⟨begins, looks, scanned, derives⟩ := back
  refine ⟨begins, looks, scanned, ?_⟩
  intro tokens looked
  obtain ⟨read, derived, bare⟩ := derives tokens looked
  exact ⟨read, derived.loosen le, bare⟩

theorem comesBack_grouping {text : List Char} {inner : Expr} (back : ComesBack 1 text inner) :
    ComesBack 7 ('(' :: (text ++ [')'])) (.grouping inner) := by
  obtain ⟨-, looks, scanned, derives⟩ := back
  refine ⟨⟨'(', _, rfl, by simp⟩, (.mark .openParen, "(") :: (looks ++ [(.mark .closeParen, ")")]), ?_, ?_⟩
  · intro rest _
    have opens : ScansAs ['('] [(.mark .openParen, "(")] (text ++ [')'] ++ rest) :=
      scansAs_mark .openParen (.inr trivial)
    have closes : ScansAs [')'] [(.mark .closeParen, ")")] rest := scansAs_mark .closeParen (.inr trivial)
    exact opens.append ((scanned _ (detached_closing rest)).append closes)
  · intro tokens looked
    simp only [List.map_eq_cons_iff, List.map_eq_append_iff, List.map_eq_nil_iff] at looked
    obtain ⟨opening, _, rfl, opens, innerTokens, _, rfl, looked, closing, _, rfl, closes, rfl⟩ := looked
    obtain ⟨read, derived, bare⟩ := derives innerTokens looked
    exact ⟨.grouping read, .grouping (congrArg Prod.fst opens) derived (congrArg Prod.fst closes), bare⟩

/-- Parentheses around an operand change nothing. -/
theorem ComesBack.parenthesizeIf {tier : Nat} {text : String} {value : Expr}
    (back : ComesBack tier text.toList value) (lower : 1 ≤ tier) (upper : tier ≤ 7) (needed : Bool) :
    ComesBack tier (Host.parenthesizeIf needed text).toList value := by
  cases needed with
  | false => exact back
  | true =>
    have spelled : (Host.parenthesizeIf true text).toList = '(' :: (text.toList ++ [')']) := by
      simp [Host.parenthesizeIf]
    rw [spelled]
    exact (comesBack_grouping (back.loosen lower)).loosen upper

theorem comesBack_binary {tier : Nat} {mark : Mark} {operator : Token} {leftText rightText : List Char}
    {left right : Expr} (kind : operator.kind = .mark mark)
    (lexeme : operator.lexeme.text = String.ofList mark.spelling)
    (found : binaryTier? operator.kind = some tier) (backLeft : ComesBack tier leftText left)
    (backRight : ComesBack (tier + 1) rightText right) :
    ComesBack tier (leftText ++ ([' '] ++ (mark.spelling ++ ([' '] ++ rightText))))
      (.binary left operator right) := by
  obtain ⟨⟨c, others, begins, notEquals⟩, leftLooks, scannedLeft, derivesLeft⟩ := backLeft
  obtain ⟨-, rightLooks, scannedRight, derivesRight⟩ := backRight
  refine ⟨⟨c, _, by rw [begins, List.cons_append], notEquals⟩,
    leftLooks ++ operator.look :: rightLooks, ?_, ?_⟩
  · intro rest detached
    have marked := (scansAs_mark mark (.inr (standsAlone_space mark (rightText ++ rest)))).append
      ((scansAs_space (rightText ++ rest)).append (scannedRight rest detached))
    have look : operator.look = (.mark mark, String.ofList mark.spelling) := by
      rw [Token.look, kind, lexeme]
    rw [look]
    exact (scannedLeft _ (detached_space _)).append ((scansAs_space _).append marked)
  · intro tokens looked
    simp only [List.map_eq_cons_iff, List.map_eq_append_iff] at looked
    obtain ⟨leftTokens, _, rfl, lookedLeft, sign, rightTokens, rfl, same, lookedRight⟩ := looked
    obtain ⟨readLeft, derivedLeft, bareLeft⟩ := derivesLeft leftTokens lookedLeft
    obtain ⟨readRight, derivedRight, bareRight⟩ := derivesRight rightTokens lookedRight
    -- The sign that came back looks like the operator, so it has the same tier.
    have sameKind : sign.kind = operator.kind := congrArg Prod.fst same
    refine ⟨.binary readLeft sign readRight, .binary (sameKind ▸ found) derivedLeft derivedRight, ?_⟩
    simp [Expr.bare, bareLeft, bareRight, Token.bare_eq_of_look same]

theorem comesBack_unary {mark : Mark} {operator : Token} {text : List Char} {right : Expr}
    (kind : operator.kind = .mark mark) (lexeme : operator.lexeme.text = String.ofList mark.spelling)
    (sign : IsSign operator.kind) (back : ComesBack 6 text right) :
    ComesBack 6 (mark.spelling ++ text) (.unary operator right) := by
  obtain ⟨⟨c, others, rfl, notEquals⟩, looks, scanned, derives⟩ := back
  have isSign : mark = .bang ∨ mark = .minus := by simpa [IsSign, kind] using sign
  refine ⟨?_, operator.look :: looks, ?_, ?_⟩
  · rcases isSign with rfl | rfl
    · exact ⟨'!', _, rfl, by simp⟩
    · exact ⟨'-', _, rfl, by simp⟩
  · intro rest detached
    have alone : mark = .minus ∨ StandsAlone (c :: others ++ rest) mark := by
      rcases isSign with rfl | rfl
      · refine .inr fun followed => ?_
        exact notEquals (Option.some.inj followed)
      · exact .inl rfl
    have look : operator.look = (.mark mark, String.ofList mark.spelling) := by
      rw [Token.look, kind, lexeme]
    rw [look]
    exact (scansAs_mark mark alone).append (scanned rest detached)
  · intro tokens looked
    obtain ⟨first, others, rfl, same, looked⟩ := List.map_eq_cons_iff.mp looked
    obtain ⟨read, derived, bare⟩ := derives others looked
    have sameKind : first.kind = operator.kind := congrArg Prod.fst same
    refine ⟨.unary first read, .unary (sameKind ▸ sign) derived, ?_⟩
    simp [Expr.bare, bare, Token.bare_eq_of_look same]

theorem comesBack_token {text : List Char} {look : TokenKind × String} {value : Expr}
    (begins : ∃ c others, text = c :: others ∧ c ≠ '=')
    (scanned : ∀ rest, Detached rest → ScansAs text [look] rest)
    (derives : ∀ token, token.look = look → ∃ read, Derives 7 [token] read ∧ read.bare = value.bare) :
    ComesBack 7 text value := by
  refine ⟨begins, [look], scanned, ?_⟩
  intro tokens looked
  obtain ⟨token, rfl, same⟩ := List.map_eq_singleton_iff.mp looked
  exact derives token same

theorem comesBack_literal {text : List Char} {value : Value} {lexeme : String}
    (begins : ∃ c others, text = c :: others ∧ c ≠ '=')
    (scanned : ∀ rest, Detached rest → ScansAs text [(literalKind value, lexeme)] rest) :
    ComesBack 7 text (.literal value) := by
  refine comesBack_token begins scanned ?_
  intro token same
  exact ⟨.literal value, .literal (congrArg Prod.fst same), rfl⟩

theorem comesBack_value {value : Value} (alike : (Expr.literal value).writtenAlike = true)
    (inRange : ∀ int, value = .int int → ∃ n : Nat, int = n ∧ n ≤ largestInteger) :
    ComesBack 7 value.lower.render.toList (.literal value) := by
  cases value with
  | nil | double _ => contradiction
  | int int =>
    obtain ⟨n, rfl, small⟩ := inRange int rfl
    obtain ⟨digit, others, spelled, isDigit, -⟩ := Text.digits_eq_cons n
    have text : (Value.lower (.int n)).render.toList = Text.digits n := String.toList_ofList
    rw [text]
    refine comesBack_literal ⟨digit, others, spelled, ?_⟩ fun rest detached => scansAs_integer small detached
    rintro rfl
    contradiction
  | string string =>
    have text : (Value.lower (.string string)).render.toList = Text.quote string.toList :=
      String.toList_ofList
    have scanned := scansAs_quote string.toList
    rw [String.ofList_toList] at scanned
    rw [text]
    exact comesBack_literal ⟨'"', _, rfl, by simp⟩ fun rest _ => scanned rest
  | bool bool =>
    cases bool with
    | true => exact comesBack_literal ⟨'t', _, rfl, by simp⟩ fun rest => scansAs_word rfl (List.all_eq_true.mp rfl)
    | false => exact comesBack_literal ⟨'f', _, rfl, by simp⟩ fun rest => scansAs_word rfl (List.all_eq_true.mp rfl)

theorem comesBack_name {name : Token} (named : IsName name) (faithful : name.Faithful) :
    ComesBack 7 name.lexeme.text.toList (.variable name) := by
  obtain ⟨text, kind⟩ := named
  simp only [Token.Faithful, kind] at faithful
  obtain ⟨lexeme, notKeyword, c, others, spelled, begins, inside⟩ := faithful
  -- The name is scanned as a word again, and as no keyword, since it was none before.
  have look : name.look = (wordKind (c :: others), String.ofList (c :: others)) := by
    rw [Token.look, kind, lexeme, wordKind, ← spelled, notKeyword, String.ofList_toList]
  rw [lexeme, spelled]
  refine comesBack_token ⟨c, others, rfl, ?_⟩ (fun rest => scansAs_word begins inside) ?_
  · rintro rfl
    contradiction
  · intro token same
    have sameLook : token.look = name.look := same.trans look.symm
    have sameKind : token.kind = name.kind := congrArg Prod.fst sameLook
    refine ⟨.variable token, .name ⟨text, sameKind.trans kind⟩, ?_⟩
    simp [Expr.bare, Token.bare_eq_of_look sameLook]

/-! ## Lowering -/

/-- A token between operands is lowered to the operator that is written as it. -/
theorem binaryOp_of_tier {operator : Token} {tier : Nat} (found : binaryTier? operator.kind = some tier) :
    ∃ mark lowered, operator.kind = .mark mark ∧ operator.binaryOp = .ok lowered ∧
      lowered.symbol.toList = mark.spelling := by
  unfold binaryTier? at found
  split at found
  case h_12 => contradiction
  all_goals next kind => exact ⟨_, _, kind, by simp only [Token.binaryOp, kind]; rfl, rfl⟩

theorem prefixOp_of_sign {operator : Token} (sign : IsSign operator.kind) :
    ∃ mark lowered, operator.kind = .mark mark ∧ operator.prefixOp = .ok lowered ∧
      lowered.symbol.toList = mark.spelling := by
  cases sign with
  | inl kind => exact ⟨.bang, .not, kind, by simp only [Token.prefixOp, kind]; rfl, rfl⟩
  | inr kind => exact ⟨.minus, .neg, kind, by simp only [Token.prefixOp, kind]; rfl, rfl⟩

/-- Every expression of the grammar is lowered, and the text of what it is lowered to comes back as the
    expression, at the tier of the expression. -/
theorem Grammar.Derives.comesBack {tier : Nat} {tokens : List Token} {value : Expr}
    (derived : Derives tier tokens value) (faithful : ∀ token ∈ tokens, token.Faithful)
    (alike : value.writtenAlike = true) :
    ∃ lowered, value.lower = .ok lowered ∧ ComesBack tier lowered.render.toList value := by
  induction derived with
  | tighter _ inductionHypothesis =>
    obtain ⟨lowered, given, back⟩ := inductionHypothesis faithful alike
    exact ⟨lowered, given, back.loosen (Nat.le_succ _)⟩
  | @binary tier operator _ _ _ _ found _ _ leftHypothesis rightHypothesis =>
    simp only [Expr.writtenAlike, Bool.and_eq_true] at alike
    obtain ⟨left, leftLowered, backLeft⟩ :=
      leftHypothesis (fun token member => faithful token (by simp [member])) alike.1
    obtain ⟨right, rightLowered, backRight⟩ :=
      rightHypothesis (fun token member => faithful token (by simp [member])) alike.2
    obtain ⟨mark, lowered, kind, given, symbol⟩ := binaryOp_of_tier found
    have lexeme : operator.lexeme.text = String.ofList mark.spelling := by
      simpa [Token.Faithful, kind] using faithful operator (by simp)
    have bounds := binaryTier?_bounds found
    refine ⟨.binary lowered left right, by rw [Expr.lower, given, leftLowered, rightLowered]; rfl, ?_⟩
    -- Whether the renderer asks for parentheses does not matter.
    have back := comesBack_binary kind lexeme found
      (backLeft.parenthesizeIf bounds.1 (by omega) (left.precedence < lowered.precedence))
      (backRight.parenthesizeIf (by omega) (by omega) (right.precedence ≤ lowered.precedence))
    simpa [Host.Expr.render, symbol] using back
  | @unary operator _ _ sign _ inductionHypothesis =>
    obtain ⟨right, rightLowered, back⟩ :=
      inductionHypothesis (fun token member => faithful token (by simp [member])) alike
    obtain ⟨mark, lowered, kind, given, symbol⟩ := prefixOp_of_sign sign
    have lexeme : operator.lexeme.text = String.ofList mark.spelling := by
      simpa [Token.Faithful, kind] using faithful operator (by simp)
    refine ⟨.prefixed lowered right, by rw [Expr.lower, given, rightLowered]; rfl, ?_⟩
    have back := comesBack_unary kind lexeme sign (back.parenthesizeIf (by omega) (by omega)
      (right.precedence < Host.prefixPrecedence || Host.beginsWith right.render lowered.symbol))
    simpa [Host.Expr.render, symbol] using back
  | @literal token value kind =>
    refine ⟨.literal value.lower, rfl, comesBack_value alike ?_⟩
    rintro int rfl
    have inRange := faithful token (by simp)
    rw [Token.Faithful, kind] at inRange
    exact inRange
  | @name name named =>
    exact ⟨.name name.lexeme.text, rfl, comesBack_name named (faithful name (by simp))⟩
  | grouping _ _ _ inductionHypothesis =>
    obtain ⟨inner, innerLowered, back⟩ :=
      inductionHypothesis (fun token member => faithful token (by simp [member])) alike
    refine ⟨.parenthesized inner, by rw [Expr.lower, innerLowered]; rfl, ?_⟩
    simpa [Host.Expr.render] using comesBack_grouping back

theorem parse_expression {tokens : List Token} {value : Expr} {ending stop : Token}
    (derived : Derives 1 tokens value) (ended : ending.kind = .mark .semicolon)
    (ends : stop.kind = .finish) :
    OnlyBinding (parse (tokens ++ [ending] ++ [stop])).reports ∧
      ∃ origin, (parse (tokens ++ [ending] ++ [stop])).statements = [⟨.expression value, origin⟩] := by
  obtain ⟨first, others, rfl, -⟩ := derived.head
  obtain ⟨keepsTiers, written⟩ := derives_iff.mp derived
  have flattens : FlattensProgram [⟨.expression value, first.origin⟩] (first :: others ++ [ending]) := by
    simpa using FlattensProgram.cons (.expression written ended) rfl .nil
  have stratified : ∀ statement ∈ [(⟨.expression value, first.origin⟩ : Stmt)],
      StratifiedAction statement.action := by
    intro statement member
    obtain rfl := List.mem_singleton.mp member
    exact keepsTiers
  obtain ⟨statements, binding⟩ := parse_flattensProgram stratified flattens ends
  exact ⟨binding, first.origin, statements⟩

/-- A text that comes back is a statement when a semicolon ends it. -/
theorem ComesBack.parse_scan {text : String} {value : Expr} (back : ComesBack 1 text.toList value)
    (source : Source) :
    let scanned := scan source (text ++ ";")
    scanned.errors = [] ∧ OnlyBinding (parse scanned.tokens).reports ∧
      ∃ read origin, (parse scanned.tokens).statements = [⟨.expression read, origin⟩] ∧
        read.bare = value.bare := by
  obtain ⟨-, looks, scanned, derives⟩ := back
  have semicolon : ScansAs [';'] [(.mark .semicolon, ";")] [] := scansAs_mark .semicolon (.inr trivial)
  have whole := (scanned ([';'] ++ []) (detached_cons (by decide) (by decide))).append semicolon
  obtain ⟨tokens, looked, tokensFound, errorsFound⟩ := whole source .start
  have spelled : (text ++ ";").toList = text.toList ++ [';'] ++ [] := by simp
  -- The tokens of the whole text are those of the expression, the semicolon and the end mark.
  let stop := endToken source (Position.start.advance (text ++ ";").toList)
  have scannedTokens : (scan source (text ++ ";")).tokens = tokens ++ [stop] := by
    show tokensFrom source .start (text ++ ";").toList ++ [stop] = _
    rw [spelled, tokensFound]
    simp [tokensFrom, pieces, piecesAfter, located]
  have scannedErrors : (scan source (text ++ ";")).errors = [] := by
    show errorsFrom source .start (text ++ ";").toList = _
    rw [spelled, errorsFound]
    rfl
  obtain ⟨valueTokens, _, rfl, lookedValue, lookedEnd⟩ := List.map_eq_append_iff.mp looked
  obtain ⟨ending, rfl, same⟩ := List.map_eq_singleton_iff.mp lookedEnd
  obtain ⟨read, derived, bare⟩ := derives valueTokens lookedValue
  obtain ⟨binding, origin, statements⟩ := parse_expression derived (congrArg Prod.fst same) (rfl : stop.kind = _)
  simp only [scannedTokens, scannedErrors]
  exact ⟨trivial, binding, read, origin, statements, bare⟩

/-- An expression inside a parsed statement is lowered, and the text of what it is lowered to is
    scanned without a fault and parsed, without a token that does not fit, as one statement that is the
    same expression up to groupings and the places of its tokens. -/
theorem parse_scan_render (source : Source) (text : String) {statement : Stmt}
    (parsed : statement ∈ (parse (scan source text).tokens).statements) {value : Expr}
    (inside : value ∈ statement.action.parts) (alike : value.writtenAlike = true) (again : Source) :
    ∃ lowered, value.lower = .ok lowered ∧
      let scanned := scan again (lowered.render ++ ";")
      scanned.errors = [] ∧ OnlyBinding (parse scanned.tokens).reports ∧
        ∃ read origin, (parse scanned.tokens).statements = [⟨.expression read, origin⟩] ∧
          read.bare = value.bare := by
  have nonempty : (scan source text).tokens ≠ [] := by simp [scan]
  cases spells_of_mem_parse nonempty parsed with
  | inl blank => simp [blank, Action.parts] at inside
  | inr found =>
    obtain ⟨spelling, within, spelled⟩ := found
    obtain ⟨partTokens, withinSpelling, derived⟩ := spelled.part inside
    have faithful : ∀ token ∈ partTokens, token.Faithful := fun token member =>
      scan_faithful source text token (within token (withinSpelling token member))
    obtain ⟨lowered, given, back⟩ := derived.comesBack faithful alike
    exact ⟨lowered, given, back.parse_scan again⟩

/-- Here the tables of binding strengths disagree: `print - -a * 7 % b;` becomes `-(-a) * (7 % b)`. -/
theorem parse_scan_render_sample :
    let source : Source := ⟨"script", 1⟩
    let token (kind : TokenKind) (text : String) : Token := ⟨kind, Symbol.of 1 text, "script", 1⟩
    let minus := token (.mark .minus) "-"
    let value : Expr :=
      .binary (.unary minus (.unary minus (.variable (token (.identifier "a") "a"))))
        (token (.mark .star) "*")
        (.binary (.literal (.int 7)) (token (.mark .percent) "%") (.variable (token (.identifier "b") "b")))
    let statement : Stmt := ⟨.print value, ⟨"script", 1⟩⟩
    statement ∈ (parse (scan source "print - -a * 7 % b;").tokens).statements ∧
      value ∈ statement.action.parts ∧ value.writtenAlike = true ∧
      ∃ lowered, value.lower = .ok lowered ∧
        let scanned := scan source (lowered.render ++ ";")
        scanned.errors = [] ∧ OnlyBinding (parse scanned.tokens).reports ∧
          ∃ read origin, (parse scanned.tokens).statements = [⟨.expression read, origin⟩] ∧
            read.bare = value.bare := by
  intro source token minus value statement
  have parsed : statement ∈ (parse (scan source "print - -a * 7 % b;").tokens).statements := by
    decide +kernel
  have inside : value ∈ statement.action.parts := List.mem_cons_self
  have alike : value.writtenAlike = true := rfl
  exact ⟨parsed, inside, alike, parse_scan_render source _ parsed inside alike source⟩

end ScriptFrontend
