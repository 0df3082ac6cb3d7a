import ScriptFrontend.Proofs.Rescanning
import ScriptFrontend.Proofs.RoundTrip
import ScriptFrontend.Tree.Printer

/-! # Tree text tells expressions apart

Expressions of scripts have the same tree text exactly if they are the same, the places of their tokens
aside (`render_eq_iff_unplaced_eq`).  They must have no string, which is written without quotation marks,
and no float, which may be written like an integer.

An expression is written as a word or between brackets.  A word ends where its characters do.  Between
brackets there is a heading up to the first space, and then operands with a space before each.  Nothing
counts the operands or says where one ends, and `-` heads one of them or two.  What the induction carries is
therefore that a text shows both the expression it begins with and what is left of it (`Unmistakable`), so
that operands can be taken off one by one until the closing bracket is left.
-/

namespace ScriptFrontend

open Grammar

/-! ## Expressions up to places -/

/-- An expression with its tokens reduced to their kinds and texts.  Unlike `Expr.bare`, it keeps its
    groupings. -/
def Expr.unplaced : Expr → Expr
  | .binary left operator right => .binary left.unplaced operator.bare right.unplaced
  | .grouping inner => .grouping inner.unplaced
  | .literal value => .literal value
  | .unary operator right => .unary operator.bare right.unplaced
  | .variable name => .variable name.bare

/-- Whether tree text shows the literals of an expression as what they are: it has no string and no
    float. -/
def Expr.plainlyShown : Expr → Bool
  | .literal (.string _) | .literal (.double _) => false
  | .literal _ | .variable _ => true
  | .binary left _ right => left.plainlyShown && right.plainlyShown
  | .grouping inner => inner.plainlyShown
  | .unary _ right => right.plainlyShown

/-- Tree text does not show places. -/
theorem Expr.render_unplaced (value : Expr) : value.unplaced.render = value.render := by
  induction value with
  | binary left operator right leftHypothesis rightHypothesis =>
    simp only [unplaced, render, leftHypothesis, rightHypothesis, Token.bare, Symbol.text_of]
  | grouping inner inductionHypothesis => simp only [unplaced, render, inductionHypothesis]
  | literal value => rfl
  | unary operator right inductionHypothesis =>
    simp only [unplaced, render, inductionHypothesis, Token.bare, Symbol.text_of]
  | «variable» name => rfl

/-! ## Words and brackets -/

/-- What stands between an opening bracket and the first space; a word has no such thing. -/
def Expr.heading : Expr → List Char
  | .binary _ operator _ | .unary operator _ => operator.lexeme.text.toList
  | .grouping _ => ['g', 'r', 'o', 'u', 'p']
  | .literal _ | .variable _ => []

/-- What is written between brackets after the heading.  Words are the expressions that have none. -/
def Expr.operands : Expr → List Expr
  | .binary left _ right => [left, right]
  | .unary _ right => [right]
  | .grouping inner => [inner]
  | .literal _ | .variable _ => []

def operandsText (operands : List Expr) : List Char :=
  operands.flatMap fun operand => ' ' :: operand.render.toList

theorem Expr.toList_render {value : Expr} (bracketed : value.operands ≠ []) :
    value.render.toList = '(' :: (value.heading ++ (operandsText value.operands ++ [')'])) := by
  cases value with
  | binary left operator right => simp [render, heading, operands, operandsText]
  | grouping inner => simp [render, heading, operands, operandsText]
  | unary operator right => simp [render, heading, operands, operandsText]
  | literal _ | «variable» _ => exact absurd rfl bracketed

/-- A mark that is spelled as its kind, as marks of scripts are. -/
def Token.IsMark (token : Token) (mark : Mark) : Prop :=
  token.look = (.mark mark, String.ofList mark.spelling)

/-- A word in tree text: in a script it would be one token, of this kind. -/
structure ShowsKind (text : String) (kind : TokenKind) : Prop where
  nonempty : text.toList ≠ []
  inside : ∀ c ∈ text.toList, inWord c = true
  scanned : ScansAs text.toList [(kind, text)] []

theorem ShowsKind.unique {text otherText : String} {kind other : TokenKind} (shows : ShowsKind text kind)
    (otherShows : ShowsKind otherText other) (same : text = otherText) : kind = other := by
  subst same
  simpa using shows.scanned.unique otherShows.scanned

/-- The expressions that tree text shows as they are: operators are spelled as their kinds, and words show
    theirs. -/
inductive Legible : Expr → Prop where
  | binary {left right : Expr} {operator : Token} {mark : Mark} :
      operator.IsMark mark → Legible left → Legible right → Legible (.binary left operator right)
  | unary {right : Expr} {operator : Token} {mark : Mark} :
      operator.IsMark mark → Legible right → Legible (.unary operator right)
  | grouping {inner : Expr} : Legible inner → Legible (.grouping inner)
  | literal {value : Value} : ShowsKind value.render (literalKind value) → Legible (.literal value)
  | name {name : Token} : IsName name → ShowsKind name.lexeme.text name.kind → Legible (.variable name)

/-! ## Scripts are legible -/

theorem showsKind_word {c : Char} {others : List Char} (begins : beginsWord c = true)
    (inside : ∀ d ∈ others, inWord d = true) :
    ShowsKind (String.ofList (c :: others)) (wordKind (c :: others)) := by
  refine ⟨by simp, ?_, ?_⟩
  · simpa [inWord_of_beginsWord begins] using inside
  · simpa using scansAs_word begins inside detached_nil

theorem showsKind_integer {n : Nat} (small : n ≤ largestInteger) :
    ShowsKind (String.ofList (Text.digits n)) (.integer n) := by
  obtain ⟨digit, others, spelled, -⟩ := Text.digits_eq_cons n
  refine ⟨by simp [spelled], ?_, ?_⟩
  · intro c member
    exact inWord_of_isDigit (Text.isDigit_of_mem_digits (by simpa using member))
  · simpa using scansAs_integer small detached_nil

theorem showsKind_value {value : Value} (plain : (Expr.literal value).plainlyShown = true)
    (inRange : ∀ int, value = .int int → ∃ n : Nat, int = n ∧ n ≤ largestInteger) :
    ShowsKind value.render (literalKind value) := by
  cases value with
  | double _ | string _ => cases plain
  | nil => exact showsKind_word rfl (List.all_eq_true.mp rfl)
  | int int =>
    obtain ⟨n, rfl, small⟩ := inRange int rfl
    exact showsKind_integer small
  | bool bool => cases bool <;> exact showsKind_word rfl (List.all_eq_true.mp rfl)

theorem showsKind_name {name : Token} (named : IsName name) (faithful : name.Faithful) :
    ShowsKind name.lexeme.text name.kind := by
  obtain ⟨text, kind⟩ := named
  simp only [Token.Faithful, kind] at faithful
  obtain ⟨lexeme, notKeyword, c, others, spelled, begins, inside⟩ := faithful
  have shows := showsKind_word begins inside
  rw [wordKind, ← spelled, notKeyword, String.ofList_toList] at shows
  rw [lexeme, kind]
  exact shows

theorem isMark_of_faithful {token : Token} {mark : Mark} (kind : token.kind = .mark mark)
    (faithful : token.Faithful) : token.IsMark mark := by
  simp only [Token.Faithful, kind] at faithful
  rw [Token.IsMark, Token.look, kind, faithful]

theorem Grammar.Derives.legible {tier : Nat} {tokens : List Token} {value : Expr}
    (derived : Derives tier tokens value) (faithful : ∀ token ∈ tokens, token.Faithful)
    (plain : value.plainlyShown = true) : Legible value := by
  induction derived with
  | tighter _ inductionHypothesis => exact inductionHypothesis faithful plain
  | @binary _ operator _ _ _ _ found _ _ leftHypothesis rightHypothesis =>
    simp only [Expr.plainlyShown, Bool.and_eq_true] at plain
    obtain ⟨mark, -, kind, -⟩ := binaryOp_of_tier found
    apply Legible.binary (isMark_of_faithful kind (faithful operator (by simp)))
    · exact leftHypothesis (fun token member => faithful token (by simp [member])) plain.1
    · exact rightHypothesis (fun token member => faithful token (by simp [member])) plain.2
  | @unary operator _ _ sign _ inductionHypothesis =>
    obtain ⟨mark, -, kind, -⟩ := prefixOp_of_sign sign
    apply Legible.unary (isMark_of_faithful kind (faithful operator (by simp)))
    exact inductionHypothesis (fun token member => faithful token (by simp [member])) plain
  | @literal token value kind =>
    refine .literal (showsKind_value plain ?_)
    rintro int rfl
    have inRange := faithful token (by simp)
    rw [Token.Faithful, kind] at inRange
    exact inRange
  | name named => exact .name named (showsKind_name named (faithful _ (by simp)))
  | grouping _ _ _ inductionHypothesis =>
    exact .grouping (inductionHypothesis (fun token member => faithful token (by simp [member])) plain)

theorem legible_of_mem_parse {source : Source} {text : String} {statement : Stmt}
    (parsed : statement ∈ (parse (scan source text).tokens).statements) {value : Expr}
    (inside : value ∈ statement.action.parts) (plain : value.plainlyShown = true) : Legible value := by
  cases spells_of_mem_parse (by simp [scan]) parsed with
  | inl blank => simp [blank, Action.parts] at inside
  | inr found =>
    obtain ⟨spelling, within, spelled⟩ := found
    obtain ⟨partTokens, withinSpelling, derived⟩ := spelled.part inside
    apply derived.legible _ plain
    intro token member
    exact scan_faithful source text token (within token (withinSpelling token member))

/-! ## What a text begins with -/

theorem Legible.operand {value operand : Expr} (legible : Legible value) (member : operand ∈ value.operands) :
    Legible operand := by
  cases legible with
  | binary _ left right =>
    simp only [Expr.operands, List.mem_cons, List.not_mem_nil, or_false] at member
    rcases member with rfl | rfl
    · exact left
    · exact right
  | unary _ right => exact List.mem_singleton.mp member ▸ right
  | grouping inner => exact List.mem_singleton.mp member ▸ inner
  | literal _ | name _ _ => cases member

theorem Legible.showsKind {value : Expr} (legible : Legible value) (word : value.operands = []) :
    ∃ kind, ShowsKind value.render kind := by
  cases legible with
  | binary _ _ _ | unary _ _ | grouping _ => cases word
  | literal shows => exact ⟨_, shows⟩
  | name _ shows => exact ⟨_, shows⟩

theorem Token.IsMark.toList_text {token : Token} {mark : Mark} (marked : token.IsMark mark) :
    token.lexeme.text.toList = mark.spelling := by
  rw [show token.lexeme.text = _ from congrArg Prod.snd marked, String.toList_ofList]

theorem Token.IsMark.ne_space {token : Token} {mark : Mark} (marked : token.IsMark mark) :
    ∀ c ∈ token.lexeme.text.toList, (c != ' ') = true := by
  intro c member
  rw [marked.toList_text] at member
  rw [bne_iff_ne]
  rintro rfl
  exact space_notMem_spelling mark member

theorem Legible.heading_ne_space {value : Expr} (legible : Legible value) :
    ∀ c ∈ value.heading, (c != ' ') = true := by
  cases legible with
  | binary marked _ _ => exact marked.ne_space
  | unary marked _ => exact marked.ne_space
  | grouping _ => exact List.all_eq_true.mp rfl
  | literal _ | name _ _ =>
    intro c member
    cases member

/-- No word begins with a bracket. -/
theorem Legible.word_ne_bracketed {word bracketed : Expr} (legible : Legible word) (noOperands : word.operands = [])
    (operands : bracketed.operands ≠ []) (rest otherRest : List Char) :
    word.render.toList ++ rest ≠ bracketed.render.toList ++ otherRest := by
  intro same
  obtain ⟨kind, shows⟩ := legible.showsKind noOperands
  obtain ⟨c, others, spelled⟩ := List.exists_cons_of_ne_nil shows.nonempty
  have begins := shows.inside c (by simp [spelled])
  rw [spelled, Expr.toList_render operands] at same
  obtain ⟨rfl, -⟩ := List.cons.inj same
  cases begins

theorem space_before_operands {operands : List Expr} (nonempty : operands ≠ []) (rest : List Char) :
    ∀ c ∈ (operandsText operands ++ rest).head?, (c != ' ') = false := by
  cases operands with
  | nil => exact absurd rfl nonempty
  | cons operand others =>
    intro c head
    cases head
    rfl

theorem detached_operandsText (operands : List Expr) (rest : List Char) :
    Detached (operandsText operands ++ ')' :: rest) := by
  cases operands with
  | nil => exact detached_closing rest
  | cons operand others => exact detached_space _

/-! ## Telling expressions apart -/

theorem Grammar.literalKind_injective : Function.Injective literalKind := by
  intro value other same
  rcases value with _ | _ | _ | _ | (_ | _) <;> rcases other with _ | _ | _ | _ | (_ | _) <;>
    simp_all [literalKind]

theorem Grammar.literalKind_ne_kind {value : Value} {name : Token} (named : IsName name) :
    literalKind value ≠ name.kind := by
  obtain ⟨text, kind⟩ := named
  rw [kind]
  rcases value with _ | _ | _ | _ | (_ | _) <;> simp [literalKind]

/-- Words are told apart by their kinds, which they show. -/
theorem Legible.word_eq {value other : Expr} (legible : Legible value) (otherLegible : Legible other)
    (word : value.operands = []) (otherWord : other.operands = []) (same : value.render = other.render) :
    value.unplaced = other.unplaced := by
  cases legible with
  | binary _ _ _ | unary _ _ | grouping _ => cases word
  | literal shows =>
    cases otherLegible with
    | binary _ _ _ | unary _ _ | grouping _ => cases otherWord
    | literal otherShows => rw [literalKind_injective (shows.unique otherShows same)]
    | name named otherShows => exact absurd (shows.unique otherShows same) (literalKind_ne_kind named)
  | @name name named shows =>
    cases otherLegible with
    | binary _ _ _ | unary _ _ | grouping _ => cases otherWord
    | literal otherShows => exact absurd (otherShows.unique shows same.symm) (literalKind_ne_kind named)
    | @name other _ otherShows =>
      have looks : name.look = other.look := Prod.ext (shows.unique otherShows same) same
      rw [Expr.unplaced, Expr.unplaced, Token.bare_eq_of_look looks]

theorem Mark.spelling_injective : Function.Injective Mark.spelling := by
  have scanned : ∀ mark : Mark, ScansAs mark.spelling [(.mark mark, String.ofList mark.spelling)] [] := by
    intro mark
    apply scansAs_mark mark
    cases mark <;> simp [StandsAlone]
  intro mark other same
  have looks := (scanned mark).unique (same ▸ scanned other)
  simpa using congrArg (List.map Prod.fst) looks

theorem Token.IsMark.look_eq {token other : Token} {mark otherMark : Mark} (marked : token.IsMark mark)
    (otherMarked : other.IsMark otherMark) (same : token.lexeme.text.toList = other.lexeme.text.toList) :
    token.look = other.look := by
  rw [marked.toList_text, otherMarked.toList_text] at same
  rw [marked, otherMarked, Mark.spelling_injective same]

/-- No operator is written like the heading of a grouping. -/
theorem Token.IsMark.ne_group {token : Token} {mark : Mark} (marked : token.IsMark mark) (inner : Expr) :
    token.lexeme.text.toList ≠ (Expr.grouping inner).heading := by
  rw [marked.toList_text]
  cases mark <;> simp [Mark.spelling, Expr.heading]

/-- Between brackets, headings and operands tell expressions apart. -/
theorem Legible.bracketed_eq {value other : Expr} (legible : Legible value) (otherLegible : Legible other)
    (bracketed : value.operands ≠ []) (headings : value.heading = other.heading)
    (operands : value.operands.map Expr.unplaced = other.operands.map Expr.unplaced) :
    value.unplaced = other.unplaced := by
  -- Two operands make it a binary operator, and a single one has a sign or a grouping before it.
  cases legible with
  | literal _ | name _ _ => exact absurd rfl bracketed
  | binary marked _ _ =>
    cases otherLegible with
    | unary _ _ | grouping _ | literal _ | name _ _ => simp [Expr.operands] at operands
    | binary otherMarked _ _ =>
      simp only [Expr.operands, List.map_cons, List.map_nil, List.cons.injEq, and_true] at operands
      have looks := marked.look_eq otherMarked headings
      rw [Expr.unplaced, Expr.unplaced, operands.1, operands.2, Token.bare_eq_of_look looks]
  | unary marked _ =>
    cases otherLegible with
    | binary _ _ _ | literal _ | name _ _ => simp [Expr.operands] at operands
    | @grouping inner _ => exact absurd headings (marked.ne_group inner)
    | unary otherMarked _ =>
      simp only [Expr.operands, List.map_cons, List.map_nil, List.cons.injEq, and_true] at operands
      have looks := marked.look_eq otherMarked headings
      rw [Expr.unplaced, Expr.unplaced, operands, Token.bare_eq_of_look looks]
  | @grouping inner _ =>
    cases otherLegible with
    | binary _ _ _ | literal _ | name _ _ => simp [Expr.operands] at operands
    | unary marked _ => exact absurd headings.symm (marked.ne_group inner)
    | grouping _ =>
      simp only [Expr.operands, List.map_cons, List.map_nil, List.cons.injEq, and_true] at operands
      rw [Expr.unplaced, Expr.unplaced, operands]

/-- What it means that an expression is told from its text: whatever follows, another expression with which
    the text begins is the same, and what is left is the same. -/
def Unmistakable (value : Expr) : Prop :=
  ∀ other, Legible other → ∀ rest otherRest, Detached rest → Detached otherRest →
    value.render.toList ++ rest = other.render.toList ++ otherRest →
      value.unplaced = other.unplaced ∧ rest = otherRest

/-- Operands are taken off one by one, until a bracket closes them on both sides. -/
theorem operands_unmistakable {operands others : List Expr} (told : ∀ operand ∈ operands, Unmistakable operand)
    (legible : ∀ other ∈ others, Legible other) {rest otherRest : List Char}
    (same : operandsText operands ++ ')' :: rest = operandsText others ++ ')' :: otherRest) :
    operands.map Expr.unplaced = others.map Expr.unplaced ∧ rest = otherRest := by
  induction operands generalizing others with
  | nil =>
    cases others with
    | nil => exact ⟨rfl, (List.cons.inj same).2⟩
    | cons other others => simp [operandsText] at same
  | cons operand operands inductionHypothesis =>
    cases others with
    | nil => simp [operandsText] at same
    | cons other others =>
      obtain ⟨toldFirst, toldRest⟩ := List.forall_mem_cons.mp told
      obtain ⟨legibleFirst, legibleRest⟩ := List.forall_mem_cons.mp legible
      simp only [operandsText, List.flatMap_cons, List.cons_append, List.append_assoc, List.cons.injEq,
        true_and] at same
      obtain ⟨first, left⟩ := toldFirst other legibleFirst _ _ (detached_operandsText operands rest)
        (detached_operandsText others otherRest) same
      obtain ⟨later, remains⟩ := inductionHypothesis toldRest legibleRest left
      exact ⟨by rw [List.map_cons, List.map_cons, first, later], remains⟩

theorem unmistakable_of_operands {value : Expr} (legible : Legible value)
    (told : ∀ operand ∈ value.operands, Unmistakable operand) : Unmistakable value := by
  intro other otherLegible rest otherRest detached otherDetached same
  by_cases word : value.operands = []
  · by_cases otherWord : other.operands = []
    · obtain ⟨_, shows⟩ := legible.showsKind word
      obtain ⟨_, otherShows⟩ := otherLegible.showsKind otherWord
      obtain ⟨text, left⟩ :=
        run_append_inj shows.inside detached.endsWord otherShows.inside otherDetached.endsWord same
      exact ⟨legible.word_eq otherLegible word otherWord (String.toList_inj.mp text), left⟩
    · exact absurd same (legible.word_ne_bracketed word otherWord rest otherRest)
  · by_cases otherWord : other.operands = []
    · exact absurd same.symm (otherLegible.word_ne_bracketed otherWord word otherRest rest)
    · rw [Expr.toList_render word, Expr.toList_render otherWord] at same
      simp only [List.cons_append, List.append_assoc, List.cons.injEq, true_and] at same
      obtain ⟨headings, left⟩ := run_append_inj legible.heading_ne_space (space_before_operands word _)
        otherLegible.heading_ne_space (space_before_operands otherWord _) same
      obtain ⟨operands, remains⟩ := operands_unmistakable told (fun _ => otherLegible.operand) left
      exact ⟨legible.bracketed_eq otherLegible word headings operands, remains⟩

theorem Legible.unmistakable {value : Expr} (legible : Legible value) : Unmistakable value := by
  induction legible with
  | binary marked left right leftHypothesis rightHypothesis =>
    apply unmistakable_of_operands (.binary marked left right)
    exact List.forall_mem_cons.mpr ⟨leftHypothesis, List.forall_mem_singleton.mpr rightHypothesis⟩
  | unary marked right inductionHypothesis =>
    exact unmistakable_of_operands (.unary marked right) (List.forall_mem_singleton.mpr inductionHypothesis)
  | grouping inner inductionHypothesis =>
    exact unmistakable_of_operands (.grouping inner) (List.forall_mem_singleton.mpr inductionHypothesis)
  | literal shows => exact unmistakable_of_operands (.literal shows) (by simp [Expr.operands])
  | name named shows => exact unmistakable_of_operands (.name named shows) (by simp [Expr.operands])

/-- Two expressions inside parsed statements, of whatever scripts, have the same tree text exactly if they
    are the same up to the places and tables of their tokens, as long as they have no string and no float. -/
theorem render_eq_iff_unplaced_eq {source otherSource : Source} {text otherText : String}
    {statement otherStatement : Stmt} (parsed : statement ∈ (parse (scan source text).tokens).statements)
    (otherParsed : otherStatement ∈ (parse (scan otherSource otherText).tokens).statements)
    {value other : Expr} (inside : value ∈ statement.action.parts)
    (otherInside : other ∈ otherStatement.action.parts) (plain : value.plainlyShown = true)
    (otherPlain : other.plainlyShown = true) :
    value.render = other.render ↔ value.unplaced = other.unplaced := by
  constructor
  · intro same
    have legible := legible_of_mem_parse parsed inside plain
    have otherLegible := legible_of_mem_parse otherParsed otherInside otherPlain
    have texts : value.render.toList ++ [] = other.render.toList ++ [] := by rw [same]
    exact (legible.unmistakable other otherLegible [] [] detached_nil detached_nil texts).1
  · intro same
    rw [← value.render_unplaced, same, other.render_unplaced]

/-- A negation, a difference and a grouping, laid out differently in two scripts. -/
theorem render_eq_iff_unplaced_eq_sample :
    let source : Source := ⟨"first", 1⟩
    let otherSource : Source := ⟨"second", 2⟩
    let token (kind : TokenKind) (text : String) : Token := ⟨kind, Symbol.of 1 text, "first", 1⟩
    let otherToken (kind : TokenKind) (text : String) (line : Nat) : Token :=
      ⟨kind, Symbol.of 2 text, "second", line⟩
    let value : Expr :=
      .binary (.unary (token (.mark .minus) "-") (.variable (token (.identifier "a") "a")))
        (token (.mark .minus) "-")
        (.grouping (.binary (.literal (.int 7)) (token (.mark .percent) "%") (.literal .nil)))
    let other : Expr :=
      .binary (.unary (otherToken (.mark .minus) "-" 2) (.variable (otherToken (.identifier "a") "a" 2)))
        (otherToken (.mark .minus) "-" 2)
        (.grouping (.binary (.literal (.int 7)) (otherToken (.mark .percent) "%" 3) (.literal .nil)))
    let statement : Stmt := ⟨.print value, ⟨"first", 1⟩⟩
    let otherStatement : Stmt := ⟨.assign (otherToken (.identifier "b") "b" 2) other, ⟨"second", 2⟩⟩
    statement ∈ (parse (scan source "print - a - (7 % nil);").tokens).statements ∧
      otherStatement ∈ (parse (scan otherSource "1;\nb = -a-(007\n%nil);").tokens).statements ∧
      value ∈ statement.action.parts ∧ other ∈ otherStatement.action.parts ∧
      value.plainlyShown = true ∧ other.plainlyShown = true ∧
      (value.render = other.render ↔ value.unplaced = other.unplaced) := by
  intro source otherSource token otherToken value other statement otherStatement
  have parsed : statement ∈ (parse (scan source "print - a - (7 % nil);").tokens).statements := by
    decide +kernel
  have otherParsed : otherStatement ∈
      (parse (scan otherSource "1;\nb = -a-(007\n%nil);").tokens).statements := by
    decide +kernel
  have inside : value ∈ statement.action.parts := List.mem_cons_self
  have otherInside : other ∈ otherStatement.action.parts := List.mem_cons_self
  exact ⟨parsed, otherParsed, inside, otherInside, rfl, rfl,
    render_eq_iff_unplaced_eq parsed otherParsed inside otherInside rfl rfl⟩

end ScriptFrontend
