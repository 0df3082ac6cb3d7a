import ScriptFrontend.Proofs.InlineChecking
import ScriptFrontend.Proofs.LoweredStatements
import ScriptFrontend.Proofs.RoundTrip

/-! # Host programs are well scoped and well typed

Every host program that a script is lowered to declares each variable once, mentions only variables
that are declared before, and stores in a variable only what has its type, as far as that is a literal
or another variable (`emit_wellScoped`).  The host side is said without the script: `Host.WellScoped`
speaks of the statements of a routine alone.

What carries it over is that lowering is statement by statement, that the parser has checked each
statement against the types of those before it, and that in one source two names are the same symbol
when they are spelled alike.
-/

namespace ScriptFrontend

/-! ## Scoping of host programs -/

namespace Host

/-- The variable that a statement declares, with its type. -/
def Action.local? : Action → Option (String × Primitive)
  | .declare ty name _ => some (name, ty)
  | .expression _ | .empty => none

/-- The variables that statements declare, with their types, in order. -/
def locals (body : List Stmt) : List (String × Primitive) :=
  body.filterMap fun statement => statement.action.local?

mutual

/-- The expressions inside an expression, itself among them. -/
def Expr.parts : Expr → List Expr
  | .binary operator left right => .binary operator left right :: (left.parts ++ right.parts)
  | .parenthesized inner => .parenthesized inner :: inner.parts
  | .literal constant => [.literal constant]
  | .prefixed operator operand => .prefixed operator operand :: operand.parts
  | .name text => [.name text]
  | .assign target value => .assign target value :: value.parts
  | .invoke routine arguments => .invoke routine arguments :: argumentParts arguments

def argumentParts : List Expr → List Expr
  | [] => []
  | argument :: rest => argument.parts ++ argumentParts rest

end

def Action.parts : Action → List Expr
  | .declare _ _ (some value) | .expression value => value.parts
  | .declare _ _ none | .empty => []

def Constant.type? : Constant → Option Primitive
  | .null => none
  | .int _ => some .int64
  | .float _ => some .float64
  | .string _ => some .string
  | .bool _ => some .bool

/-- The expressions whose type can be read off: a literal other than `null`, or a declared variable. -/
inductive BareType (declared : List (String × Primitive)) : Expr → Primitive → Prop where
  | literal {constant : Constant} {ty : Primitive} :
      constant.type? = some ty → BareType declared (.literal constant) ty
  | name {text : String} {ty : Primitive} :
      (text, ty) ∈ declared → BareType declared (.name text) ty

/-- Whether an expression is a literal other than `null`, or a variable. -/
def Expr.IsBare : Expr → Prop
  | .literal constant => constant ≠ .null
  | .name _ => True
  | .binary .. | .parenthesized _ | .prefixed .. | .assign .. | .invoke .. => False

/-- What a statement may be after others have declared some variables. -/
structure Action.WellScoped (declared : List (String × Primitive)) (action : Action) : Prop where
  -- A variable that is mentioned is declared.
  name_declared : ∀ text, .name text ∈ action.parts → ∃ ty, (text, ty) ∈ declared
  -- An assignment is the whole statement, its target is declared, and its value has that type.
  assign_typed : ∀ target value, .assign target value ∈ action.parts →
    action = .expression (.assign target value) ∧
      ∃ ty, (target, ty) ∈ declared ∧ BareType declared value ty
  -- An initial value whose type can be read off has the type of the variable.
  initial_typed : ∀ ty name value, action = .declare ty name (some value) → value.IsBare →
    BareType declared value ty

/-- A routine in which every variable is declared once, and every statement fits those before it. -/
structure WellScoped (body : List Stmt) : Prop where
  distinct : ((locals body).map Prod.fst).Nodup
  statement : ∀ before statement after, body = before ++ statement :: after →
    statement.action.WellScoped (locals before)

/-- Variables are distinct if none is declared again. -/
theorem distinct_of_fresh {body : List Stmt}
    (fresh : ∀ before statement after, body = before ++ statement :: after →
      ∀ name ty, statement.action.local? = some (name, ty) → name ∉ (locals before).map Prod.fst) :
    ((locals body).map Prod.fst).Nodup := by
  -- The statements that are still to come shrink while those before them keep their names distinct.
  suffices distinct : ∀ rest before, body = before ++ rest → ((locals before).map Prod.fst).Nodup →
      ((locals body).map Prod.fst).Nodup from distinct body [] rfl .nil
  intro rest
  induction rest with
  | nil =>
    rintro before rfl soFar
    rwa [List.append_nil]
  | cons statement rest inductionHypothesis =>
    intro before split soFar
    refine inductionHypothesis (before ++ [statement]) (by simp [split]) ?_
    cases declared : statement.action.local? with
    | none => simpa [locals, declared] using soFar
    | some pair =>
      have added : (locals (before ++ [statement])).map Prod.fst =
          (locals before).map Prod.fst ++ [pair.1] := by
        simp [locals, declared]
      have new := fresh before statement rest split pair.1 pair.2 declared
      rw [added, List.nodup_append]
      refine ⟨soFar, by simp, ?_⟩
      intro name member other single same
      rw [List.mem_singleton.mp single] at same
      exact new (same ▸ member)

end Host

/-! ## Lowered expressions -/

/-- Every part of a lowered expression is what a part of the expression is lowered to. -/
theorem LowersExpr.exists_part {value : Expr} {lowered part : Host.Expr} (lowers : LowersExpr value lowered)
    (inside : part ∈ lowered.parts) : ∃ original ∈ value.parts, LowersExpr original part := by
  induction lowers with
  | binary sign left right leftHypothesis rightHypothesis =>
    simp only [Host.Expr.parts, List.mem_cons, List.mem_append] at inside
    rcases inside with rfl | inside | inside
    · exact ⟨_, .head _, .binary sign left right⟩
    · obtain ⟨original, there, found⟩ := leftHypothesis inside
      exact ⟨original, by simp [Expr.parts, there], found⟩
    · obtain ⟨original, there, found⟩ := rightHypothesis inside
      exact ⟨original, by simp [Expr.parts, there], found⟩
  | grouping inner inductionHypothesis =>
    cases inside with
    | head => exact ⟨_, .head _, .grouping inner⟩
    | tail _ inside =>
      obtain ⟨original, there, found⟩ := inductionHypothesis inside
      exact ⟨original, .tail _ there, found⟩
  | literal =>
    obtain rfl := List.mem_singleton.mp inside
    exact ⟨_, .head _, .literal⟩
  | unary sign operand inductionHypothesis =>
    cases inside with
    | head => exact ⟨_, .head _, .unary sign operand⟩
    | tail _ inside =>
      obtain ⟨original, there, found⟩ := inductionHypothesis inside
      exact ⟨original, .tail _ there, found⟩
  | name =>
    obtain rfl := List.mem_singleton.mp inside
    exact ⟨_, .head _, .name⟩

theorem Expr.mem_uses_of_mem_parts {value : Expr} {name : Token} (inside : .variable name ∈ value.parts) :
    name ∈ value.uses := by
  induction value with
  | binary left operator right leftHypothesis rightHypothesis =>
    simp only [Expr.parts, List.mem_cons, reduceCtorEq, List.mem_append, false_or] at inside
    exact List.mem_append.mpr (inside.imp leftHypothesis rightHypothesis)
  | grouping inner inductionHypothesis => exact inductionHypothesis (by simpa [Expr.parts] using inside)
  | literal value => simp [Expr.parts] at inside
  | unary operator right inductionHypothesis => exact inductionHypothesis (by simpa [Expr.parts] using inside)
  | «variable» other => simpa [Expr.parts, Expr.uses] using inside

/-- The names in a lowered expression are those of the expression. -/
theorem LowersExpr.exists_use {value : Expr} {lowered : Host.Expr} (lowers : LowersExpr value lowered)
    {text : String} (inside : .name text ∈ lowered.parts) : ∃ name ∈ value.uses, name.lexeme.text = text := by
  obtain ⟨original, there, found⟩ := lowers.exists_part inside
  cases found with
  | name => exact ⟨_, Expr.mem_uses_of_mem_parts there, rfl⟩

/-- Nothing in a lowered expression assigns. -/
theorem LowersExpr.assign_not_mem {value : Expr} {lowered : Host.Expr} (lowers : LowersExpr value lowered)
    {target : String} {assigned : Host.Expr} : .assign target assigned ∉ lowered.parts := by
  intro inside
  obtain ⟨original, -, found⟩ := lowers.exists_part inside
  cases found

/-! ## Types of variables -/

/-- A declaration is lowered to one of the same name, with the lowered type. -/
theorem local?_of_declare {statement : Stmt} {ty : Ty} {name : Token} {initial : Option Expr}
    (declares : statement.action = .declare ty name initial) {lowered : Host.Stmt}
    (given : statement.lower = .ok lowered) :
    ∃ primitive, ty.lower = .ok primitive ∧
      lowered.action.local? = some (name.lexeme.text, primitive) := by
  have lowers := Stmt.lowersAction given
  rw [declares] at lowers
  generalize lowered.action = action at lowers
  cases lowers with
  | declare found | initialized found _ => exact ⟨_, found, rfl⟩

/-- Only declarations are lowered to declarations. -/
theorem declare_of_local? {statement : Stmt} {lowered : Host.Stmt} (given : statement.lower = .ok lowered)
    {text : String} {primitive : Host.Primitive} (found : lowered.action.local? = some (text, primitive)) :
    ∃ ty name initial, statement.action = .declare ty name initial ∧ name.lexeme.text = text := by
  have lowers := Stmt.lowersAction given
  generalize statement.action = done, lowered.action = action at lowers found
  cases lowers with
  | declare _ | initialized _ _ =>
    cases found
    exact ⟨_, _, _, rfl, rfl⟩
  | expression _ | print _ | assign _ | blankLine => cases found

/-- A variable with a type has been lowered to one with the lowered type. -/
theorem Lowers.local_of_declared {statements : List Stmt} {body : List Host.Stmt}
    (lowers : Lowers statements body) {name : Symbol} {ty : Ty}
    (found : declaredType? statements name = some ty) :
    ∃ primitive, ty.lower = .ok primitive ∧ (name.text, primitive) ∈ Host.locals body := by
  obtain ⟨statement, member, declared, initial, declares, rfl⟩ := exists_of_declaredType? found
  obtain ⟨lowered, inside, given⟩ := exists_related lowers member
  obtain ⟨primitive, lowerTy, same⟩ := local?_of_declare declares given
  exact ⟨primitive, lowerTy, List.mem_filterMap.mpr ⟨lowered, inside, same⟩⟩

/-- A variable of the host program was declared under a name that is spelled alike. -/
theorem Lowers.declared_of_local {statements : List Stmt} {body : List Host.Stmt}
    (lowers : Lowers statements body) {text : String} {primitive : Host.Primitive}
    (found : (text, primitive) ∈ Host.locals body) :
    ∃ statement ∈ statements, ∃ ty name initial, statement.action = .declare ty name initial ∧
      name.lexeme.text = text := by
  obtain ⟨lowered, inside, same⟩ := List.mem_filterMap.mp found
  obtain ⟨statement, member, given⟩ := exists_related (List.Forall₂.flip lowers) inside
  exact ⟨statement, member, declare_of_local? given same⟩

/-! ## Checked statements -/

open Checker

theorem defined_of_undefined_eq_nil {types : Symbol → Option Ty} {names : List Token}
    (checked : undefined types names = []) {name : Token} (member : name ∈ names) :
    ∃ ty, types name.lexeme = some ty := by
  simp only [undefined, List.map_eq_nil_iff, List.filter_eq_nil_iff, Option.isNone_iff_eq_none] at checked
  exact Option.ne_none_iff_exists'.mp (checked name member)

theorem type?_lower {value : Value} {primitive : Host.Primitive} (lowered : value.ty.lower = .ok primitive) :
    value.lower.type? = some primitive := by
  cases value with
  | nil => contradiction
  | int _ | double _ | string _ | bool _ =>
    cases lowered
    rfl

variable {types : Symbol → Option Ty} {declared : List (String × Host.Primitive)}
  (agrees : ∀ {name ty}, types name = some ty →
    ∃ primitive, ty.lower = .ok primitive ∧ (name.text, primitive) ∈ declared)

include agrees

/-- A value of a known type is lowered to one whose type can be read off. -/
theorem bareType_of_knownType {value : Expr} {lowered : Host.Expr} (lowers : LowersExpr value lowered)
    {primitive : Host.Primitive} (known : (knownType types value).lower = .ok primitive) :
    Host.BareType declared lowered primitive := by
  cases lowers with
  | literal => exact .literal (type?_lower known)
  | @name name =>
    cases found : types name.lexeme with
    | none => simp [knownType, found, Ty.lower] at known
    | some ty =>
      obtain ⟨other, lowerTy, member⟩ := agrees found
      simp only [knownType, found, Option.getD_some, lowerTy, Except.ok.injEq] at known
      exact .name (known ▸ member)
  | binary _ _ _ | grouping _ | unary _ _ => contradiction

/-- What is lowered to a literal other than `null`, or to a variable, has a known type. -/
theorem knownType_of_isBare {value : Expr} {lowered : Host.Expr} (lowers : LowersExpr value lowered)
    (bare : lowered.IsBare) (checked : undefined types value.uses = []) :
    knownType types value ≠ .void := by
  cases lowers with
  | @literal value =>
    cases value with
    | nil => exact absurd rfl bare
    | int _ | double _ | string _ | bool _ => simp [knownType, Value.ty]
  | @name name =>
    have used : name ∈ [name] := .head _
    obtain ⟨ty, found⟩ := defined_of_undefined_eq_nil checked used
    obtain ⟨primitive, lowerTy, -⟩ := agrees found
    simp only [knownType, found, Option.getD_some]
    rintro rfl
    contradiction
  | binary _ _ _ | grouping _ | unary _ _ => exact absurd bare id

theorem declared_of_name {value : Expr} {lowered : Host.Expr} (lowers : LowersExpr value lowered)
    (checked : undefined types value.uses = []) {text : String} (inside : .name text ∈ lowered.parts) :
    ∃ ty, (text, ty) ∈ declared := by
  obtain ⟨name, used, rfl⟩ := lowers.exists_use inside
  obtain ⟨ty, found⟩ := defined_of_undefined_eq_nil checked used
  obtain ⟨primitive, -, member⟩ := agrees found
  exact ⟨primitive, member⟩

omit agrees in
/-- A declaration with which nothing is wrong declares a new name. -/
theorem fresh_of_checked {ty : Ty} {name : Token} {value : Option Expr}
    (checked : Checker.action types (.declare ty name value) = []) : types name.lexeme = none := by
  have new : redeclared types name = [] := by
    cases value with
    | none => exact checked
    | some value => exact (List.append_eq_nil_iff.mp checked).2
  cases found : types name.lexeme with
  | none => rfl
  | some ty => simp [redeclared, found] at new

/-- A statement with which nothing is wrong is lowered to one that fits those before it. -/
theorem wellScoped_of_checked {done : Action} {lowered : Host.Action} (lowers : LowersAction done lowered)
    (checked : Checker.action types done = []) : lowered.WellScoped declared := by
  cases lowers with
  | expression value =>
    refine ⟨fun text => declared_of_name agrees value checked, ?_, by simp⟩
    intro target assigned inside
    exact absurd inside value.assign_not_mem
  | print value =>
    refine ⟨?_, ?_, by simp⟩
    · intro text inside
      exact declared_of_name agrees value checked
        (by simpa [Host.Action.parts, Host.Expr.parts, Host.argumentParts] using inside)
    · intro target assigned inside
      exact absurd (by simpa [Host.Action.parts, Host.Expr.parts, Host.argumentParts] using inside)
        value.assign_not_mem
  | declare _ => exact ⟨by simp [Host.Action.parts], by simp [Host.Action.parts], by simp⟩
  | @initialized ty _ _ initial _ lowerTy value =>
    simp only [Checker.action, List.append_eq_nil_iff] at checked
    obtain ⟨⟨defined, fits⟩, -⟩ := checked
    refine ⟨fun text => declared_of_name agrees value defined, ?_, ?_⟩
    · intro target assigned inside
      exact absurd inside value.assign_not_mem
    · intro other text loweredInitial same bare
      cases same
      -- The checker lets through a type that is not known, but such a value is not bare.
      have known := knownType_of_isBare agrees value bare defined
      have same : knownType types initial = ty := by
        simpa [Checker.initial, known] using fits
      exact bareType_of_knownType agrees value (same ▸ lowerTy)
  | @assign name assigned _ value =>
    simp only [Checker.action, List.append_eq_nil_iff] at checked
    obtain ⟨defined, fits⟩ := checked
    refine ⟨?_, ?_, by simp⟩
    · intro text inside
      exact declared_of_name agrees value defined
        (by simpa [Host.Action.parts, Host.Expr.parts] using inside)
    · intro target loweredValue inside
      simp only [Host.Action.parts, Host.Expr.parts, List.mem_cons, value.assign_not_mem, or_false] at inside
      cases inside
      refine ⟨rfl, ?_⟩
      cases found : types name.lexeme with
      | none => simp [Checker.assigned, found] at fits
      | some ty =>
        obtain ⟨primitive, lowerTy, member⟩ := agrees found
        have same : knownType types assigned = ty := by
          simpa [Checker.assigned, found] using fits
        exact ⟨primitive, member, bareType_of_knownType agrees value (same ▸ lowerTy)⟩
  | blankLine => exact ⟨by simp [Host.Action.parts], by simp [Host.Action.parts], by simp⟩

omit agrees

/-! ## Accepted scripts -/

/-- If nothing was reported, every stretch has given one statement. -/
theorem single_of_accepted {segments : List Segment} {tokens : List Token} {statements : List Stmt}
    (cut : IsCut segments tokens statements []) :
    ∀ segment ∈ segments, ∃ statement, segment.statements = [statement] := by
  intro segment member
  have silent : segment.reports = [] := List.flatMap_eq_nil_iff.mp cut.reports_eq segment member
  have valid := cut.valid segment member
  cases segment with
  | blank line => exact ⟨_, rfl⟩
  | kept _ statement _ => exact ⟨statement, rfl⟩
  | skipped _ reports =>
    obtain ⟨first, rest, -, -, before, fault, culprit, reported, -⟩ := valid
    rw [Segment.reports, reported] at silent
    simp at silent

theorem exists_segment_split {segments : List Segment}
    (single : ∀ segment ∈ segments, ∃ statement, segment.statements = [statement])
    {before after : List Stmt} {statement : Stmt}
    (split : segments.flatMap Segment.statements = before ++ statement :: after) :
    ∃ earlier segment later, segments = earlier ++ segment :: later ∧
      earlier.flatMap Segment.statements = before ∧ segment.statements = [statement] := by
  induction segments generalizing before with
  | nil => simp at split
  | cons segment segments inductionHypothesis =>
    obtain ⟨first, here⟩ := single segment (.head _)
    rw [List.flatMap_cons, here] at split
    cases before with
    | nil =>
      cases split
      exact ⟨[], segment, segments, rfl, rfl, here⟩
    | cons _ before =>
      obtain ⟨rfl, rest⟩ := List.cons.inj split
      obtain ⟨earlier, found, later, rfl, flattened, same⟩ :=
        inductionHypothesis (fun other member => single other (.tail _ member)) rest
      exact ⟨segment :: earlier, found, later, rfl, by simp [here, flattened], same⟩

/-- In an accepted script nothing is wrong with any statement, given the types of those before it. -/
theorem checked_of_accepted {tokens : List Token} (accepted : (parse tokens).reports = [])
    {before after : List Stmt} {statement : Stmt}
    (split : (parse tokens).statements = before ++ statement :: after) :
    Checker.action (declaredType? before) statement.action = [] := by
  obtain ⟨segments, cut, inTurn⟩ := parse_inTurn tokens
  rw [accepted] at cut
  obtain ⟨earlier, segment, later, rfl, rfl, same⟩ :=
    exists_segment_split (single_of_accepted cut) (cut.statements_eq.trans split)
  have silent : segment.reports = [] :=
    List.flatMap_eq_nil_iff.mp cut.reports_eq segment (by simp)
  obtain ⟨statements, fit⟩ := inTurn.split
  rw [lookup_run_empty, statements] at fit
  cases segment with
  | blank line =>
    cases same
    rfl
  | kept _ _ _ =>
    cases same
    exact fit.symm.trans silent
  | skipped _ _ => cases same

/-- All lexemes of a source are interned by one table. -/
theorem lexeme_of_mem_scan {source : Source} {text : String} {token : Token}
    (member : token ∈ (scan source text).tokens) :
    token.lexeme = Symbol.of source.table token.lexeme.text := by
  simp only [scan, List.mem_append, List.mem_filterMap, List.mem_singleton] at member
  rcases member with ⟨⟨position, piece⟩, -, found⟩ | rfl
  · obtain ⟨kind, -, rfl⟩ := Option.map_eq_some_iff.mp found
    rfl
  · rfl

/-- In one source, names of statements are the same symbol when they are spelled alike. -/
theorem lexeme_eq_of_text_eq {source : Source} {text : String} {first second : Stmt}
    (firstParsed : first ∈ (parse (scan source text).tokens).statements)
    (secondParsed : second ∈ (parse (scan source text).tokens).statements) {name other : Token}
    (member : name ∈ first.action.names) (otherMember : other ∈ second.action.names)
    (alike : name.lexeme.text = other.lexeme.text) : name.lexeme = other.lexeme := by
  have interned : ∀ statement ∈ (parse (scan source text).tokens).statements,
      ∀ token ∈ statement.action.names, token.lexeme = Symbol.of source.table token.lexeme.text := by
    intro statement parsed token inside
    cases spells_of_mem_parse (by simp [scan]) parsed with
    | inl blank => simp [blank, Action.names] at inside
    | inr found =>
      obtain ⟨spelling, within, spelled⟩ := found
      exact lexeme_of_mem_scan (within token (spelled.names token inside).1)
  rw [interned first firstParsed name member, alike, ← interned second secondParsed other otherMember]

/-- In an accepted script no statement declares a variable under a name that was declared before. -/
theorem fresh_of_accepted {source : Source} {text : String} {before after : List Stmt} {statement : Stmt}
    (accepted : (parse (scan source text).tokens).reports = [])
    (split : (parse (scan source text).tokens).statements = before ++ statement :: after)
    {ty otherTy : Ty} {name otherName : Token} {initial otherInitial : Option Expr}
    (declares : statement.action = .declare ty name initial) {other : Stmt} (member : other ∈ before)
    (otherDeclares : other.action = .declare otherTy otherName otherInitial) :
    otherName.lexeme.text ≠ name.lexeme.text := by
  intro alike
  have parsed : statement ∈ (parse (scan source text).tokens).statements := by simp [split]
  have otherParsed : other ∈ (parse (scan source text).tokens).statements := by simp [split, member]
  -- The two declarations are of one symbol, so the parser would have reported the second.
  have same : otherName.lexeme = name.lexeme := by
    refine lexeme_eq_of_text_eq otherParsed parsed ?_ ?_ alike
    · exact otherDeclares ▸ Action.mem_names_declare otherTy otherName otherInitial
    · exact declares ▸ Action.mem_names_declare ty name initial
  have checked := checked_of_accepted accepted split
  rw [declares] at checked
  exact declaredType?_ne_none member otherDeclares (same ▸ fresh_of_checked checked)

/-- The host program of an accepted script declares every variable once, mentions only variables that
    are declared before, assigns only in statements of their own, and stores in a variable only what has
    its type. -/
theorem emit_wellScoped {text file : String} {program : Host.Program}
    (emitted : emit text file = .ok program) : Host.WellScoped program.entry.body := by
  obtain ⟨accepted, lowered⟩ := emit_eq_ok emitted
  have lowers := lowers_of_lower lowered
  refine ⟨Host.distinct_of_fresh ?_, ?_⟩
  · intro before statement after split name ty declares again
    rw [split] at lowers
    obtain ⟨first, original, rest, splitOriginal, lowersBefore, given⟩ := exists_split lowers
    obtain ⟨ty, token, initial, declaration, rfl⟩ := declare_of_local? given declares
    obtain ⟨⟨_, primitive⟩, inside, alike⟩ := List.mem_map.mp again
    obtain ⟨earlier, member, otherTy, other, value, earlierDeclaration, rfl⟩ :=
      Lowers.declared_of_local lowersBefore inside
    exact fresh_of_accepted accepted splitOriginal declaration member earlierDeclaration alike
  · intro before statement after split
    rw [split] at lowers
    obtain ⟨first, original, rest, splitOriginal, lowersBefore, given⟩ := exists_split lowers
    exact wellScoped_of_checked (Lowers.local_of_declared lowersBefore) (Stmt.lowersAction given)
      (checked_of_accepted accepted splitOriginal)

theorem emit_wellScoped_sample :
    ∃ program, emit "int a = 1;\na = 2;\nint b = a;\ndouble c = 0.5;\nc = c;\nprint -(a + b) * c;" "script" =
        .ok program ∧ Host.WellScoped program.entry.body := by
  have accepted : (emit "int a = 1;\na = 2;\nint b = a;\ndouble c = 0.5;\nc = c;\nprint -(a + b) * c;"
      "script").isOk = true := by decide +kernel
  obtain ⟨program, emitted⟩ := exists_eq_ok accepted
  exact ⟨program, emitted, emit_wellScoped emitted⟩

end ScriptFrontend
