import ScriptFrontend.Proofs.HostText
import ScriptFrontend.Proofs.LoweringTotality

/-! # What lowered scripts are made of

The host language allows more than scripts are lowered to.  In the program of an accepted script every name
is a word that no script reserves, numbers have no sign of their own, and an assignment or a call is a
statement and no part of one (`ScriptedAction`).  All of it is said by the tokens from which a statement was
read (`emit_scripted`).
-/

namespace ScriptFrontend

open Grammar

/-! ## Scripted statements -/

/-- A word that can name a variable in a script. -/
def IsScriptName (text : String) : Prop :=
  Keyword.ofWord? text.toList = none ∧
    ∃ c others, text.toList = c :: others ∧ beginsWord c = true ∧ ∀ d ∈ others, inWord d = true

namespace Host

/-- Constants that a script can write: a number has no sign, and it may be too large, but it is one. -/
def Constant.Unsigned : Constant → Prop
  | .int value => 0 ≤ value
  | .float x => x.negative = false ∧ x.magnitude ≤ Binary64.infinity
  | .null | .string _ | .bool _ => True

/-- A number of a script that is not finite is written `inf`. -/
theorem render_infinite {x : Binary64} (unsigned : (Constant.float x).Unsigned) (infinite : x.isFinite = false) :
    x.render numbers = "inf" := by
  obtain ⟨noSign, bounded⟩ := unsigned
  simp only [Binary64.isFinite, decide_eq_false_iff_not] at infinite
  have magnitude : x.magnitude = Binary64.infinity := by omega
  simp [Binary64.render, noSign, Binary64.isNaN, magnitude]

/-- What an expression of a script is lowered to. -/
inductive Scripted : Expr → Prop where
  | binary {operator : BinaryOp} {left right : Expr} :
      Scripted left → Scripted right → Scripted (.binary operator left right)
  | parenthesized {inner : Expr} : Scripted inner → Scripted (.parenthesized inner)
  | literal {constant : Constant} : constant.Unsigned → Scripted (.literal constant)
  | prefixed {operator : PrefixOp} {operand : Expr} : Scripted operand → Scripted (.prefixed operator operand)
  | name {text : String} : IsScriptName text → Scripted (.name text)

/-- What a statement of a script is lowered to. -/
inductive ScriptedAction : Action → Prop where
  | expression {value : Expr} : Scripted value → ScriptedAction (.expression value)
  | print {value : Expr} : Scripted value → ScriptedAction (.expression (.invoke .write [value]))
  | assign {target : String} {value : Expr} :
      IsScriptName target → Scripted value → ScriptedAction (.expression (.assign target value))
  | declare {ty : Primitive} {name : String} : IsScriptName name → ScriptedAction (.declare ty name none)
  | initialized {ty : Primitive} {name : String} {value : Expr} :
      IsScriptName name → Scripted value → ScriptedAction (.declare ty name (some value))
  | empty : ScriptedAction .empty

end Host

/-! ## Scanned tokens -/

/-- Whether a number token carries a number without a sign. -/
def Token.Unsigned (token : Token) : Prop :=
  ∀ x, token.kind = .float x → x.negative = false ∧ x.magnitude ≤ Binary64.infinity

theorem unsigned_ofRatio (n d : Nat) :
    (Binary64.ofMagnitude (Binary64.ofRatio n d)).negative = false ∧
      (Binary64.ofMagnitude (Binary64.ofRatio n d)).magnitude ≤ Binary64.infinity := by
  have bounded : Binary64.ofRatio n d ≤ Binary64.infinity := Nat.min_le_right _ _
  have small : Binary64.infinity < Binary64.signWeight := by decide
  have unsigned := Host.negative_ofMagnitude (Nat.lt_of_le_of_lt bounded small)
  refine ⟨unsigned, ?_⟩
  have word : Binary64.signWeight < 2 ^ 64 := by decide
  simp only [Binary64.magnitude, Binary64.ofMagnitude, UInt64.toNat_ofNat']
  rw [Nat.mod_eq_of_lt (by omega), Nat.mod_eq_of_lt (by omega)]
  exact bounded

theorem unsigned_of_kind? {position : Position} {piece : Piece} {x : Binary64}
    (found : piece.kind? position = some (.float x)) :
    x.negative = false ∧ x.magnitude ≤ Binary64.infinity := by
  cases piece with
  | float whole fraction =>
    cases found
    exact unsigned_ofRatio _ _
  | lineFeed | integer _ =>
    simp only [Piece.kind?] at found
    split at found <;> cases found
  | word chars =>
    simp only [Piece.kind?] at found
    split at found <;> cases found
  | mark _ | string _ | blank _ | comment _ | unterminated _ | unexpected _ => cases found

theorem scan_unsigned (source : Source) (text : String) :
    ∀ token ∈ (scan source text).tokens, token.Unsigned := by
  intro token member x kind
  simp only [scan, List.mem_append, List.mem_filterMap, List.mem_singleton] at member
  cases member with
  | inl cut =>
    obtain ⟨⟨position, piece⟩, -, found⟩ := cut
    obtain ⟨other, classified, rfl⟩ := Option.map_eq_some_iff.mp found
    exact unsigned_of_kind? (classified.trans (congrArg some kind))
  | inr last =>
    subst last
    cases kind

theorem isScriptName_of_faithful {name : Token} (named : IsName name) (faithful : name.Faithful) :
    IsScriptName name.lexeme.text := by
  obtain ⟨text, kind⟩ := named
  simp only [Token.Faithful, kind] at faithful
  obtain ⟨rfl, word⟩ := faithful
  exact word

/-! ## Lowered statements -/

theorem unsigned_lower {token : Token} {value : Value} (kind : token.kind = literalKind value)
    (faithful : token.Faithful) (unsigned : token.Unsigned) : value.lower.Unsigned := by
  cases value with
  | int value =>
    simp only [Token.Faithful, kind, literalKind] at faithful
    obtain ⟨n, rfl, -⟩ := faithful
    exact Int.natCast_nonneg n
  | double x => exact unsigned x kind
  | nil | string _ | bool _ => trivial

theorem Grammar.Derives.scripted {tier : Nat} {tokens : List Token} {value : Expr}
    (derived : Derives tier tokens value) {lowered : Host.Expr} (lowers : LowersExpr value lowered)
    (scanned : ∀ token ∈ tokens, token.Faithful ∧ token.Unsigned) : Host.Scripted lowered := by
  induction derived generalizing lowered with
  | tighter _ inductionHypothesis => exact inductionHypothesis lowers scanned
  | binary _ _ _ leftHypothesis rightHypothesis =>
    cases lowers with
    | binary _ left right =>
      apply Host.Scripted.binary
      · exact leftHypothesis left fun token member => scanned token (List.mem_append_left _ member)
      · exact rightHypothesis right fun token member => scanned token (by simp [member])
  | unary _ _ inductionHypothesis =>
    cases lowers with
    | unary _ operand =>
      exact .prefixed (inductionHypothesis operand fun token member => scanned token (.tail _ member))
  | literal kind =>
    cases lowers with
    | literal =>
      obtain ⟨faithful, unsigned⟩ := scanned _ (.head _)
      exact .literal (unsigned_lower kind faithful unsigned)
  | name named =>
    cases lowers with
    | name => exact .name (isScriptName_of_faithful named (scanned _ (.head _)).1)
  | grouping _ _ _ inductionHypothesis =>
    cases lowers with
    | grouping inner =>
      exact .parenthesized (inductionHypothesis inner fun token member => scanned token (by simp [member]))

theorem Grammar.Spells.scripted {tokens : List Token} {action : Action} (spelled : Spells tokens action)
    {lowered : Host.Action} (lowers : LowersAction action lowered)
    (scanned : ∀ token ∈ tokens, token.Faithful ∧ token.Unsigned) : Host.ScriptedAction lowered := by
  cases spelled with
  | expression derived _ =>
    cases lowers with
    | expression value =>
      exact .expression (derived.scripted value fun token member => scanned token (by simp [member]))
  | print _ derived _ =>
    cases lowers with
    | print value => exact .print (derived.scripted value fun token member => scanned token (by simp [member]))
  | declare _ named _ =>
    cases lowers with
    | declare _ => exact .declare (isScriptName_of_faithful named (scanned _ (by simp)).1)
  | initialized _ named _ derived _ =>
    cases lowers with
    | initialized _ value =>
      apply Host.ScriptedAction.initialized (isScriptName_of_faithful named (scanned _ (by simp)).1)
      exact derived.scripted value fun token member => scanned token (by simp [member])
  | assign named _ derived _ =>
    cases lowers with
    | assign value =>
      apply Host.ScriptedAction.assign (isScriptName_of_faithful named (scanned _ (by simp)).1)
      exact derived.scripted value fun token member => scanned token (by simp [member])

theorem emit_scripted {text file : String} {program : Host.Program} (emitted : emit text file = .ok program) :
    ∀ statement ∈ program.entry.body, Host.ScriptedAction statement.action := by
  intro statement member
  obtain ⟨before, after, split⟩ := List.append_of_mem member
  have lowers := lowers_of_lower (emit_eq_ok emitted).2
  rw [split] at lowers
  obtain ⟨first, original, rest, parsed, -, given⟩ := exists_split lowers
  have action := Stmt.lowersAction given
  have inside : original ∈ (parse (scan ⟨file, 0⟩ text).tokens).statements := by simp [parsed]
  cases spells_of_mem_parse (by simp [scan]) inside with
  | inl blank =>
    rw [blank] at action
    generalize statement.action = lowered at action
    cases action
    exact .empty
  | inr found =>
    obtain ⟨spelling, within, spelled⟩ := found
    apply spelled.scripted action
    intro token inside
    exact ⟨scan_faithful _ _ token (within token inside), scan_unsigned _ _ token (within token inside)⟩

end ScriptFrontend
