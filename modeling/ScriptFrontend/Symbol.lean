/-! # Symbols

A symbol is a text together with the table that interned it.  Two symbols of one table are equal
exactly when their texts are; symbols of different tables are different names even when they are
spelled alike, except that the empty text is one symbol everywhere.  `Symbol.Interner` shows how a
table comes to hand them out.
-/

namespace ScriptFrontend

/-- An interned text.  Make one with `Symbol.of`, which keeps the empty text unique. -/
structure Symbol where
  text : String
  table : Nat
  deriving DecidableEq, Repr, Inhabited

namespace Symbol

def of (table : Nat) (text : String) : Symbol :=
  ⟨text, if text = "" then 0 else table⟩

@[simp]
theorem text_of (table : Nat) (text : String) : (of table text).text = text := rfl

/-- Within one table, a symbol is its text. -/
@[simp]
theorem of_inj {table : Nat} {left right : String} : of table left = of table right ↔ left = right := by
  constructor
  · intro same
    exact congrArg Symbol.text same
  · rintro rfl
    rfl

end Symbol

end ScriptFrontend
