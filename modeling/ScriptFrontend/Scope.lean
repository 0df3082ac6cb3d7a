import ScriptFrontend.Tree

/-! # Scope

The declared types of the variables seen so far.  There is one flat scope; a name is declared once, and
a second declaration leaves the first in force.
-/

namespace ScriptFrontend

/-- What can be wrong with a declaration or a use of a variable. -/
inductive BindingError where
  | alreadyDefined (name : Symbol) (defined : Ty)
  | undefined (name : Symbol)
  | mismatch (name : Symbol) (declared assigned : Ty)
  | initializerMismatch (name : Symbol) (declared assigned : Ty)
  deriving DecidableEq, Repr

def BindingError.message : BindingError → String
  | .alreadyDefined name defined =>
    "Variable '" ++ name.text ++ "' already defined with type '" ++ defined.name ++ "'."
  | .undefined name => "Undefined variable '" ++ name.text ++ "'."
  | .mismatch _ declared assigned =>
    "Assigning type '" ++ assigned.name ++ "' to already defined type '" ++ declared.name ++ "'."
  | .initializerMismatch name declared assigned =>
    "Initializing variable '" ++ name.text ++ "' of type '" ++ declared.name ++ "' with type '" ++
      assigned.name ++ "'."

/-- Names with their declared types, the latest first. -/
structure Scope where
  types : List (Symbol × Ty)
  deriving DecidableEq, Repr, Inhabited

namespace Scope

def empty : Scope := ⟨[]⟩

def lookup (scope : Scope) (name : Symbol) : Option Ty :=
  scope.types.lookup name

/-- Declares a name that is not declared yet. -/
def define (scope : Scope) (name : Symbol) (ty : Ty) : Except BindingError Scope :=
  match scope.lookup name with
  | some defined => .error (.alreadyDefined name defined)
  | none => .ok ⟨(name, ty) :: scope.types⟩

/-- Whether a value of a type may be stored in a name. -/
def checkAssignment (scope : Scope) (name : Symbol) (assigned : Ty) : Except BindingError Unit :=
  match scope.lookup name with
  | none => .error (.undefined name)
  | some declared => if declared = assigned then .ok () else .error (.mismatch name declared assigned)

/-- The type that an expression is known to have.  Only literals and variables are followed. -/
def staticType (scope : Scope) : Expr → Ty
  | .literal value => value.ty
  | .variable name => (scope.lookup name.lexeme).getD .void
  | .binary .. | .grouping _ | .unary .. => .void

/-- Whether a variable may begin with a value of a type.  A type that is not known is let through. -/
def checkInitializer (name : Symbol) (declared assigned : Ty) : Except BindingError Unit :=
  if assigned = .void ∨ assigned = declared then .ok ()
  else .error (.initializerMismatch name declared assigned)

end Scope

end ScriptFrontend
