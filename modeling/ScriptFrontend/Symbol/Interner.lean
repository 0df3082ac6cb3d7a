/-! # Interning

Texts are kept in an append-only `Storage`, and a `Handle` is the address at which one of them was
stored.  An `Interner` remembers which texts it has stored and where, so that it stores each only once.
Several interners may share a storage: they store the same text at different addresses, and their
handles differ.  An empty text occupies no room; wherever it is stored, its address is zero.
-/

namespace ScriptFrontend

/-- An address in a storage. -/
structure Handle where
  address : Nat
  deriving DecidableEq, Repr

/-- The texts stored so far, in order.  The text at position `i` has address `i + 1`. -/
structure Storage where
  texts : List String
  deriving Repr, Inhabited

namespace Storage

def empty : Storage := ⟨[]⟩

def store (storage : Storage) (text : String) : Handle × Storage :=
  (⟨if text = "" then 0 else storage.texts.length + 1⟩, ⟨storage.texts ++ [text]⟩)

/-- The text at an address; there is none at address zero but the empty one. -/
def read (storage : Storage) (handle : Handle) : String :=
  match handle.address with
  | 0 => ""
  | position + 1 => storage.texts[position]?.getD ""

end Storage

/-- What one interner has stored, with the handles. -/
structure Interner where
  known : List (String × Handle)
  deriving Repr, Inhabited

namespace Interner

def empty : Interner := ⟨[]⟩

/-- The handle of a text: the one it already has, or that of a new copy. -/
def intern (interner : Interner) (storage : Storage) (text : String) : Handle × Interner × Storage :=
  match interner.known.lookup text with
  | some handle => (handle, interner, storage)
  | none =>
    let (handle, storage) := storage.store text
    (handle, ⟨interner.known ++ [(text, handle)]⟩, storage)

/-- The handle of a text given by its characters, as the scanner has it.  The text is looked up before
    it is built for keeping. -/
def internChars (interner : Interner) (storage : Storage) (chars : List Char) :
    Handle × Interner × Storage :=
  match interner.known.find? fun entry => entry.1.toList = chars with
  | some (_, handle) => (handle, interner, storage)
  | none => interner.intern storage (String.ofList chars)

end Interner

/-- How a text is presented for interning. -/
inductive Interning where
  | owned (text : String)
  | borrowed (chars : List Char)

/-- A call on one of several interners. -/
structure Interning.Call where
  interner : Nat
  presented : Interning

def Interning.text : Interning → String
  | .owned text => text
  | .borrowed chars => String.ofList chars

/-- Any number of interners over one storage. -/
structure SymbolTables where
  storage : Storage
  interners : Nat → Interner

namespace SymbolTables

def empty : SymbolTables := ⟨.empty, fun _ => .empty⟩

def call (tables : SymbolTables) (request : Interning.Call) : Handle × SymbolTables :=
  let interner := tables.interners request.interner
  let (handle, interner, storage) := match request.presented with
    | .owned text => interner.intern tables.storage text
    | .borrowed chars => interner.internChars tables.storage chars
  (handle, ⟨storage, fun i => if i = request.interner then interner else tables.interners i⟩)

/-- Carries out calls in order and gives the handle of each. -/
def run (tables : SymbolTables) : List Interning.Call → List Handle × SymbolTables
  | [] => ([], tables)
  | request :: rest =>
    let (handle, tables) := tables.call request
    let (handles, tables) := run tables rest
    (handle :: handles, tables)

end SymbolTables

end ScriptFrontend
