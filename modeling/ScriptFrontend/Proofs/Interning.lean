import Mathlib.Data.List.Nodup
import ScriptFrontend.Symbol
import ScriptFrontend.Symbol.Interner

/-! # Interning is faithful

Whatever calls are made on whatever interners of one storage, a handle reads as its text for ever, handles
are the same exactly if their symbols are, and every interner stores each text once (`run_faithful`).

Handles are compared by address, while an interner looks its texts up.  What ties the two together is a
record of all answers so far (`Records`): an interner knows exactly the texts it was asked for, under the
handles it answered with.  Of the storage nothing is used but that it holds what it stored (`Holds`), that
storing more keeps what is held, and that a new text that is not empty gets an address of its own.
-/

namespace ScriptFrontend

/-! ## Symbols of several tables -/

theorem Symbol.of_eq_of_iff {table other : Nat} {text otherText : String} :
    Symbol.of table text = Symbol.of other otherText ↔ text = otherText ∧ (text = "" ∨ table = other) := by
  constructor
  · intro same
    obtain rfl : text = otherText := congrArg Symbol.text same
    by_cases empty : text = ""
    · exact ⟨rfl, .inl empty⟩
    · have tables : (Symbol.of table text).table = (Symbol.of other text).table := by rw [same]
      exact ⟨rfl, .inr (by simpa [Symbol.of, empty] using tables)⟩
  · rintro ⟨rfl, rfl | rfl⟩
    · rfl
    · rfl

/-! ## What a storage holds -/

namespace Storage

variable {storage : Storage} {handle : Handle} {text : String}

/-- The texts that can be read from a storage, by their handles. -/
inductive Holds (storage : Storage) : Handle → String → Prop where
  | empty : Holds storage ⟨0⟩ ""
  | stored {position : Nat} {text : String} : text ≠ "" → storage.texts[position]? = some text →
      Holds storage ⟨position + 1⟩ text

theorem Holds.read_eq (holds : storage.Holds handle text) : storage.read handle = text := by
  cases holds with
  | empty => rfl
  | stored _ found => simp [read, found]

theorem Holds.unique {other : String} (holds : storage.Holds handle text) (otherHolds : storage.Holds handle other) :
    text = other := by
  rw [← holds.read_eq, otherHolds.read_eq]

theorem Holds.store (holds : storage.Holds handle text) (other : String) :
    (storage.store other).2.Holds handle text := by
  cases holds with
  | empty => exact .empty
  | stored nonempty found =>
    refine .stored nonempty ?_
    have bound := (List.getElem?_eq_some_iff.mp found).1
    rw [Storage.store, List.getElem?_append_left bound, found]

theorem holds_store (storage : Storage) (text : String) :
    (storage.store text).2.Holds (storage.store text).1 text := by
  by_cases empty : text = ""
  · subst empty
    exact .empty
  · simp only [store, if_neg empty]
    exact .stored empty (by simp)

/-- The address of a new text is new, unless the text is empty. -/
theorem Holds.ne_store {other : String} (holds : storage.Holds handle text) (nonempty : other ≠ "") :
    handle ≠ (storage.store other).1 := by
  simp only [Storage.store, if_neg nonempty]
  cases holds with
  | empty => simp
  | stored _ found =>
    have bound := (List.getElem?_eq_some_iff.mp found).1
    simp only [ne_eq, Handle.mk.injEq]
    omega

/-- All empty texts have one address. -/
theorem Holds.eq_store (holds : storage.Holds handle "") : handle = (storage.store "").1 := by
  cases holds with
  | empty => rfl
  | stored nonempty _ => exact absurd rfl nonempty

end Storage

/-! ## One call -/

/-- Interners that share a storage and have stored nothing yet. -/
def SymbolTables.sharing (storage : Storage) : SymbolTables := ⟨storage, fun _ => .empty⟩

namespace Interning

def Call.text (call : Call) : String := call.presented.text

/-- The symbol that stands for the answer to a call. -/
def Call.symbol (call : Call) : Symbol := Symbol.of call.interner call.text

/-- What a call can do: the interner knows the text and nothing changes, or it stores the text and adds it to
    those it knows. -/
inductive Answers (tables : SymbolTables) (call : Call) : Handle → SymbolTables → Prop where
  | known {handle : Handle} : (call.text, handle) ∈ (tables.interners call.interner).known →
      Answers tables call handle tables
  | stored {after : SymbolTables} :
      (∀ handle, (call.text, handle) ∉ (tables.interners call.interner).known) →
      after.storage = (tables.storage.store call.text).2 →
      (∀ interner, (after.interners interner).known = (tables.interners interner).known ++
        if interner = call.interner then [(call.text, (tables.storage.store call.text).1)] else []) →
      Answers tables call (tables.storage.store call.text).1 after

end Interning

theorem Interner.lookup_eq_find? (known : List (String × Handle)) (text : String) :
    known.lookup text = (known.find? fun entry => entry.1.toList = text.toList).map Prod.snd := by
  induction known with
  | nil => rfl
  | cons entry rest inductionHypothesis =>
    obtain ⟨key, handle⟩ := entry
    by_cases same : text = key
    · simp [same]
    · have apart : ¬ key.toList = text.toList := fun equal => same (String.toList_inj.mp equal).symm
      simpa [List.lookup_cons, beq_false_of_ne same, apart] using inductionHypothesis

/-- It does not matter how a text is presented. -/
theorem Interner.internChars_eq (interner : Interner) (storage : Storage) (chars : List Char) :
    interner.internChars storage chars = interner.intern storage (String.ofList chars) := by
  have looked := lookup_eq_find? interner.known (String.ofList chars)
  rw [String.toList_ofList] at looked
  unfold internChars
  split
  · next text handle found =>
    rw [found] at looked
    rw [intern, looked]
    rfl
  · rfl

theorem SymbolTables.call_eq (tables : SymbolTables) (call : Interning.Call) :
    tables.call call =
      let answer := (tables.interners call.interner).intern tables.storage call.text
      (answer.1, ⟨answer.2.2, fun i => if i = call.interner then answer.2.1 else tables.interners i⟩) := by
  obtain ⟨interner, owned | chars⟩ := call
  · rfl
  · simp only [SymbolTables.call, Interner.internChars_eq]
    rfl

theorem SymbolTables.call_answers (tables : SymbolTables) (call : Interning.Call) :
    Interning.Answers tables call (tables.call call).1 (tables.call call).2 := by
  rw [tables.call_eq call]
  cases looked : (tables.interners call.interner).known.lookup call.text with
  | some handle =>
    obtain ⟨before, after, split, -⟩ := List.lookup_eq_some_iff.mp looked
    have unchanged : (fun i => if i = call.interner then tables.interners call.interner else tables.interners i) =
        tables.interners := by
      funext i
      split <;> simp_all
    simp only [Interner.intern, looked, unchanged]
    exact .known (by simp [split])
  | none =>
    simp only [Interner.intern, looked]
    refine .stored ?_ rfl ?_
    · intro handle member
      simpa using List.lookup_eq_none_iff.mp looked _ member
    · intro interner
      dsimp only
      split
      · next same => rw [same]
      · rw [List.append_nil]

/-! ## Records of all calls -/

namespace Interning

/-- What it means that a ledger lists what was stored, in order and each text with its interner: every interner
    has stored the texts that it was asked for, no text twice, and these are the texts that it knows. -/
structure StoredOnce (initial : Storage) (calls : List Call) (tables : SymbolTables)
    (ledger : List (Nat × String)) : Prop where
  stored : tables.storage.texts = initial.texts ++ ledger.map Prod.snd
  distinct : ledger.Nodup
  mem_iff : ∀ interner text, (interner, text) ∈ ledger ↔
    ∃ call ∈ calls, call.interner = interner ∧ call.text = text
  known : ∀ interner, (tables.interners interner).known.map Prod.fst =
    (ledger.filter (·.1 == interner)).map Prod.snd

/-- What holds of the tables after some calls, given with their answers. -/
structure Records (initial : Storage) (history : List (Call × Handle)) (tables : SymbolTables) : Prop where
  holds : ∀ entry ∈ history, tables.storage.Holds entry.2 entry.1.text
  handle_eq_iff : ∀ first ∈ history, ∀ second ∈ history, first.2 = second.2 ↔ first.1.symbol = second.1.symbol
  known_iff : ∀ interner text handle, (text, handle) ∈ (tables.interners interner).known ↔
    ∃ entry ∈ history, entry.1.interner = interner ∧ entry.1.text = text ∧ entry.2 = handle
  storedOnce : ∃ ledger, StoredOnce initial (history.map Prod.fst) tables ledger

variable {initial : Storage} {history : List (Call × Handle)} {tables after : SymbolTables} {call : Call}
  {handle : Handle}

theorem records_nil (initial : Storage) : Records initial [] (.sharing initial) where
  holds := by simp
  handle_eq_iff := by simp
  known_iff := by simp [SymbolTables.sharing, Interner.empty]
  storedOnce := ⟨[], by simp [SymbolTables.sharing], .nil, by simp, by simp [SymbolTables.sharing, Interner.empty]⟩

theorem StoredOnce.again {calls : List Call} {ledger : List (Nat × String)}
    (once : StoredOnce initial calls tables ledger)
    (asked : ∃ earlier ∈ calls, earlier.interner = call.interner ∧ earlier.text = call.text) :
    StoredOnce initial (calls ++ [call]) tables ledger where
  stored := once.stored
  distinct := once.distinct
  mem_iff := by
    intro interner text
    rw [once.mem_iff]
    constructor
    · rintro ⟨earlier, member, found⟩
      exact ⟨earlier, List.mem_append_left _ member, found⟩
    · rintro ⟨other, member, rfl, rfl⟩
      rcases List.mem_append.mp member with old | new
      · exact ⟨other, old, rfl, rfl⟩
      · obtain rfl := List.mem_singleton.mp new
        exact asked
  known := once.known

theorem StoredOnce.add {calls : List Call} {ledger : List (Nat × String)}
    (once : StoredOnce initial calls tables ledger)
    (fresh : ∀ earlier ∈ calls, earlier.interner = call.interner → earlier.text ≠ call.text)
    (storage : after.storage = (tables.storage.store call.text).2)
    (known : ∀ interner, (after.interners interner).known = (tables.interners interner).known ++
      if interner = call.interner then [(call.text, handle)] else []) :
    StoredOnce initial (calls ++ [call]) after (ledger ++ [(call.interner, call.text)]) where
  stored := by simp [storage, Storage.store, once.stored]
  distinct := by
    have unlisted : (call.interner, call.text) ∉ ledger := by
      rw [once.mem_iff]
      rintro ⟨earlier, member, sameInterner, sameText⟩
      exact fresh earlier member sameInterner sameText
    simpa using List.Nodup.concat unlisted once.distinct
  mem_iff := by
    intro interner text
    simp only [List.mem_append, once.mem_iff, List.mem_singleton, Prod.mk.injEq, or_and_right, exists_or,
      exists_eq_left]
    simp only [eq_comm]
  known := by
    intro interner
    rw [known, List.map_append, once.known, List.filter_append, List.map_append]
    by_cases same : call.interner = interner
    · simp [same]
    · simp [same, Ne.symm same]

/-- A text that was known adds nothing, since the same was answered before. -/
theorem Records.of_known (records : Records initial history tables)
    (known : (call.text, handle) ∈ (tables.interners call.interner).known) :
    Records initial (history ++ [(call, handle)]) tables := by
  obtain ⟨earlier, member, sameInterner, sameText, rfl⟩ := (records.known_iff _ _ _).mp known
  have before : ∀ entry ∈ history ++ [(call, earlier.2)], ∃ other ∈ history,
      other.1.interner = entry.1.interner ∧ other.1.text = entry.1.text ∧ other.2 = entry.2 := by
    intro entry inside
    rcases List.mem_append.mp inside with old | new
    · exact ⟨entry, old, rfl, rfl, rfl⟩
    · obtain rfl := List.mem_singleton.mp new
      exact ⟨earlier, member, sameInterner, sameText, rfl⟩
  refine ⟨?_, ?_, ?_, ?_⟩
  · intro entry inside
    obtain ⟨other, old, -, texts, handles⟩ := before entry inside
    rw [← texts, ← handles]
    exact records.holds other old
  · intro first firstInside second secondInside
    obtain ⟨firstOld, firstMember, firstInterner, firstText, firstHandle⟩ := before first firstInside
    obtain ⟨secondOld, secondMember, secondInterner, secondText, secondHandle⟩ := before second secondInside
    rw [← firstHandle, ← secondHandle, Call.symbol, Call.symbol, ← firstInterner, ← firstText,
      ← secondInterner, ← secondText]
    exact records.handle_eq_iff firstOld firstMember secondOld secondMember
  · intro interner text other
    rw [records.known_iff]
    constructor
    · rintro ⟨entry, old, found⟩
      exact ⟨entry, List.mem_append_left _ old, found⟩
    · rintro ⟨entry, inside, rfl, rfl, rfl⟩
      exact before entry inside
  · obtain ⟨ledger, once⟩ := records.storedOnce
    rw [List.map_append]
    exact ⟨ledger, once.again ⟨earlier.1, List.mem_map_of_mem member, sameInterner, sameText⟩⟩

/-- A new handle is like an earlier one only if both are of the empty text. -/
theorem Records.eq_store_iff (records : Records initial history tables)
    (unknown : ∀ handle, (call.text, handle) ∉ (tables.interners call.interner).known)
    {entry : Call × Handle} (member : entry ∈ history) :
    entry.2 = (tables.storage.store call.text).1 ↔ entry.1.symbol = call.symbol := by
  have holds := records.holds entry member
  rw [Call.symbol, Call.symbol, Symbol.of_eq_of_iff]
  constructor
  · intro same
    have sameText : entry.1.text = call.text :=
      (holds.store call.text).unique (same ▸ tables.storage.holds_store call.text)
    refine ⟨sameText, .inl ?_⟩
    by_contra nonempty
    exact holds.ne_store (sameText ▸ nonempty) same
  · rintro ⟨sameText, isEmpty | sameInterner⟩
    · rw [← sameText, isEmpty]
      exact (isEmpty ▸ holds).eq_store
    · have known := (records.known_iff _ _ _).mpr ⟨entry, member, sameInterner, sameText, rfl⟩
      exact absurd known (unknown entry.2)

/-- A text that was not known is stored under a handle that stands for its symbol alone. -/
theorem Records.of_stored (records : Records initial history tables)
    (unknown : ∀ handle, (call.text, handle) ∉ (tables.interners call.interner).known)
    (storage : after.storage = (tables.storage.store call.text).2)
    (known : ∀ interner, (after.interners interner).known = (tables.interners interner).known ++
      if interner = call.interner then [(call.text, (tables.storage.store call.text).1)] else []) :
    Records initial (history ++ [(call, (tables.storage.store call.text).1)]) after := by
  refine ⟨?_, ?_, ?_, ?_⟩
  · intro entry inside
    rw [storage]
    rcases List.mem_append.mp inside with old | new
    · exact (records.holds entry old).store call.text
    · obtain rfl := List.mem_singleton.mp new
      exact tables.storage.holds_store call.text
  · intro first firstInside second secondInside
    rcases List.mem_append.mp firstInside with firstOld | firstNew <;>
      rcases List.mem_append.mp secondInside with secondOld | secondNew
    · exact records.handle_eq_iff first firstOld second secondOld
    · obtain rfl := List.mem_singleton.mp secondNew
      exact records.eq_store_iff unknown firstOld
    · obtain rfl := List.mem_singleton.mp firstNew
      rw [eq_comm, records.eq_store_iff unknown secondOld, eq_comm]
    · obtain rfl := List.mem_singleton.mp firstNew
      obtain rfl := List.mem_singleton.mp secondNew
      exact iff_of_true rfl rfl
  · intro interner text handle
    rw [known, List.mem_append, records.known_iff]
    constructor
    · rintro (⟨entry, old, found⟩ | new)
      · exact ⟨entry, List.mem_append_left _ old, found⟩
      · split at new
        · next same =>
          obtain ⟨rfl, rfl⟩ := Prod.mk.inj (List.mem_singleton.mp new)
          exact ⟨(call, _), List.mem_append_right _ (.head _), same.symm, rfl, rfl⟩
        · cases new
    · rintro ⟨entry, inside, rfl, rfl, rfl⟩
      rcases List.mem_append.mp inside with old | new
      · exact .inl ⟨entry, old, rfl, rfl, rfl⟩
      · obtain rfl := List.mem_singleton.mp new
        exact .inr (by simp)
  · obtain ⟨ledger, once⟩ := records.storedOnce
    have fresh : ∀ earlier ∈ history.map Prod.fst, earlier.interner = call.interner → earlier.text ≠ call.text := by
      intro earlier member sameInterner sameText
      obtain ⟨entry, inside, rfl⟩ := List.mem_map.mp member
      exact unknown entry.2 ((records.known_iff _ _ _).mpr ⟨entry, inside, sameInterner, sameText, rfl⟩)
    rw [List.map_append]
    exact ⟨_, once.add fresh storage known⟩

/-- What one call preserves. -/
theorem Records.of_answers (records : Records initial history tables) (answers : Answers tables call handle after) :
    Records initial (history ++ [(call, handle)]) after := by
  cases answers with
  | known known => exact records.of_known known
  | stored unknown storage known => exact records.of_stored unknown storage known

/-- What any number of calls preserves. -/
theorem Records.run (records : Records initial history tables) (calls : List Call) :
    Records initial (history ++ calls.zip (tables.run calls).1) (tables.run calls).2 := by
  induction calls generalizing history tables with
  | nil => simpa [SymbolTables.run] using records
  | cons call calls inductionHypothesis =>
    have later := inductionHypothesis (records.of_answers (tables.call_answers call))
    rw [List.append_assoc] at later
    exact later

/-- What it means that interning is faithful over some calls. -/
structure Faithful (calls : List Call) (handles : List Handle) (tables : SymbolTables) : Prop where
  -- Every call has an answer.
  answered : handles.length = calls.length
  -- A handle reads as its text, and goes on doing so whatever is called later.
  reads : ∀ later, ∀ entry ∈ calls.zip handles, (tables.run later).2.storage.read entry.2 = entry.1.text
  -- Handles of one interner are the same exactly if their texts are, however these were presented.
  same_interner : ∀ first ∈ calls.zip handles, ∀ second ∈ calls.zip handles,
    first.1.interner = second.1.interner → (first.2 = second.2 ↔ first.1.text = second.1.text)
  -- Handles of different interners are different, unless both texts are empty.
  other_interner : ∀ first ∈ calls.zip handles, ∀ second ∈ calls.zip handles,
    first.1.interner ≠ second.1.interner → first.1.text ≠ "" → first.2 ≠ second.2
  -- Handles are the same exactly if they stand for the same symbol.
  symbols : ∀ first ∈ calls.zip handles, ∀ second ∈ calls.zip handles,
    first.2 = second.2 ↔ first.1.symbol = second.1.symbol

end Interning

theorem SymbolTables.length_run (tables : SymbolTables) (calls : List Interning.Call) :
    (tables.run calls).1.length = calls.length := by
  induction calls generalizing tables with
  | nil => rfl
  | cons call calls inductionHypothesis => exact congrArg (· + 1) (inductionHypothesis _)

/-- Whatever calls are made on interners that share a storage, in whatever order, all handles are faithful, and
    each interner has stored each text that it was asked for exactly once. -/
theorem SymbolTables.run_faithful (storage : Storage) (calls : List Interning.Call) :
    let ran := (sharing storage).run calls
    Interning.Faithful calls ran.1 ran.2 ∧ ∃ ledger, Interning.StoredOnce storage calls ran.2 ledger := by
  intro ran
  have answered : ran.1.length = calls.length := SymbolTables.length_run _ calls
  have records : Interning.Records storage (calls.zip ran.1) ran.2 := (Interning.records_nil storage).run calls
  refine ⟨⟨answered, ?_, ?_, ?_, records.handle_eq_iff⟩, ?_⟩
  · intro later entry member
    exact ((records.run later).holds entry (List.mem_append_left _ member)).read_eq
  · intro first firstMember second secondMember same
    rw [records.handle_eq_iff first firstMember second secondMember]
    simp [Interning.Call.symbol, same]
  · intro first firstMember second secondMember other nonempty
    rw [ne_eq, records.handle_eq_iff first firstMember second secondMember]
    simp [Interning.Call.symbol, Symbol.of_eq_of_iff, other, nonempty]
  · have once := records.storedOnce
    rwa [List.map_fst_zip (Nat.le_of_eq answered.symm)] at once

example : (SymbolTables.empty.run [⟨0, .owned "x"⟩, ⟨1, .borrowed ['x']⟩, ⟨0, .borrowed ['x']⟩]).1 =
    [⟨1⟩, ⟨2⟩, ⟨1⟩] := by decide

end ScriptFrontend
