import ScriptFrontend.Proofs.LoweringTotality
import ScriptFrontend.Settings

/-! # Driving a backend

Scripts that are compiled one after the other with one backend, whatever the backend does with its state.
`Drives` says what such a run comes to, without the stages: a script that is not accepted leaves the
backend alone and ends in the error that every entry point gives for it, and an accepted one reaches the
backend once, with its program and what the settings ask for.

The calls that reach a backend are not seen from outside.  `Backend.recording` makes them visible: it is
the backend together with a list of them.  One step is `compile_cases`; `compileAll_drives` is the run.
-/

namespace ScriptFrontend

/-! ## Scripts -/

structure Script where
  text : String
  file : String

namespace Script

def scanned (script : Script) : Scanned := scan ⟨script.file, 0⟩ script.text

def parsed (script : Script) : Parsed := parse script.scanned.tokens

/-- A script of which neither scanning nor parsing reports anything. -/
def Accepted (script : Script) : Prop := script.scanned.errors = [] ∧ script.parsed.reports = []

instance (script : Script) : Decidable script.Accepted :=
  inferInstanceAs (Decidable (_ ∧ _))

/-- Which errors there are for a script that is not accepted.  What scanning reports is never joined by
    what parsing would report. -/
inductive Complaint (script : Script) : CompileError → Prop where
  | lexical {diagnostics : List Diagnostic} : script.scanned.errors ≠ [] → diagnostics ≠ [] →
      diagnostics = script.scanned.errors.map LexicalError.toDiagnostic →
      (∀ diagnostic ∈ diagnostics, diagnostic.stage = .lexical) → Complaint script (.lexical diagnostics)
  | parse {diagnostics : List Diagnostic} : script.scanned.errors = [] → diagnostics ≠ [] →
      diagnostics = script.parsed.reports.map Report.toDiagnostic →
      (∀ diagnostic ∈ diagnostics, diagnostic.stage = .parse) → Complaint script (.parse diagnostics)

/-- What it means that a script is turned away with an error: every entry point gives it. -/
structure Rejected (script : Script) (error : CompileError) : Prop where
  complaint : script.Complaint error
  emit_eq : emit script.text script.file = .error error
  printTree_eq : printTree script.text script.file = .error error

end Script

/-! ## Runs -/

/-- A program that reached a backend, and what was asked of the backend. -/
abbrev Call := Host.Program × BuildRequest

/-- A backend with a list of the calls that have reached it. -/
def Backend.recording {σ : Type} (backend : Backend σ) : Backend (σ × List Call) where
  build program request := fun (state, calls) =>
    let (verdict, after) := backend.build program request state
    (verdict, after, calls ++ [(program, request)])
  render := backend.render

/-- Scripts compiled in order, with one backend for all of them. -/
def compileAll {σ : Type} (backend : Backend σ) (settings : Settings) (scripts : List Script) :
    StateM σ (List (Except CompileError Verdict)) :=
  scripts.mapM fun script => compile backend settings.buildRequest script.text script.file

/-- What a verdict is answered with: itself, or its messages as they are. -/
inductive Verdict.Answers (verdict : Verdict) : Except CompileError Verdict → Prop where
  | success : verdict.success = true → Answers verdict (.ok verdict)
  | failure {diagnostics : List Diagnostic} : verdict.success = false →
      diagnostics.map Diagnostic.message = verdict.messages →
      (∀ diagnostic ∈ diagnostics, diagnostic.stage = .compile ∧ diagnostic.render = diagnostic.message) →
      Answers verdict (.error (.backend diagnostics))

/-- What a run comes to: the answer for each script, the state of the backend in the end, and the calls
    that have reached it. -/
inductive Drives {σ : Type} (backend : Backend σ) (settings : Settings) :
    σ → List Script → List (Except CompileError Verdict) → σ → List Call → Prop where
  | finish {state : σ} : Drives backend settings state [] [] state []
  | rejected {state final : σ} {script : Script} {scripts : List Script} {error : CompileError}
      {results : List (Except CompileError Verdict)} {calls : List Call} :
      ¬ script.Accepted → script.Rejected error →
      Drives backend settings state scripts results final calls →
      Drives backend settings state (script :: scripts) (.error error :: results) final calls
  | built {state after final : σ} {script : Script} {scripts : List Script} {program : Host.Program}
      {verdict : Verdict} {result : Except CompileError Verdict}
      {results : List (Except CompileError Verdict)} {calls : List Call} :
      script.Accepted → emit script.text script.file = .ok program →
      (backend.build program ⟨settings.references, settings.output⟩).run state = (verdict, after) →
      verdict.Answers result → Drives backend settings after scripts results final calls →
      Drives backend settings state (script :: scripts) (result :: results) final
        ((program, ⟨settings.references, settings.output⟩) :: calls)

/-! ## The front end -/

theorem Report.toDiagnostic_stage (report : Report) : report.toDiagnostic.stage = .parse := by
  cases report <;> rfl

theorem frontEnd_of_accepted {script : Script} (accepted : script.Accepted) :
    frontEnd script.text script.file = .ok script.parsed.statements := by
  obtain ⟨scanned, parsed⟩ := accepted
  simp only [Script.parsed, Script.scanned] at scanned parsed
  simp only [frontEnd, scanned, parsed, ne_eq, not_true_eq_false, if_false]
  rfl

theorem frontEnd_of_rejected {script : Script} (rejected : ¬ script.Accepted) :
    ∃ error, frontEnd script.text script.file = .error error ∧ script.Complaint error := by
  by_cases scanned : script.scanned.errors = []
  · have reported : script.parsed.reports ≠ [] := fun parsed => rejected ⟨scanned, parsed⟩
    refine ⟨.parse (script.parsed.reports.map Report.toDiagnostic), ?_, ?_⟩
    · simp only [Script.parsed, Script.scanned] at scanned reported
      simp only [frontEnd, scanned, reported, ne_eq, not_true_eq_false, not_false_eq_true, if_false, if_true]
      rfl
    · apply Script.Complaint.parse scanned (by simpa using reported) rfl
      intro diagnostic member
      obtain ⟨report, -, rfl⟩ := List.mem_map.mp member
      exact report.toDiagnostic_stage
  · refine ⟨.lexical (script.scanned.errors.map LexicalError.toDiagnostic), if_pos scanned, ?_⟩
    apply Script.Complaint.lexical scanned (by simpa using scanned) rfl
    intro diagnostic member
    obtain ⟨error, -, rfl⟩ := List.mem_map.mp member
    rfl

theorem rejected_of_frontEnd {script : Script} {error : CompileError}
    (stopped : frontEnd script.text script.file = .error error) (complaint : script.Complaint error) :
    script.Rejected error where
  complaint := complaint
  emit_eq := by rw [emit, stopped]; rfl
  printTree_eq := by rw [printTree, stopped]; rfl

/-- An accepted script has a program: what was parsed can be lowered. -/
theorem emit_of_accepted {script : Script} (accepted : script.Accepted) :
    ∃ program, emit script.text script.file = .ok program := by
  have stratified : ∀ statement ∈ script.parsed.statements, Grammar.StratifiedAction statement.action :=
    fun _ => stratified_of_mem_parse
  obtain ⟨body, lowered⟩ := lower_eq_ok script.file stratified
  exact ⟨_, by rw [emit, frontEnd_of_accepted accepted]; simp only [bind, Except.bind, lowered]; rfl⟩

/-! ## One script -/

/-- The answer to a verdict. -/
def Verdict.answer (verdict : Verdict) : Except CompileError Verdict :=
  if verdict.success then .ok verdict else .error (.backend (verdict.messages.map Diagnostic.compile))

theorem Verdict.answers (verdict : Verdict) : verdict.Answers verdict.answer := by
  cases success : verdict.success with
  | true =>
    rw [answer, success]
    exact .success success
  | false =>
    rw [answer, success]
    apply Answers.failure success
    · simp [Function.comp_def, Diagnostic.compile]
    · intro diagnostic member
      obtain ⟨message, -, rfl⟩ := List.mem_map.mp member
      exact ⟨rfl, rfl⟩

theorem compile_of_rejected {σ : Type} (backend : Backend σ) (request : BuildRequest) {script : Script}
    {error : CompileError} (rejected : script.Rejected error) (state : σ) :
    (compile backend request script.text script.file).run state = (.error error, state) := by
  simp only [compile, rejected.emit_eq]
  rfl

theorem compile_of_emit {σ : Type} (backend : Backend σ) (request : BuildRequest) {script : Script}
    {program : Host.Program} (emitted : emit script.text script.file = .ok program) (state : σ) :
    (compile backend request script.text script.file).run state =
      let (verdict, after) := (backend.build program request).run state
      (verdict.answer, after) := by
  simp only [compile, emitted, Verdict.answer, StateT.run_bind]
  cases (backend.build program request).run state with
  | mk verdict after =>
    change (if verdict.success then _ else _ : StateM σ _).run after =
      (if verdict.success then _ else _, after)
    cases verdict.success <;> rfl

/-- A script is turned away with an error, or it is accepted and has a program. -/
theorem compile_cases (script : Script) :
    (¬ script.Accepted ∧ ∃ error, script.Rejected error) ∨
      (script.Accepted ∧ ∃ program, emit script.text script.file = .ok program) := by
  by_cases accepted : script.Accepted
  · exact .inr ⟨accepted, emit_of_accepted accepted⟩
  · obtain ⟨error, stopped, complaint⟩ := frontEnd_of_rejected accepted
    exact .inl ⟨accepted, error, rejected_of_frontEnd stopped complaint⟩

/-! ## Many scripts -/

theorem compileAll_cons {σ : Type} (backend : Backend σ) (settings : Settings) (script : Script)
    (scripts : List Script) (state : σ) :
    (compileAll backend settings (script :: scripts)).run state =
      let (result, after) := (compile backend settings.buildRequest script.text script.file).run state
      let (results, final) := (compileAll backend settings scripts).run after
      (result :: results, final) := by
  simp only [compileAll, List.mapM_cons, StateT.run_bind, StateT.run_pure]
  rfl

theorem drives_compileAll {σ : Type} (backend : Backend σ) (settings : Settings) (scripts : List Script)
    (state : σ) :
    ∃ results final calls, (compileAll backend settings scripts).run state = (results, final) ∧
      (∀ earlier, (compileAll backend.recording settings scripts).run (state, earlier) =
        (results, final, earlier ++ calls)) ∧
      Drives backend settings state scripts results final calls := by
  induction scripts generalizing state with
  | nil => exact ⟨[], state, [], rfl, fun earlier => by rw [List.append_nil]; rfl, .finish⟩
  | cons script scripts inductionHypothesis =>
    cases compile_cases script with
    | inl turnedAway =>
      obtain ⟨notAccepted, error, rejected⟩ := turnedAway
      obtain ⟨results, final, calls, ran, recorded, drives⟩ := inductionHypothesis state
      refine ⟨.error error :: results, final, calls, ?_, ?_, .rejected notAccepted rejected drives⟩
      · rw [compileAll_cons, compile_of_rejected _ _ rejected]
        simp only [ran]
      · intro earlier
        rw [compileAll_cons, compile_of_rejected _ _ rejected]
        simp only [recorded]
    | inr kept =>
      obtain ⟨accepted, program, emitted⟩ := kept
      cases built : (backend.build program settings.buildRequest).run state with
      | mk verdict after =>
        obtain ⟨results, final, calls, ran, recorded, drives⟩ := inductionHypothesis after
        refine ⟨verdict.answer :: results, final, (program, settings.buildRequest) :: calls, ?_, ?_,
          .built accepted emitted built verdict.answers drives⟩
        · rw [compileAll_cons, compile_of_emit _ _ emitted, built]
          simp only [ran]
        · intro earlier
          have noted : (backend.recording.build program settings.buildRequest).run (state, earlier) =
              (verdict, after, earlier ++ [(program, settings.buildRequest)]) := by
            simp only [StateT.run] at built
            simp only [StateT.run, Backend.recording, built]
          rw [compileAll_cons, compile_of_emit _ _ emitted, noted]
          simp only [recorded, List.append_assoc, List.singleton_append]

/-- The backend that renders keeps the text of the last program that reached it. -/
theorem Drives.last_rendered {settings : Settings} {state final : Option String} {scripts : List Script}
    {results : List (Except CompileError Verdict)} {calls : List Call}
    (drives : Drives renderBackend settings state scripts results final calls) :
    match (scripts.filter fun script => script.Accepted).getLast? with
    | none => final = state
    | some script => ∃ program, emit script.text script.file = .ok program ∧ final = some program.render := by
  induction drives with
  | finish => rfl
  | rejected notAccepted _ _ inductionHypothesis => simpa [notAccepted] using inductionHypothesis
  | @built state after final script scripts program _ _ _ _ accepted emitted built _ _ inductionHypothesis =>
    obtain rfl : some program.render = after := congrArg Prod.snd built
    simp only [accepted, decide_true, List.filter_cons_of_pos, List.getLast?_cons]
    cases last : (scripts.filter fun script => script.Accepted).getLast? with
    | none =>
      rw [last] at inductionHypothesis
      exact ⟨program, emitted, inductionHypothesis⟩
    | some later =>
      rw [last] at inductionHypothesis
      exact inductionHypothesis

/-- Whatever the backend does, a run of scripts is driven as `Drives` says, and the calls are those that
    reach the backend.  The backend that renders has in the end the text of the last accepted script, and
    nothing if there is none. -/
theorem compileAll_drives (settings : Settings) (scripts : List Script) :
    (∀ {σ : Type} (backend : Backend σ) (state : σ), ∃ results final calls,
      (compileAll backend settings scripts).run state = (results, final) ∧
      (compileAll backend.recording settings scripts).run (state, []) = (results, final, calls) ∧
      Drives backend settings state scripts results final calls) ∧
    match (scripts.filter fun script => script.Accepted).getLast? with
    | none => ((compileAll renderBackend settings scripts).run none).2 = none
    | some script => ∃ program, emit script.text script.file = .ok program ∧
        ((compileAll renderBackend settings scripts).run none).2 = some program.render := by
  refine ⟨?_, ?_⟩
  · intro σ backend state
    obtain ⟨results, final, calls, ran, recorded, drives⟩ := drives_compileAll backend settings scripts state
    exact ⟨results, final, calls, ran, recorded [], drives⟩
  · obtain ⟨results, final, calls, ran, -, drives⟩ := drives_compileAll renderBackend settings scripts none
    rw [ran]
    exact drives.last_rendered

end ScriptFrontend
