import LinearModel.Program.Solve
import LinearModel.Proofs.Solver.Calls

/-!
# How a session ends

A session loads a problem, solves it, fetches the optimum and lets go of the solver. Any of these
steps may fail, and a solver may finish without an optimum. `Solver.Ends` states in which of the six
ways a session ends, from what the solver answers step by step.

* `exists_ends` — every session ends in one of these ways
* `Ends.session_eq` — what the session hands over, and that the solver is let go of
* `Ends.recording` — the calls that are made until then
-/

namespace LinearModel

variable {σ α : Type}

/-- What comes of a session: the step that has not gone on, or all that was to be fetched. -/
inductive Ending where
  | notLoaded (error : SolverError)
  | notSolved (error : SolverError)
  | notOptimal (status : Status)
  | noObjectiveValue (error : SolverError)
  | noValues (error : SolverError)
  | fetched (objectiveValue : Binary64) (values : List Binary64)

namespace Ending

/-- The calls that are made after loading and before the solver is let go. -/
def calls : Ending → List SolverCall
  | notLoaded _ => []
  | notSolved _ | notOptimal _ => [.solve]
  | noObjectiveValue _ => [.solve, .objectiveValue]
  | noValues _ | fetched _ _ => [.solve, .objectiveValue, .variableValues]

theorem release_notMem_calls (ending : Ending) : SolverCall.release ∉ ending.calls := by
  cases ending <;> simp [calls]

/-- The status that the solver has reported, if it has. -/
def status? : Ending → Option Status
  | notLoaded _ | notSolved _ => none
  | notOptimal status => some status
  | noObjectiveValue _ | noValues _ | fetched _ _ => some .optimal

/-- What the session hands over. -/
def answer :
    Ending → Except SolverError (Status × Option (Except SolverError (Binary64 × List Binary64)))
  | notLoaded error | notSolved error => .error error
  | notOptimal status => .ok (status, none)
  | noObjectiveValue error | noValues error => .ok (.optimal, some (.error error))
  | fetched objectiveValue values => .ok (.optimal, some (.ok (objectiveValue, values)))

end Ending

namespace Solver

/-- A session on the problem that starts from `state` ends in this way, and the solver is in the
state `reached` when it is let go. -/
inductive Ends (solver : Solver σ) (problem : FlatProblem) (state : σ) : Ending → σ → Prop
  | notLoaded {error : SolverError} {reached : σ}
      (hload : solver.load problem state = (.error error, reached)) :
      Ends solver problem state (.notLoaded error) reached
  | notSolved {loaded reached : σ} {error : SolverError}
      (hload : solver.load problem state = (.ok (), loaded))
      (hsolve : solver.solve loaded = (.error error, reached)) :
      Ends solver problem state (.notSolved error) reached
  | notOptimal {loaded reached : σ} {status : Status}
      (hload : solver.load problem state = (.ok (), loaded))
      (hsolve : solver.solve loaded = (.ok status, reached)) (hstatus : status ≠ .optimal) :
      Ends solver problem state (.notOptimal status) reached
  | noObjectiveValue {loaded solved reached : σ} {error : SolverError}
      (hload : solver.load problem state = (.ok (), loaded))
      (hsolve : solver.solve loaded = (.ok .optimal, solved))
      (hvalue : solver.objectiveValue solved = (.error error, reached)) :
      Ends solver problem state (.noObjectiveValue error) reached
  | noValues {loaded solved valued reached : σ} {objectiveValue : Binary64} {error : SolverError}
      (hload : solver.load problem state = (.ok (), loaded))
      (hsolve : solver.solve loaded = (.ok .optimal, solved))
      (hvalue : solver.objectiveValue solved = (.ok objectiveValue, valued))
      (hvalues : solver.variableValues valued = (.error error, reached)) :
      Ends solver problem state (.noValues error) reached
  | fetched {loaded solved valued reached : σ} {objectiveValue : Binary64} {values : List Binary64}
      (hload : solver.load problem state = (.ok (), loaded))
      (hsolve : solver.solve loaded = (.ok .optimal, solved))
      (hvalue : solver.objectiveValue solved = (.ok objectiveValue, valued))
      (hvalues : solver.variableValues valued = (.ok values, reached)) :
      Ends solver problem state (.fetched objectiveValue values) reached

/-- **Every session ends.** -/
theorem exists_ends (solver : Solver σ) (problem : FlatProblem) (state : σ) :
    ∃ ending reached, solver.Ends problem state ending reached := by
  rcases hload : solver.load problem state with ⟨error | ⟨⟩, loaded⟩
  · exact ⟨_, _, .notLoaded hload⟩
  rcases hsolve : solver.solve loaded with ⟨error | status, solved⟩
  · exact ⟨_, _, .notSolved hload hsolve⟩
  by_cases hstatus : status = .optimal
  · rw [hstatus] at hsolve
    rcases hvalue : solver.objectiveValue solved with ⟨error | objectiveValue, valued⟩
    · exact ⟨_, _, .noObjectiveValue hload hsolve hvalue⟩
    rcases hvalues : solver.variableValues valued with ⟨error | values, reached⟩
    · exact ⟨_, _, .noValues hload hsolve hvalue hvalues⟩
    · exact ⟨_, _, .fetched hload hsolve hvalue hvalues⟩
  · exact ⟨_, _, .notOptimal hload hsolve hstatus⟩

variable {solver : Solver σ} {problem : FlatProblem} {state reached : σ} {ending : Ending}

/-! ## What the session hands over -/

theorem attempt_eq {step : SolverStep σ α} {next : σ} {answer : Except SolverError α}
    (h : step state = (answer, next)) : step.attempt state = (.ok answer, next) := by
  rw [SolverStep.attempt, h]

theorem solveAndFetch_of_optimal {solved : σ} (hsolve : solver.solve state = (.ok .optimal, solved))
    {answer : Except SolverError (Binary64 × List Binary64)}
    (hfetch : (do
      let objectiveValue ← solver.objectiveValue
      let values ← solver.variableValues
      return (objectiveValue, values) : SolverStep σ _) solved = (answer, reached)) :
    solver.solveAndFetch state = (.ok (.optimal, some answer), reached) := by
  rw [solveAndFetch, SolverStep.bind_ok hsolve, if_pos rfl, SolverStep.bind_ok (attempt_eq hfetch)]
  rfl

theorem Ends.run_eq (h : solver.Ends problem state ending reached) :
    (do solver.load problem; solver.solveAndFetch : SolverStep σ _) state
      = (ending.answer, reached) := by
  cases h with
  | notLoaded hload => exact SolverStep.bind_error hload _
  | notSolved hload hsolve =>
    rw [SolverStep.bind_ok hload]
    exact SolverStep.bind_error hsolve _
  | notOptimal hload hsolve hstatus =>
    rw [SolverStep.bind_ok hload, solveAndFetch, SolverStep.bind_ok hsolve, if_neg hstatus]
    rfl
  | noObjectiveValue hload hsolve hvalue =>
    rw [SolverStep.bind_ok hload]
    exact solveAndFetch_of_optimal hsolve (SolverStep.bind_error hvalue _)
  | noValues hload hsolve hvalue hvalues =>
    rw [SolverStep.bind_ok hload]
    refine solveAndFetch_of_optimal hsolve ?_
    rw [SolverStep.bind_ok hvalue]
    exact SolverStep.bind_error hvalues _
  | fetched hload hsolve hvalue hvalues =>
    rw [SolverStep.bind_ok hload]
    refine solveAndFetch_of_optimal hsolve ?_
    rw [SolverStep.bind_ok hvalue, SolverStep.bind_ok hvalues]
    rfl

/-- **However a session ends, the solver is let go of.** -/
theorem Ends.session_eq (h : solver.Ends problem state ending reached) :
    solver.session problem solver.solveAndFetch state
      = (ending.answer, solver.release reached) := by
  rw [session, h.run_eq]

/-! ## What the session asks for -/

/-- **A recording solver ends its session as the solver inside does**, and it has noted the calls of
loading and then those of the ending. -/
theorem Ends.recording (h : solver.Ends problem state ending reached) (past : List SolverCall) :
    solver.recording.Ends problem ⟨state, past⟩ ending
      ⟨reached, past ++ solver.loadCalls problem state ++ ending.calls⟩ := by
  have hnoted := load_recording solver problem state past
  generalize past ++ solver.loadCalls problem state = calls at hnoted ⊢
  cases h with
  | notLoaded hload =>
    rw [hload] at hnoted
    simpa [Ending.calls] using Ends.notLoaded hnoted
  | notSolved hload hsolve =>
    rw [hload] at hnoted
    exact .notSolved hnoted (note_eq hsolve .solve calls)
  | notOptimal hload hsolve hstatus =>
    rw [hload] at hnoted
    exact .notOptimal hnoted (note_eq hsolve .solve calls) hstatus
  | noObjectiveValue hload hsolve hvalue =>
    rw [hload] at hnoted
    have hends := Ends.noObjectiveValue hnoted (note_eq hsolve .solve calls)
      (note_eq hvalue .objectiveValue _)
    simpa [Ending.calls] using hends
  | noValues hload hsolve hvalue hvalues =>
    rw [hload] at hnoted
    have hends := Ends.noValues hnoted (note_eq hsolve .solve calls)
      (note_eq hvalue .objectiveValue _) (note_eq hvalues .variableValues _)
    simpa [Ending.calls] using hends
  | fetched hload hsolve hvalue hvalues =>
    rw [hload] at hnoted
    have hends := Ends.fetched hnoted (note_eq hsolve .solve calls)
      (note_eq hvalue .objectiveValue _) (note_eq hvalues .variableValues _)
    simpa [Ending.calls] using hends

end Solver

end LinearModel
