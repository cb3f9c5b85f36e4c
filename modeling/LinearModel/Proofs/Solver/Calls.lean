import LinearModel.Solver.Recording

/-!
# The calls of loading

Loading asks a solver for one thing after the other and stops at the first that fails. The things
that can be asked for are `SolverCall`s, so the calls of loading are a list that is cut after the
first failing one, and nothing at all where integer variables are refused.

* `load_eq_forM` — loading makes the calls of the problem one after the other
* `load_recording` — a recording solver loads as the solver inside does, and notes these calls
* `loadCalls_isPrefix`, `loadCalls_eq_calls` — these are the first calls of the problem, and all of
  them if loading succeeds
-/

namespace LinearModel

variable {σ : Type}

/-! ## What is asked for -/

/-- The calls that build a flat problem. -/
def FlatProblem.calls (problem : FlatProblem) : List SolverCall :=
  [.create problem.variableCount, .setIntegers problem.integers, .setLower problem.lower,
    .setUpper problem.upper, .setObjective problem.objective, .setSense problem.sense]
  ++ problem.rows.map .appendRow ++ [.setScaling problem.scale]

theorem FlatProblem.release_notMem_calls (problem : FlatProblem) :
    SolverCall.release ∉ problem.calls := by
  simp [calls]

/-- The step without its answer. -/
def SolverStep.silent {α : Type} (step : SolverStep σ α) : SolverStep σ Unit :=
  fun state => ((step state).1.map fun _ => (), (step state).2)

namespace Solver

/-- What the solver does when it is called so. -/
def step (solver : Solver σ) : SolverCall → SolverStep σ Unit
  | .create n => solver.create n
  | .setIntegers indices => solver.setIntegers indices
  | .setLower bounds => solver.setLower bounds
  | .setUpper bounds => solver.setUpper bounds
  | .setObjective coefficients => solver.setObjective coefficients
  | .setSense sense => solver.setSense sense
  | .appendRow row => solver.appendRow row
  | .setScaling scale => solver.setScaling scale
  | .solve => solver.solve.silent
  | .objectiveValue => solver.objectiveValue.silent
  | .variableValues => solver.variableValues.silent
  | .release => fun state => (.ok (), solver.release state)

/-- Of a list of calls those that are made: one after the other, up to the first that fails. -/
def made (solver : Solver σ) : List SolverCall → σ → List SolverCall
  | [], _ => []
  | call :: rest, state => call ::
    match solver.step call state with
    | (.ok (), next) => solver.made rest next
    | (.error _, _) => []

/-- The solver cannot have the integer variables that are asked for. -/
def refuses (solver : Solver σ) (problem : FlatProblem) (state : σ) : Bool :=
  !problem.integers.isEmpty && !solver.integerCapable state

/-- The calls that loading makes. -/
def loadCalls (solver : Solver σ) (problem : FlatProblem) (state : σ) : List SolverCall :=
  if solver.refuses problem state then [] else solver.made problem.calls state

theorem made_cons_ok {solver : Solver σ} {call : SolverCall} {state next : σ}
    (h : solver.step call state = (.ok (), next)) (rest : List SolverCall) :
    solver.made (call :: rest) state = call :: solver.made rest next := by
  rw [made, h]

theorem made_cons_error {solver : Solver σ} {call : SolverCall} {state next : σ}
    {error : SolverError} (h : solver.step call state = (.error error, next))
    (rest : List SolverCall) : solver.made (call :: rest) state = [call] := by
  rw [made, h]

theorem made_isPrefix (solver : Solver σ) (calls : List SolverCall) (state : σ) :
    solver.made calls state <+: calls := by
  induction calls generalizing state with
  | nil => exact List.prefix_rfl
  | cons call rest ih =>
    rcases h : solver.step call state with ⟨error | ⟨⟩, next⟩
    · rw [made_cons_error h]
      exact ⟨rest, rfl⟩
    · rw [made_cons_ok h]
      exact List.cons_prefix_cons.mpr ⟨rfl, ih next⟩

/-! ## Loading as a list of calls -/

theorem forM_cons_ok {solver : Solver σ} {call : SolverCall} {state next : σ}
    (h : solver.step call state = (.ok (), next)) (rest : List SolverCall) :
    (call :: rest).forM solver.step state = rest.forM solver.step next :=
  SolverStep.bind_ok h _

theorem forM_cons_error {solver : Solver σ} {call : SolverCall} {state next : σ}
    {error : SolverError} (h : solver.step call state = (.error error, next))
    (rest : List SolverCall) :
    (call :: rest).forM solver.step state = (.error error, next) :=
  SolverStep.bind_error h _

theorem load_eq_forM (solver : Solver σ) (problem : FlatProblem) (state : σ) :
    solver.load problem state =
      if solver.refuses problem state then (.error .integersUnsupported, state)
      else problem.calls.forM solver.step state := by
  have hget : (get : SolverStep σ σ) state = (.ok state, state) := rfl
  unfold load
  rw [SolverStep.bind_ok hget]
  unfold refuses
  split
  · rfl
  · simp only [FlatProblem.calls, List.forM_eq_forM, List.cons_append, List.nil_append,
      List.forM_cons, List.forM_append, List.forM_map, List.forM_nil, step, bind_pure_unit]

theorem made_eq_self {solver : Solver σ} {calls : List SolverCall} {state next : σ}
    (h : calls.forM solver.step state = (.ok (), next)) : solver.made calls state = calls := by
  induction calls generalizing state with
  | nil => rfl
  | cons call rest ih =>
    rcases hcall : solver.step call state with ⟨error | ⟨⟩, middle⟩
    · rw [forM_cons_error hcall] at h
      cases h
    · rw [forM_cons_ok hcall] at h
      rw [made_cons_ok hcall, ih h]

theorem loadCalls_isPrefix (solver : Solver σ) (problem : FlatProblem) (state : σ) :
    solver.loadCalls problem state <+: problem.calls := by
  unfold loadCalls
  split
  · exact List.nil_prefix
  · exact made_isPrefix ..

/-- A problem that is loaded has all its calls made. -/
theorem loadCalls_eq_calls {solver : Solver σ} {problem : FlatProblem} {state loaded : σ}
    (h : solver.load problem state = (.ok (), loaded)) :
    solver.loadCalls problem state = problem.calls := by
  rw [load_eq_forM] at h
  unfold loadCalls
  split at h
  · cases h
  · next hcapable =>
    rw [if_neg hcapable]
    exact made_eq_self h

/-! ## Recording -/

theorem step_recording (solver : Solver σ) (call : SolverCall) :
    solver.recording.step call = Recorded.note call (solver.step call) := by
  cases call <;> rfl

theorem note_eq {α : Type} {step : SolverStep σ α} {state next : σ}
    {answer : Except SolverError α} (h : step state = (answer, next)) (call : SolverCall)
    (past : List SolverCall) :
    Recorded.note call step ⟨state, past⟩ = (answer, ⟨next, past ++ [call]⟩) := by
  rw [Recorded.note]
  simp only [h]

theorem forM_recording (solver : Solver σ) (calls : List SolverCall) (state : σ)
    (past : List SolverCall) :
    calls.forM solver.recording.step ⟨state, past⟩
      = ((calls.forM solver.step state).1,
        ⟨(calls.forM solver.step state).2, past ++ solver.made calls state⟩) := by
  induction calls generalizing state past with
  | nil =>
    rw [made, List.append_nil]
    rfl
  | cons call rest ih =>
    rcases hcall : solver.step call state with ⟨error | ⟨⟩, next⟩
    · have hnoted := note_eq hcall call past
      rw [← step_recording] at hnoted
      rw [forM_cons_error hnoted, forM_cons_error hcall, made_cons_error hcall]
    · have hnoted := note_eq hcall call past
      rw [← step_recording] at hnoted
      rw [forM_cons_ok hnoted, ih, forM_cons_ok hcall, made_cons_ok hcall, List.append_assoc]
      rfl

/-- **A recording solver loads as the solver inside does**, and notes the calls of loading. -/
theorem load_recording (solver : Solver σ) (problem : FlatProblem) (state : σ)
    (past : List SolverCall) :
    solver.recording.load problem ⟨state, past⟩
      = ((solver.load problem state).1,
        ⟨(solver.load problem state).2, past ++ solver.loadCalls problem state⟩) := by
  have hrefuses : solver.recording.refuses problem ⟨state, past⟩ = solver.refuses problem state :=
    rfl
  rw [load_eq_forM, load_eq_forM, loadCalls, hrefuses]
  split
  · rw [List.append_nil]
  · exact forM_recording ..

end Solver

end LinearModel
