import LinearModel.Program.DefaultSolver
import LinearModel.Proofs.Layout.Places
import LinearModel.Proofs.Program.Assembly
import LinearModel.Proofs.Solver.Session

/-!
# Solving a program

Whatever a solver answers, solving a program keeps to one protocol and gives what the answers stand
for.

* `solve_calls` — what the solver is asked: nothing if there is no objective, and otherwise the
  calls of one session, whose last is the only release
* `solve_answer` — the solution that is read off the fetched vector, or the first error that is met;
  of the program only the status may change

Both go by the way in which the session ends (`Solver.Ends`): `solve_of_ends` gives the outcome of
each.
-/

namespace LinearModel

variable {σ : Type}

/-! ## What an ending stands for -/

namespace Ending

/-- The error that an ending stands for; only a vector of the right length stands for none. -/
def error? (layout : Layout) : Ending → Option ModelError
  | notLoaded error | notSolved error | noObjectiveValue error | noValues error =>
    some (.solver error)
  | notOptimal status => some (.notOptimal status)
  | fetched _ values =>
    if values.length = layout.dimension then none
    else some (.lengthMismatch layout.dimension values.length)

/-- What a program answers after a session that has ended so. -/
def result (layout : Layout) : Ending → Except ModelError Solution
  | notLoaded error | notSolved error | noObjectiveValue error | noValues error =>
    .error (.solver error)
  | notOptimal status => .error (.notOptimal status)
  | fetched objectiveValue values =>
    (layout.split values).map fun arrays => ⟨.optimal, objectiveValue, arrays⟩

variable {layout : Layout} {ending : Ending}

theorem result_eq_ok_iff (hwf : layout.WellFormed) {solution : Solution} :
    ending.result layout = .ok solution ↔ solution.status = .optimal ∧ ∃ flat,
      ending = .fetched solution.objectiveValue flat ∧ layout.ReadsOff flat solution.values := by
  constructor
  · intro h
    cases ending with
    | fetched objectiveValue flat =>
      rw [result] at h
      cases hsplit : layout.split flat with
      | error error => rw [hsplit] at h; cases h
      | ok arrays =>
        rw [hsplit] at h
        rw [← Except.ok.inj h]
        exact ⟨rfl, flat, rfl, hwf.split_eq_ok_iff.mp hsplit⟩
    | _ => cases h
  · rintro ⟨hstatus, flat, rfl, hread⟩
    rw [result, hwf.split_eq_ok_iff.mpr hread, ← hstatus]
    rfl

theorem result_eq_error_iff (hwf : layout.WellFormed) {error : ModelError} :
    ending.result layout = .error error ↔ ending.error? layout = some error := by
  cases ending with
  | fetched objectiveValue flat =>
    by_cases hlen : flat.length = layout.dimension
    · obtain ⟨arrays, hsplit, -⟩ := hwf.exists_readsOff hlen
      simp [result, error?, hsplit, hlen, Except.map]
    · simp [result, error?, Layout.split_eq_error hlen, hlen, Except.map]
  | _ => simp [result, error?]

end Ending

/-! ## Outcomes -/

namespace Program

theorem flatProblem_eq_error {program : Program} (h : program.objective = none)
    (config : Configuration) (scale : Bool) :
    program.flatProblem config scale = .error .noObjective := by
  rw [flatProblem, h]

theorem exists_flatProblem {program : Program} (h : program.objective ≠ none)
    (config : Configuration) (scale : Bool) :
    ∃ problem, program.flatProblem config scale = .ok problem := by
  obtain ⟨objective, hobjective⟩ := Option.ne_none_iff_exists'.mp h
  rw [flatProblem, hobjective]
  exact ⟨_, rfl⟩

theorem solve_of_none {program : Program} (h : program.objective = none) (config : Configuration)
    (solver : Solver σ) (scale : Bool) (state : σ) :
    program.solve config solver scale state = (.error .noObjective, program, state) := by
  rw [solve, flatProblem_eq_error h]

/-- **What a session comes to.** Its ending decides the answer and the status, and the solver is let
go of. -/
theorem solve_of_ends {program : Program} {config : Configuration} {scale : Bool}
    {problem : FlatProblem} (hproblem : program.flatProblem config scale = .ok problem)
    {solver : Solver σ} {state reached : σ} {ending : Ending}
    (h : solver.Ends problem state ending reached) :
    program.solve config solver scale state
      = (ending.result program.layout,
        { program with status := ending.status?.getD program.status }, solver.release reached) := by
  rw [solve, hproblem]
  simp only [h.session_eq]
  cases ending with
  | fetched objectiveValue flat =>
    simp only [Ending.answer, readSolution, Ending.result]
    cases program.layout.split flat <;> rfl
  | _ => rfl

/-- The same of a recording solver, whose calls are known as well. -/
theorem solve_recording_of_ends {program : Program} {config : Configuration} {scale : Bool}
    {problem : FlatProblem} (hproblem : program.flatProblem config scale = .ok problem)
    {solver : Solver σ} {state reached : σ} {ending : Ending}
    (h : solver.Ends problem state ending reached) (past : List SolverCall) :
    program.solve config solver.recording scale ⟨state, past⟩
      = (ending.result program.layout,
        { program with status := ending.status?.getD program.status },
        ⟨solver.release reached,
          past ++ (solver.loadCalls problem state ++ ending.calls ++ [.release])⟩) := by
  rw [solve_of_ends hproblem (h.recording past)]
  simp [Solver.recording]

/-! ## What the solver is asked -/

/-- **Solving keeps to the protocol**, whatever the solver answers. Nothing is asked exactly if
there is no objective. Otherwise the solver is asked to load the flat problem; then, only if it has
loaded it, to solve it; then, only from an optimum, for the objective value and, only if it gives
it, for the values; and last, in every case and once, to release what it has. Recording changes
nothing of what is answered. If the objective to solve for is rejected, nothing is asked. -/
theorem solve_calls (config : Configuration) (solver : Solver σ) (scale : Bool) (program : Program)
    (state : σ) (past : List SolverCall) :
    let plain := program.solve config solver scale state
    let recorded := program.solve config solver.recording scale ⟨state, past⟩
    (recorded.1 = plain.1 ∧ recorded.2.1 = plain.2.1 ∧ recorded.2.2.state = plain.2.2)
      ∧ (recorded.2.2.calls = past ↔ program.objective = none)
      ∧ (program.objective = none → recorded = (.error .noObjective, program, ⟨state, past⟩))
      ∧ (program.objective ≠ none → ∃ problem ending reached,
        program.flatProblem config scale = .ok problem
          ∧ solver.Ends problem state ending reached
          ∧ recorded.2.2.calls
            = past ++ (solver.loadCalls problem state ++ ending.calls ++ [.release])
          ∧ .release ∉ solver.loadCalls problem state ++ ending.calls
          ∧ (solver.recording.load problem ⟨state, past⟩).2.calls
            = past ++ solver.loadCalls problem state
          ∧ solver.loadCalls problem state <+: problem.calls
          ∧ ∀ loaded, solver.load problem state = (.ok (), loaded) →
            solver.loadCalls problem state = problem.calls)
      ∧ ∀ arrays sense error next,
        program.setObjective config arrays sense = (.error error, next) →
        program.solveFor config solver.recording arrays sense scale ⟨state, past⟩
          = (.error error, next, ⟨state, past⟩) := by
  intro plain recorded
  have hrejected : ∀ arrays sense error next,
      program.setObjective config arrays sense = (.error error, next) →
      program.solveFor config solver.recording arrays sense scale ⟨state, past⟩
        = (.error error, next, ⟨state, past⟩) := by
    intro arrays sense error next hset
    rw [solveFor, hset]
  by_cases hobjective : program.objective = none
  · have hplain : plain = _ := solve_of_none hobjective config solver scale state
    have hrecorded : recorded = _ :=
      solve_of_none hobjective config solver.recording scale ⟨state, past⟩
    rw [hplain, hrecorded]
    exact ⟨⟨rfl, rfl, rfl⟩, ⟨fun _ => hobjective, fun _ => rfl⟩, fun _ => rfl,
      fun h => absurd hobjective h, hrejected⟩
  · obtain ⟨problem, hproblem⟩ := exists_flatProblem hobjective config scale
    obtain ⟨ending, reached, hends⟩ := solver.exists_ends problem state
    have hplain : plain = _ := solve_of_ends hproblem hends
    have hrecorded : recorded = _ := solve_recording_of_ends hproblem hends past
    have hinit := solver.loadCalls_isPrefix problem state
    rw [hplain, hrecorded]
    refine ⟨⟨rfl, rfl, rfl⟩, by simp [hobjective], fun h => absurd h hobjective, fun _ => ?_,
      hrejected⟩
    refine ⟨problem, ending, reached, hproblem, hends, rfl, ?_, ?_, hinit, ?_⟩
    · rw [List.mem_append, not_or]
      exact ⟨fun h => problem.release_notMem_calls (hinit.subset h), ending.release_notMem_calls⟩
    · rw [Solver.load_recording]
    · exact fun loaded hload => Solver.loadCalls_eq_calls hload

/-- A solver that has no integer variables is asked for nothing but to let go. -/
example :
    let block : Block := ⟨[2], .uniform .zero, .uniform .zero, .integer⟩
    let program := (run [.write (.objective [] .minimize)]
      ⟨.ofLayout (.ofAttempts [("x", block)]), {}⟩).program
    let solver := { defaultSolver {} with integerCapable := fun _ => false }
    (program.solve {} solver.recording true ⟨.empty, []⟩).2.2.calls = [.release] := by
  decide

/-! ## What is answered -/

/-- **The answer is what the solver's answers stand for.** A reachable program with an objective is
answered with a solution exactly if the problem is loaded and solved with an optimum, objective
value and values are fetched and there is one value for each variable. The solution has the fetched
objective value, and one array for each block in the order of the blocks, whose elements are those
at the flat places of the vector. Otherwise the answer is the error of the ending. The program stays
but for its status, which is the one that the solver has reported, if it has. -/
theorem solve_answer {program : Program} (hreach : program.Reachable) {objective : Objective}
    (hobjective : program.objective = some objective) (config : Configuration) (solver : Solver σ)
    (scale : Bool) (state : σ) :
    let answer := (program.solve config solver scale state).1
    let after := (program.solve config solver scale state).2.1
    ∃ problem, program.flatProblem config scale = .ok problem
      ∧ ((∃ solution, answer = .ok solution) ↔ ∃ objectiveValue flat reached,
        solver.Ends problem state (.fetched objectiveValue flat) reached
          ∧ flat.length = program.layout.dimension)
      ∧ (∀ solution, answer = .ok solution ↔ solution.status = .optimal ∧ ∃ flat reached,
        solver.Ends problem state (.fetched solution.objectiveValue flat) reached
          ∧ program.layout.ReadsOff flat solution.values)
      ∧ (∀ error, answer = .error error ↔ ∃ ending reached,
        solver.Ends problem state ending reached ∧ ending.error? program.layout = some error)
      ∧ ∃ ending reached, solver.Ends problem state ending reached
        ∧ after = { program with status := ending.status?.getD program.status } := by
  intro answer after
  have hwf := hreach.sound.layout
  have hsome : program.objective ≠ none := by simp [hobjective]
  obtain ⟨problem, hproblem⟩ := exists_flatProblem hsome config scale
  obtain ⟨ending, reached, hends⟩ := solver.exists_ends problem state
  -- whichever way the session is seen to end, this is the answer
  have hanswer : ∀ {other reached}, solver.Ends problem state other reached →
      answer = other.result program.layout := by
    intro other reached hother
    exact congrArg Prod.fst (solve_of_ends hproblem hother)
  have hok : ∀ solution, answer = .ok solution ↔ solution.status = .optimal ∧ ∃ flat reached,
      solver.Ends problem state (.fetched solution.objectiveValue flat) reached
        ∧ program.layout.ReadsOff flat solution.values := by
    intro solution
    constructor
    · intro h
      rw [hanswer hends, Ending.result_eq_ok_iff hwf] at h
      obtain ⟨hstatus, flat, rfl, hread⟩ := h
      exact ⟨hstatus, flat, reached, hends, hread⟩
    · rintro ⟨hstatus, flat, reached, hfetched, hread⟩
      rw [hanswer hfetched]
      exact (Ending.result_eq_ok_iff hwf).mpr ⟨hstatus, flat, rfl, hread⟩
  refine ⟨problem, hproblem, ⟨?_, ?_⟩, hok, fun error => ⟨?_, ?_⟩, ending, reached, hends, ?_⟩
  · rintro ⟨solution, h⟩
    obtain ⟨-, flat, reached, hfetched, hread⟩ := (hok solution).mp h
    exact ⟨_, flat, reached, hfetched, hread.length_eq⟩
  · rintro ⟨objectiveValue, flat, reached, hfetched, hlen⟩
    obtain ⟨arrays, -, hread⟩ := hwf.exists_readsOff hlen
    exact ⟨⟨.optimal, objectiveValue, arrays⟩, (hok _).mpr ⟨rfl, flat, reached, hfetched, hread⟩⟩
  · intro h
    rw [hanswer hends, Ending.result_eq_error_iff hwf] at h
    exact ⟨ending, reached, hends, h⟩
  · rintro ⟨other, reached, hother, herror⟩
    rw [hanswer hother]
    exact (Ending.result_eq_error_iff hwf).mpr herror
  · exact congrArg (fun outcome => outcome.2.1) (solve_of_ends hproblem hends)

/-- Three values for a block of two variables and one of one. -/
theorem solve_answer_two_blocks :
    let layout := Layout.ofAttempts [("x", .ofShape {} [2]), ("y", .scalar {})]
    let program := (run [.write (.objective [("y", .uniform .zero)] .minimize)]
      ⟨.ofLayout layout, {}⟩).program
    let solver : Solver Staging :=
      { defaultSolver {} with
        solve := fun state => (.ok .optimal, state)
        objectiveValue := fun state => (.ok .negZero, state)
        variableValues := fun state => (.ok [.ofInt 5, .ofInt 7, .ofInt 9], state) }
    let arrays : Named Tensor :=
      [("x", Tensor.ofList [.ofInt 5, .ofInt 7]), ("y", Tensor.ofList [.ofInt 9])]
    (program.solve {} solver true .empty).1 = .ok ⟨.optimal, .negZero, arrays⟩ := by
  intro layout program solver arrays
  have hreach : program.Reachable := ⟨_, _, _, rfl⟩
  obtain ⟨objective, hobjective⟩ : ∃ objective, program.objective = some objective := ⟨_, rfl⟩
  obtain ⟨problem, hproblem, -, hok, -⟩ := solve_answer hreach hobjective {} solver true .empty
  obtain ⟨whole, hwhole, hcarries⟩ := hreach.sound.exists_flatProblem hobjective {} true
  have hsame : whole = problem := Except.ok.inj (hwhole.symm.trans hproblem)
  have hload : solver.load problem .empty = (.ok (), ⟨some (.ofFlat problem), none⟩) :=
    Staging.load_eq_ok (hsame ▸ hcarries.coherent) "microlp" Exact.backend {} .empty
  have hread : program.layout.split [.ofInt 5, .ofInt 7, .ofInt 9] = .ok arrays := rfl
  exact (hok _).mpr ⟨rfl, _, _, .fetched hload rfl rfl rfl,
    hreach.sound.layout.split_eq_ok_iff.mp hread⟩

end Program

end LinearModel
