import LinearModel.Proofs.Solver.Sizes
import Mathlib.Data.List.Induction
import Mathlib.Order.Basic

/-!
# Staging solvers over time

A staging solver is worked on by requests, single calls and whole problems to load, in any order and
whether or not they succeed, each under the configuration of its moment. `reached` is the state that
a history of requests leaves behind.

* `Request.moves` — what one request does: it asks, begins a problem, changes a part of it, solves
  it, or lets go of it
* `reached_sizedBy` — all parts of a staged problem have the length of the problem begun last
* `finds_of_solution`, `solvedLast_iff` — a solution is one of the staged problem, and there is one
  exactly if the last request that does more than ask is a solve that has found an optimum
* `history_decides` — both together, and what is answered where the solution is asked for
-/

namespace LinearModel

/-- The call only asks for the solution. -/
def SolverCall.asks : SolverCall → Bool
  | objectiveValue | variableValues => true
  | _ => false

namespace Staging

/-! ## Requests -/

/-- A single call, or the calls that load a problem. -/
inductive Request where
  | single (call : SolverCall)
  | load (problem : FlatProblem)

/-- Requests, oldest first, each with the configuration in force at its moment. -/
abbrev History : Type := List (Configuration × Request)

namespace Request

/-- What a request leaves behind. -/
def perform (name : String) (backend : Backend) (config : Configuration) (state : Staging) :
    Request → Staging
  | .single call => ((solver name backend config).step call state).2
  | .load problem => ((solver name backend config).load problem state).2

/-- The number of variables, if a problem is begun. -/
def created? : Request → Option Nat
  | .single (.create n) => some n
  | .single _ => none
  | .load problem => some problem.variableCount

/-- The request only asks for the solution. -/
def asks : Request → Bool
  | .single call => call.asks
  | .load _ => false

end Request

/-- The state after all the requests, of a solver that was new before them. -/
def reached (name : String) (backend : Backend) (history : History) : Staging :=
  history.foldl (fun state entry => entry.2.perform name backend entry.1 state) .empty

/-- The number of variables of the problem that was begun last. -/
def created? (history : History) : Option Nat :=
  history.foldl (fun created entry => entry.2.created?.or created) none

variable {name : String} {backend : Backend} {config : Configuration}

/-! ## What one request does -/

/-- What a request does to the state of a staging solver. -/
inductive Moves (backend : Backend) (config : Configuration) : Request → Staging → Staging → Prop
  | asked {request : Request} {state : Staging} (hasks : request.asks = true)
      (hcreated : request.created? = none) : Moves backend config request state state
  | begun {request : Request} {state : Staging} {n : Nat} {problem : StagedProblem}
      (hcreated : request.created? = some n) (hsized : problem.Sized n) :
      Moves backend config request state ⟨some problem, none⟩
  | changed {call : SolverCall}
      {change : StagedProblem → Except SolverError Unit × StagedProblem}
      {problem : StagedProblem} {solution : Option StagedSolution}
      (hchange : call.change? = some change) :
      Moves backend config (.single call) ⟨some problem, solution⟩ ⟨some (change problem).2, none⟩
  | unchanged {call : SolverCall}
      {change : StagedProblem → Except SolverError Unit × StagedProblem}
      {solution : Option StagedSolution} (hchange : call.change? = some change) :
      Moves backend config (.single call) ⟨none, solution⟩ ⟨none, none⟩
  | solved {state : Staging} {problem : StagedProblem} {objectiveValue : Binary64}
      {value : Nat → Binary64} (hproblem : state.problem = some problem)
      (hoptimal : backend problem.boxed = .optimal objectiveValue value) :
      Moves backend config (.single .solve) state
        ⟨some problem, some (problem.report config.tolerance objectiveValue value)⟩
  | unsolved {state : Staging}
      (hnone : ∀ problem objectiveValue value, state.problem = some problem →
        backend problem.boxed ≠ .optimal objectiveValue value) :
      Moves backend config (.single .solve) state state
  | released {state : Staging} : Moves backend config (.single .release) state empty

theorem moves_change {call : SolverCall}
    {change : StagedProblem → Except SolverError Unit × StagedProblem}
    (hchange : call.change? = some change) (state : Staging) :
    Moves backend config (.single call) state
      ((solver name backend config).step call state).2 := by
  rw [step_of_change hchange]
  obtain ⟨problem | problem, solution⟩ := state
  · exact .unchanged hchange
  · exact .changed hchange

theorem ask_state {α : Type} (part : StagedSolution → α) (state : Staging) :
    (ask part state).2 = state := by
  obtain ⟨problem, solution | solution⟩ := state <;> rfl

theorem solve_of_optimal {state : Staging} {problem : StagedProblem} {objectiveValue : Binary64}
    {value : Nat → Binary64} (hproblem : state.problem = some problem)
    (hoptimal : backend problem.boxed = .optimal objectiveValue value) :
    (solver name backend config).solve state
      = (.ok .optimal,
        ⟨some problem, some (problem.report config.tolerance objectiveValue value)⟩) := by
  obtain ⟨staged, solution⟩ := state
  cases hproblem
  simp only [solver, solve, hoptimal]

/-- A solve either finds an optimum and keeps it, or leaves everything as it was. -/
theorem solve_cases (name : String) (backend : Backend) (config : Configuration)
    (state : Staging) :
    (∃ problem objectiveValue value, state.problem = some problem
        ∧ backend problem.boxed = .optimal objectiveValue value
        ∧ (solver name backend config).solve state = (.ok .optimal,
          ⟨some problem, some (problem.report config.tolerance objectiveValue value)⟩))
      ∨ (∀ problem objectiveValue value, state.problem = some problem →
          backend problem.boxed ≠ .optimal objectiveValue value)
        ∧ ∃ answer, answer ≠ .ok .optimal
          ∧ (solver name backend config).solve state = (answer, state) := by
  obtain ⟨problem | problem, solution⟩ := state
  · exact .inr ⟨by rintro _ _ _ ⟨⟩, _, by rintro ⟨⟩, rfl⟩
  rcases houtcome : backend problem.boxed with ⟨objectiveValue, value⟩ | _ | _ | _
  · exact .inl ⟨problem, objectiveValue, value, rfl, houtcome, solve_of_optimal rfl houtcome⟩
  all_goals
    refine .inr ⟨?_, ?_⟩
    · rintro _ _ _ ⟨⟩ hoptimal
      cases houtcome.symm.trans hoptimal
    · simp only [solver, solve, houtcome]
      exact ⟨_, by rintro ⟨⟩, rfl⟩

theorem moves_solve (state : Staging) :
    Moves backend config (.single .solve) state ((solver name backend config).solve state).2 := by
  rcases solve_cases name backend config state with
    ⟨problem, objectiveValue, value, hproblem, hoptimal, hsolve⟩ | ⟨hnone, answer, -, hsolve⟩ <;>
    rw [hsolve]
  · exact .solved hproblem hoptimal
  · exact .unsolved hnone

/-- Loading begins a problem, and what it has come to is staged also where it fails. -/
theorem moves_load (problem : FlatProblem) (state : Staging) :
    Moves backend config (.load problem) state
      ((solver name backend config).load problem state).2 := by
  obtain ⟨answer, next, hsized, hload, -⟩ := load_cases name backend config problem
  rw [hload]
  exact .begun rfl hsized

theorem Request.perform_of_asks {request : Request} (hasks : request.asks = true)
    (state : Staging) : request.perform name backend config state = state := by
  cases request with
  | load problem => cases hasks
  | single call =>
    cases call with
    | objectiveValue => exact ask_state StagedSolution.objectiveValue state
    | variableValues => exact ask_state StagedSolution.values state
    | _ => cases hasks

/-- **Every request moves the solver in one of these ways.** -/
theorem Request.moves (request : Request) (state : Staging) :
    Moves backend config request state (request.perform name backend config state) := by
  cases request with
  | load problem => exact moves_load problem state
  | single call =>
    cases call with
    | create n => exact .begun rfl (StagedProblem.sized_blank n)
    | solve => exact moves_solve state
    | objectiveValue | variableValues =>
      rw [Request.perform_of_asks rfl]
      exact .asked rfl rfl
    | release => exact .released
    | _ => exact moves_change rfl state

/-! ## Whole histories -/

theorem reached_concat (history : History) (entry : Configuration × Request) :
    reached name backend (history ++ [entry])
      = entry.2.perform name backend entry.1 (reached name backend history) := by
  rw [reached, List.foldl_concat]
  rfl

theorem reached_append_of_asks {after : History} (hafter : ∀ entry ∈ after, entry.2.asks = true)
    (history : History) :
    reached name backend (history ++ after) = reached name backend history := by
  induction after using List.reverseRecOn with
  | nil => rw [List.append_nil]
  | append_singleton after entry ih =>
    rw [← List.append_assoc, reached_concat, Request.perform_of_asks (hafter entry (by simp)),
      ih fun other hother => hafter other (List.mem_append_left _ hother)]

theorem created?_concat (history : History) (entry : Configuration × Request) :
    created? (history ++ [entry]) = entry.2.created?.or (created? history) := by
  rw [created?, List.foldl_concat]
  rfl

/-- The parts of a staged problem have the length that was asked for last. -/
def SizedBy (created : Option Nat) (state : Staging) : Prop :=
  ∀ problem, state.problem = some problem → ∃ n, created = some n ∧ problem.Sized n

theorem Moves.sizedBy {request : Request} {state next : Staging}
    (hmoves : Moves backend config request state next) {created : Option Nat}
    (h : SizedBy created state) : SizedBy (request.created?.or created) next := by
  cases hmoves with
  | asked _ hcreated =>
    rw [hcreated]
    exact h
  | begun hcreated hsized =>
    rintro _ ⟨⟩
    rw [hcreated]
    exact ⟨_, rfl, hsized⟩
  | @changed call _ _ _ hchange =>
    rintro _ ⟨⟩
    obtain ⟨n, rfl, hsized⟩ := h _ rfl
    cases call with
    | create n => cases hchange
    | _ => exact ⟨n, rfl, hsized.changed hchange⟩
  | unchanged | released => rintro _ ⟨⟩
  | solved hproblem => exact hproblem ▸ h
  | unsolved => exact h

theorem reached_sizedBy (name : String) (backend : Backend) (history : History) :
    SizedBy (created? history) (reached name backend history) := by
  induction history using List.reverseRecOn with
  | nil => rintro _ ⟨⟩
  | append_singleton history entry ih =>
    rw [reached_concat, created?_concat]
    exact (entry.2.moves _).sizedBy ih

/-! ## The last solve -/

/-- Since its last solve the history only asks, and that solve has answered with an optimum. -/
def SolvedLast (name : String) (backend : Backend) (history : History) : Prop :=
  ∃ before config after, history = before ++ (config, .single .solve) :: after
    ∧ (∀ entry ∈ after, entry.2.asks = true)
    ∧ ((solver name backend config).solve (reached name backend before)).1 = .ok .optimal

/-- Since its last solve the history only asks, and the backend, given the whole problem that was
staged there, has found an optimum which is reported as the solution. -/
def Finds (name : String) (backend : Backend) (history : History) (problem : StagedProblem)
    (solution : StagedSolution) : Prop :=
  ∃ before config after objectiveValue value, history = before ++ (config, .single .solve) :: after
    ∧ (∀ entry ∈ after, entry.2.asks = true)
    ∧ (reached name backend before).problem = some problem
    ∧ backend problem.boxed = .optimal objectiveValue value
    ∧ solution = problem.report config.tolerance objectiveValue value

theorem Finds.asked {history : History} {problem : StagedProblem} {solution : StagedSolution}
    (h : Finds name backend history problem solution) {entry : Configuration × Request}
    (hasks : entry.2.asks = true) : Finds name backend (history ++ [entry]) problem solution := by
  obtain ⟨before, config, after, objectiveValue, value, rfl, hafter, hfound⟩ := h
  refine ⟨before, config, after ++ [entry], objectiveValue, value, by simp, ?_, hfound⟩
  rintro other hother
  rcases List.mem_append.mp hother with hold | hlast
  · exact hafter other hold
  · exact List.mem_singleton.mp hlast ▸ hasks

/-- **A solution belongs to the staged problem**, and it is what the last solve has found. -/
theorem finds_of_solution (history : History) {solution : StagedSolution}
    (hsolution : (reached name backend history).solution = some solution) :
    ∃ problem, (reached name backend history).problem = some problem
      ∧ Finds name backend history problem solution := by
  -- a request that keeps the solution asks, or solves the same problem once more in vain
  induction history using List.reverseRecOn with
  | nil => cases hsolution
  | append_singleton history entry ih =>
    obtain ⟨config, request⟩ := entry
    rw [reached_concat] at hsolution ⊢
    have hmoves : Moves backend config request (reached name backend history)
        (request.perform name backend config (reached name backend history)) := request.moves _
    generalize request.perform name backend config (reached name backend history) = next
      at hmoves hsolution ⊢
    generalize hstate : reached name backend history = state at hmoves ih
    cases hmoves with
    | asked hasks =>
      obtain ⟨problem, hproblem, hfinds⟩ := ih hsolution
      exact ⟨problem, hproblem, hfinds.asked hasks⟩
    | @solved _ problem objectiveValue value hproblem hoptimal =>
      cases hsolution
      exact ⟨problem, rfl, history, config, [], objectiveValue, value, rfl, by simp,
        hstate ▸ hproblem, hoptimal, rfl⟩
    | unsolved hnone =>
      obtain ⟨problem, hproblem, -, -, -, objectiveValue, value, -, -, -, hoptimal, -⟩ :=
        ih hsolution
      exact absurd hoptimal (hnone problem objectiveValue value hproblem)
    | begun | changed | unchanged | released => cases hsolution

/-- Questions after a solve that has found an optimum leave its solution there. -/
theorem Finds.reached_eq {history : History} {problem : StagedProblem} {solution : StagedSolution}
    (h : Finds name backend history problem solution) :
    reached name backend history = ⟨some problem, some solution⟩ := by
  obtain ⟨before, config, after, objectiveValue, value, rfl, hafter, hproblem, hoptimal, rfl⟩ := h
  rw [List.append_cons, reached_append_of_asks hafter, reached_concat]
  show ((solver name backend config).solve (reached name backend before)).2 = _
  rw [solve_of_optimal hproblem hoptimal]

/-- A solve answers with an optimum exactly if the backend finds one for the staged problem. -/
theorem solve_eq_optimal_iff {state : Staging} :
    ((solver name backend config).solve state).1 = .ok .optimal
      ↔ ∃ problem objectiveValue value, state.problem = some problem
        ∧ backend problem.boxed = .optimal objectiveValue value := by
  rcases solve_cases name backend config state with
    ⟨problem, objectiveValue, value, hproblem, hoptimal, hsolve⟩ | ⟨hnone, answer, hanswer, hsolve⟩
  · rw [hsolve]
    exact iff_of_true rfl ⟨problem, objectiveValue, value, hproblem, hoptimal⟩
  · rw [hsolve]
    exact iff_of_false hanswer fun ⟨problem, objectiveValue, value, hproblem, hoptimal⟩ =>
      hnone problem objectiveValue value hproblem hoptimal

/-- There is a solution exactly if the last solve has found an optimum and nothing was changed
since. -/
theorem solvedLast_iff (name : String) (backend : Backend) (history : History) :
    SolvedLast name backend history
      ↔ ∃ solution, (reached name backend history).solution = some solution := by
  constructor
  · rintro ⟨before, config, after, hhistory, hafter, hanswer⟩
    obtain ⟨problem, objectiveValue, value, hproblem, hoptimal⟩ := solve_eq_optimal_iff.mp hanswer
    have hfinds : Finds name backend history problem _ :=
      ⟨before, config, after, objectiveValue, value, hhistory, hafter, hproblem, hoptimal, rfl⟩
    exact ⟨_, by rw [hfinds.reached_eq]⟩
  · rintro ⟨solution, hsolution⟩
    obtain ⟨problem, -, before, config, after, objectiveValue, value, hhistory, hafter, hproblem,
      hoptimal, -⟩ := finds_of_solution history hsolution
    exact ⟨before, config, after, hhistory, hafter,
      solve_eq_optimal_iff.mpr ⟨problem, objectiveValue, value, hproblem, hoptimal⟩⟩

/-! ## Answers -/

theorem ask_ok_iff {α : Type} (part : StagedSolution → α) (state : Staging) :
    (∃ answer, ask part state = (.ok answer, state))
      ↔ ∃ solution, state.solution = some solution := by
  obtain ⟨problem, solution | solution⟩ := state
  · exact ⟨by rintro ⟨_, ⟨⟩⟩, by rintro ⟨_, ⟨⟩⟩⟩
  · exact ⟨fun _ => ⟨solution, rfl⟩, fun _ => ⟨part solution, rfl⟩⟩

theorem ask_of_none {α : Type} (part : StagedSolution → α) {state : Staging}
    (h : ¬ ∃ solution, state.solution = some solution) :
    ask part state = (.error .notSolved, state) := by
  obtain ⟨problem, solution | solution⟩ := state
  · rfl
  · exact absurd ⟨solution, rfl⟩ h

/-- **What a history of requests decides**, successful ones and failing ones alike: all parts of the
staged problem have the length of the problem that was begun last; a solution has that length too,
and it is what the last solve has found for the very problem that is staged; and there is one to be
asked for exactly if that last solve answered with an optimum and nothing but questions followed. -/
theorem history_decides (name : String) (backend : Backend) (history : History) :
    let state := reached name backend history
    (∀ problem, state.problem = some problem →
      ∃ n, created? history = some n ∧ problem.Sized n ∧ problem.boxed.columns.length = n)
    ∧ (∀ solution, state.solution = some solution →
      ∃ problem n, state.problem = some problem ∧ created? history = some n
        ∧ solution.values.length = n ∧ Finds name backend history problem solution)
    ∧ ∀ config,
      ((∃ answer, (solver name backend config).objectiveValue state = (.ok answer, state))
        ↔ SolvedLast name backend history)
      ∧ ((∃ answer, (solver name backend config).variableValues state = (.ok answer, state))
        ↔ SolvedLast name backend history)
      ∧ (¬ SolvedLast name backend history →
        (solver name backend config).objectiveValue state = (.error .notSolved, state)
        ∧ (solver name backend config).variableValues state = (.error .notSolved, state)) := by
  intro state
  have hsizedBy := reached_sizedBy name backend history
  refine ⟨?_, ?_, fun config => ⟨?_, ?_, ?_⟩⟩
  · intro problem hproblem
    obtain ⟨n, hcreated, hsized⟩ := hsizedBy problem hproblem
    exact ⟨n, hcreated, hsized, hsized.length_columns⟩
  · intro solution hsolution
    obtain ⟨problem, hproblem, hfinds⟩ := finds_of_solution history hsolution
    obtain ⟨n, hcreated, hsized⟩ := hsizedBy problem hproblem
    refine ⟨problem, n, hproblem, hcreated, ?_, hfinds⟩
    obtain ⟨-, -, -, -, -, -, -, -, -, rfl⟩ := hfinds
    exact hsized.length_report _ _ _
  · rw [solvedLast_iff]
    exact ask_ok_iff _ _
  · rw [solvedLast_iff]
    exact ask_ok_iff _ _
  · rw [solvedLast_iff]
    exact fun h => ⟨ask_of_none _ h, ask_of_none _ h⟩

/-- Two bounds for one variable are refused, and the solution is gone nevertheless. -/
example :
    let backend : Backend := fun _ => .optimal .zero fun _ => .zero
    let history : History := [({}, .single (.create 1)), ({}, .single .solve)]
    let refused : History := [({}, .single (.setUpper [.zero, .zero]))]
    (reached "constant" backend history).solution = some ⟨.zero, [.zero]⟩
      ∧ reached "constant" backend (history ++ refused) = ⟨some (.blank 1), none⟩ := by
  decide

end Staging

end LinearModel
