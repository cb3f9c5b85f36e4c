import LinearModel.Proofs.Program.Solving

/-!
# The status after solving

A program takes over the status that the solver reports, at the moment when it is reported. So the
status says how the problem was solved and not whether the solution has come through: an optimum
that cannot be fetched, or that does not fit the layout, leaves the status of an optimum and no
solution.

* `Solver.Ends.status_eq_optimal_iff` — an ending with an optimum is one with a solution or one in
  which the optimum is lost
* `Program.status_of_solve` — the status that solving leaves
* `Program.optimal_without_solution` — an optimum that does not fit
-/

namespace LinearModel

variable {σ : Type}

/-- The solver has found an optimum that does not get to the program: its objective value or its
values are not to be had, or there are more or fewer of them than variables. -/
def Ending.Lost (layout : Layout) : Ending → Prop
  | noObjectiveValue _ | noValues _ => True
  | fetched _ values => values.length ≠ layout.dimension
  | notLoaded _ | notSolved _ | notOptimal _ => False

theorem Solver.Ends.status_eq_optimal_iff {solver : Solver σ} {problem : FlatProblem}
    {state reached : σ} {ending : Ending} (h : solver.Ends problem state ending reached)
    {layout : Layout} (hwf : layout.WellFormed) :
    ending.status? = some .optimal
      ↔ (∃ solution, ending.result layout = .ok solution) ∨ ending.Lost layout := by
  cases h with
  | notLoaded hload => simp [Ending.status?, Ending.result, Ending.Lost]
  | notSolved hload hsolve => simp [Ending.status?, Ending.result, Ending.Lost]
  | notOptimal hload hsolve hstatus => simp [Ending.status?, Ending.result, Ending.Lost, hstatus]
  | noObjectiveValue hload hsolve hvalue => simp [Ending.status?, Ending.Lost]
  | noValues hload hsolve hvalue hvalues => simp [Ending.status?, Ending.Lost]
  | @fetched _ _ _ _ objectiveValue values hload hsolve hvalue hvalues =>
    refine iff_of_true rfl ?_
    by_cases hlen : values.length = layout.dimension
    · obtain ⟨arrays, -, hread⟩ := hwf.exists_readsOff hlen
      exact Or.inl ⟨⟨.optimal, objectiveValue, arrays⟩,
        (Ending.result_eq_ok_iff hwf).mpr ⟨rfl, values, rfl, hread⟩⟩
    · exact Or.inr hlen

namespace Program

/-- **Solving leaves the status that the solver has reported.** A reachable program with an
objective has the status of an optimum whenever it is answered with a solution. If the solver
reports a status, the program has this one: so it has that of an optimum exactly if there is a
solution or the optimum is lost on its way. If the solver reports none, because the problem could
not be loaded or solved, the program has the status of an optimum only if it had it before. -/
theorem status_of_solve {program : Program} (hreach : program.Reachable) {objective : Objective}
    (hobjective : program.objective = some objective) (config : Configuration) (solver : Solver σ)
    (scale : Bool) (state : σ) :
    let answer := (program.solve config solver scale state).1
    let after := (program.solve config solver scale state).2.1
    ∃ problem, program.flatProblem config scale = .ok problem
      ∧ (∃ ending reached, solver.Ends problem state ending reached)
      ∧ ((∃ solution, answer = .ok solution) → after.status = .optimal)
      ∧ ∀ ending reached, solver.Ends problem state ending reached →
        (∀ status, ending.status? = some status → after.status = status
          ∧ (after.status = .optimal
            ↔ (∃ solution, answer = .ok solution) ∨ ending.Lost program.layout))
        ∧ (ending.status? = none → after.status = .optimal → program.status = .optimal) := by
  intro answer after
  have hwf := hreach.sound.layout
  have hsome : program.objective ≠ none := by simp [hobjective]
  obtain ⟨problem, hproblem⟩ := exists_flatProblem hsome config scale
  have hexists := solver.exists_ends problem state
  have houtcome : ∀ {ending reached}, solver.Ends problem state ending reached →
      answer = ending.result program.layout
        ∧ after.status = ending.status?.getD program.status := by
    intro ending reached hends
    have hsolve := solve_of_ends hproblem hends
    exact ⟨congrArg Prod.fst hsolve, congrArg (fun outcome => outcome.2.1.status) hsolve⟩
  refine ⟨problem, hproblem, hexists, ?_, ?_⟩
  · rintro ⟨solution, hsolution⟩
    obtain ⟨ending, reached, hends⟩ := hexists
    obtain ⟨hanswer, hstatus⟩ := houtcome hends
    have hoptimal : ending.status? = some .optimal :=
      (hends.status_eq_optimal_iff hwf).mpr (Or.inl ⟨solution, hanswer ▸ hsolution⟩)
    rw [hstatus, hoptimal]
    rfl
  · intro ending reached hends
    obtain ⟨hanswer, hstatus⟩ := houtcome hends
    refine ⟨fun status hreported => ?_, fun hnone hoptimal => ?_⟩
    · have hafter : after.status = status := by rw [hstatus, hreported]; rfl
      refine ⟨hafter, ?_⟩
      rw [hafter, hanswer, ← hends.status_eq_optimal_iff hwf, hreported, Option.some.injEq]
    · rw [hstatus, hnone] at hoptimal
      exact hoptimal

/-- An optimum whose objective value is not to be had leaves its status, after one that was lost in
the same way. -/
theorem status_of_solve_no_objective_value :
    let block := Block.ofShape {} [2]
    let solver : Solver Staging :=
      { defaultSolver {} with solve := fun state => (.ok .optimal, state) }
    let program := (run [.solveFor solver .empty [("x", .uniform .zero)] .minimize true]
      ⟨.ofLayout (.ofAttempts [("x", block)]), {}⟩).program
    program.status = .optimal
      ∧ (program.solve {} solver false .empty).1 = .error (.solver .notSolved)
      ∧ (program.solve {} solver false .empty).2.1.status = .optimal := by
  intro block solver program
  have hbefore : program.status = .optimal := by decide +kernel
  have hanswer : (program.solve {} solver false .empty).1 = .error (.solver .notSolved) := by
    decide +kernel
  have hreach : program.Reachable := ⟨_, _, _, rfl⟩
  obtain ⟨objective, hobjective⟩ : ∃ objective, program.objective = some objective := ⟨_, rfl⟩
  obtain ⟨problem, hproblem, -, -, hends⟩ :=
    status_of_solve hreach hobjective {} solver false .empty
  obtain ⟨whole, hwhole, hcarries⟩ := hreach.sound.exists_flatProblem hobjective {} false
  have hsame : whole = problem := Except.ok.inj (hwhole.symm.trans hproblem)
  have hload : solver.load problem .empty = (.ok (), ⟨some (.ofFlat problem), none⟩) :=
    Staging.load_eq_ok (hsame ▸ hcarries.coherent) "microlp" Exact.backend {} .empty
  obtain ⟨hstatus, -⟩ := (hends _ _ (.noObjectiveValue hload rfl rfl)).1 .optimal rfl
  exact ⟨hbefore, hanswer, hstatus⟩

/-- An optimum with a value too many: there is no solution, but there is the status of an
optimum. -/
theorem optimal_without_solution :
    let layout := Layout.ofAttempts [("x", .scalar {}), ("y", .scalar {})]
    let program := (run [.write (.objective [("x", .uniform (.ofInt 1))] .minimize)]
      ⟨.ofLayout layout, {}⟩).program
    let solver : Solver Staging :=
      { defaultSolver {} with
        solve := fun state => (.ok .optimal, state)
        objectiveValue := fun state => (.ok (.ofInt 1), state)
        variableValues := fun state => (.ok [.ofInt 1, .ofInt 2, .ofInt 3], state) }
    let outcome := program.solve {} solver false .empty
    program.Reachable ∧ outcome.1 = .error (.lengthMismatch 2 3)
      ∧ outcome.2.1.status = .optimal := by
  intro layout program solver outcome
  exact ⟨⟨_, _, _, rfl⟩, by decide +kernel, by decide +kernel⟩

end Program

end LinearModel
