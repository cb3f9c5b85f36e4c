import LinearModel.Proofs.Solver.Session

/-!
# Conformance of loading and of sessions

Loading and sessions are the same for every solver, however it answers: the calls that build a
problem are made in one fixed order and are cut after the first that fails, and a session adds to
them what is asked of the loaded problem and one release.

* `exists_makes`, `Makes.forM_eq` — of a list of calls those up to the first failing one are made
* `rows_zipped` — the rows that are appended, number by number
* `Inquiry.exists_goes` — an inquiry is answered by the solver itself, question by question
* `session_conforms` — the calls of loading and of a session
-/

namespace LinearModel

variable {σ α : Type}

namespace Solver

/-! ## Calls that are made -/

/-- The calls succeed one after the other and lead from one state to the other. -/
inductive Runs (solver : Solver σ) : List SolverCall → σ → σ → Prop
  | nil {state : σ} : Runs solver [] state state
  | cons {call : SolverCall} {rest : List SolverCall} {state next reached : σ}
      (hcall : solver.step call state = (.ok (), next)) (hrest : Runs solver rest next reached) :
      Runs solver (call :: rest) state reached

/-- Of the calls those in `made` are made, with this answer: all of them where none fails, and else
those up to the first that fails, whose error is the answer. -/
inductive Makes (solver : Solver σ) (calls : List SolverCall) (state : σ) :
    (made : List SolverCall) → (answer : Except SolverError Unit) → (reached : σ) → Prop
  | through {reached : σ} (hruns : solver.Runs calls state reached) :
      Makes solver calls state calls (.ok ()) reached
  | cut {before after : List SolverCall} {call : SolverCall} {middle reached : σ}
      {error : SolverError} (hcalls : calls = before ++ call :: after)
      (hbefore : solver.Runs before state middle)
      (hcall : solver.step call middle = (.error error, reached)) :
      Makes solver calls state (before ++ [call]) (.error error) reached

variable {solver : Solver σ} {calls made : List SolverCall} {state reached : σ}
  {answer : Except SolverError Unit}

theorem Makes.cons {call : SolverCall} {rest : List SolverCall} {next : σ}
    (hcall : solver.step call state = (.ok (), next))
    (h : solver.Makes rest next made answer reached) :
    solver.Makes (call :: rest) state (call :: made) answer reached := by
  cases h with
  | through hruns => exact .through (.cons hcall hruns)
  | cut hcalls hbefore hfails =>
    exact .cut (congrArg (call :: ·) hcalls) (.cons hcall hbefore) hfails

/-- **Calls are made up to the first that fails.** -/
theorem exists_makes (solver : Solver σ) (calls : List SolverCall) (state : σ) :
    ∃ made answer reached, solver.Makes calls state made answer reached := by
  induction calls generalizing state with
  | nil => exact ⟨_, _, _, .through .nil⟩
  | cons call rest ih =>
    rcases hcall : solver.step call state with ⟨error | ⟨⟩, next⟩
    · exact ⟨[call], _, _, .cut (List.nil_append _).symm .nil hcall⟩
    · obtain ⟨made, answer, reached, hrest⟩ := ih next
      exact ⟨_, _, _, hrest.cons hcall⟩

theorem Runs.forM_append (h : solver.Runs calls state reached) (rest : List SolverCall) :
    (calls ++ rest).forM solver.step state = rest.forM solver.step reached := by
  induction h with
  | nil => rfl
  | cons hcall _ ih => rw [List.cons_append, forM_cons_ok hcall, ih]

theorem Runs.forM_eq (h : solver.Runs calls state reached) :
    calls.forM solver.step state = (.ok (), reached) := by
  have hforM := h.forM_append []
  rwa [List.append_nil] at hforM

theorem Makes.forM_eq (h : solver.Makes calls state made answer reached) :
    calls.forM solver.step state = (answer, reached) := by
  cases h with
  | through hruns => exact hruns.forM_eq
  | cut hcalls hbefore hcall => rw [hcalls, hbefore.forM_append, forM_cons_error hcall]

theorem Runs.made_append (h : solver.Runs calls state reached) (rest : List SolverCall) :
    solver.made (calls ++ rest) state = calls ++ solver.made rest reached := by
  induction h with
  | nil => rfl
  | cons hcall _ ih => rw [List.cons_append, made_cons_ok hcall, ih, List.cons_append]

theorem Makes.made_eq (h : solver.Makes calls state made answer reached) :
    solver.made calls state = made := by
  cases h with
  | through hruns => exact made_eq_self hruns.forM_eq
  | cut hcalls hbefore hcall => rw [hcalls, hbefore.made_append, made_cons_error hcall]

/-- No call fails exactly if the answer is no error. -/
theorem Makes.answer_eq_ok_iff (h : solver.Makes calls state made answer reached) :
    answer = .ok () ↔ ∃ last, solver.Runs calls state last := by
  constructor
  · intro hok
    cases h with
    | through hruns => exact ⟨_, hruns⟩
    | cut => cases hok
  · rintro ⟨last, hruns⟩
    exact (Prod.mk.inj (h.forM_eq.symm.trans hruns.forM_eq)).1

/-! ## Loading -/

theorem refuses_eq_true_iff {problem : FlatProblem} :
    solver.refuses problem state = true
      ↔ problem.integers ≠ [] ∧ solver.integerCapable state = false := by
  simp [refuses]

/-- A recording solver that is asked for integer variables it cannot have notes no call. -/
theorem load_recording_of_refuses {problem : FlatProblem}
    (hrefuses : solver.refuses problem state = true) (past : List SolverCall) :
    solver.recording.load problem ⟨state, past⟩
      = (.error .integersUnsupported, ⟨state, past⟩) := by
  rw [load_recording, load_eq_forM, loadCalls, if_pos hrefuses, if_pos hrefuses, List.append_nil]

/-- **A recording solver notes the calls of the problem, as far as they are made.** -/
theorem Makes.load_recording {problem : FlatProblem}
    (h : solver.Makes problem.calls state made answer reached)
    (haccepts : solver.refuses problem state = false) (past : List SolverCall) :
    solver.recording.load problem ⟨state, past⟩ = (answer, ⟨reached, past ++ made⟩) := by
  have hnot : ¬ solver.refuses problem state = true := by simp [haccepts]
  rw [Solver.load_recording, load_eq_forM, loadCalls, if_neg hnot, if_neg hnot, h.forM_eq,
    h.made_eq]

end Solver

/-- The rows hold one row of the matrix, one relation and one right-hand side each, and end with the
shortest of the three. -/
structure FlatProblem.Zipped (problem : FlatProblem) (rows : List Row) : Prop where
  length_eq : rows.length
    = min problem.rowCount (min problem.relations.length problem.rhs.length)
  row : ∀ i < rows.length, ∃ coefficients relation rhs, problem.row? i = some coefficients
    ∧ problem.relations[i]? = some relation ∧ problem.rhs[i]? = some rhs
    ∧ rows[i]? = some ⟨coefficients, relation, rhs⟩

theorem FlatProblem.rows_zipped (problem : FlatProblem) : problem.Zipped problem.rows := by
  have hlen : problem.rows.length
      = min problem.rowCount (min problem.relations.length problem.rhs.length) := by
    simp [rows, rowCount, Matrix.height]
  refine ⟨hlen, fun i hi => ?_⟩
  rw [hlen, Nat.lt_min, Nat.lt_min] at hi
  obtain ⟨hmatrix, hrelations, hrhs⟩ := hi
  have hrow : problem.row? i = some problem.matrix.rows[i] := List.getElem?_eq_getElem hmatrix
  have hside : (problem.relations.zip problem.rhs)[i]?
      = some (problem.relations[i], problem.rhs[i]) :=
    List.getElem?_zip_eq_some.mpr
      ⟨List.getElem?_eq_getElem hrelations, List.getElem?_eq_getElem hrhs⟩
  refine ⟨_, _, _, hrow, List.getElem?_eq_getElem hrelations, List.getElem?_eq_getElem hrhs, ?_⟩
  rw [row?] at hrow
  simp [rows, List.getElem?_zipWith, hrow, hside]

/-! ## Inquiries -/

/-- What is asked of a loaded problem: any number of questions in any order, where each may depend
on the answers to those before it, errors included. -/
inductive Inquiry (α : Type) where
  | done (result : α)
  | solve (next : Except SolverError Status → Inquiry α)
  | objectiveValue (next : Except SolverError Binary64 → Inquiry α)
  | variableValues (next : Except SolverError (List Binary64) → Inquiry α)

namespace Inquiry

/-- The inquiry, put to a solver. -/
def run (solver : Solver σ) : Inquiry α → SolverStep σ α
  | done result => pure result
  | solve next => do (next (← solver.solve.attempt)).run solver
  | objectiveValue next => do (next (← solver.objectiveValue.attempt)).run solver
  | variableValues next => do (next (← solver.variableValues.attempt)).run solver

/-- The inquiry makes these calls, each is answered by the solver as it stands then, and this comes
of it. -/
inductive Goes (solver : Solver σ) : Inquiry α → σ → List SolverCall → α → σ → Prop
  | done {result : α} {state : σ} : Goes solver (.done result) state [] result state
  | solve {next : Except SolverError Status → Inquiry α} {state middle reached : σ}
      {answer : Except SolverError Status} {asked : List SolverCall} {result : α}
      (hanswer : solver.solve state = (answer, middle))
      (hnext : Goes solver (next answer) middle asked result reached) :
      Goes solver (.solve next) state (.solve :: asked) result reached
  | objectiveValue {next : Except SolverError Binary64 → Inquiry α} {state middle reached : σ}
      {answer : Except SolverError Binary64} {asked : List SolverCall} {result : α}
      (hanswer : solver.objectiveValue state = (answer, middle))
      (hnext : Goes solver (next answer) middle asked result reached) :
      Goes solver (.objectiveValue next) state (.objectiveValue :: asked) result reached
  | variableValues {next : Except SolverError (List Binary64) → Inquiry α}
      {state middle reached : σ} {answer : Except SolverError (List Binary64)}
      {asked : List SolverCall} {result : α}
      (hanswer : solver.variableValues state = (answer, middle))
      (hnext : Goes solver (next answer) middle asked result reached) :
      Goes solver (.variableValues next) state (.variableValues :: asked) result reached

/-- **Every inquiry is answered.** -/
theorem exists_goes (solver : Solver σ) (inquiry : Inquiry α) (state : σ) :
    ∃ asked result reached, inquiry.Goes solver state asked result reached := by
  induction inquiry generalizing state with
  | done result => exact ⟨_, _, _, .done⟩
  | solve next ih =>
    rcases hanswer : solver.solve state with ⟨answer, middle⟩
    obtain ⟨asked, result, reached, hnext⟩ := ih answer middle
    exact ⟨_, _, _, .solve hanswer hnext⟩
  | objectiveValue next ih =>
    rcases hanswer : solver.objectiveValue state with ⟨answer, middle⟩
    obtain ⟨asked, result, reached, hnext⟩ := ih answer middle
    exact ⟨_, _, _, .objectiveValue hanswer hnext⟩
  | variableValues next ih =>
    rcases hanswer : solver.variableValues state with ⟨answer, middle⟩
    obtain ⟨asked, result, reached, hnext⟩ := ih answer middle
    exact ⟨_, _, _, .variableValues hanswer hnext⟩

variable {solver : Solver σ} {inquiry : Inquiry α} {state reached : σ} {asked : List SolverCall}
  {result : α}

/-- Only questions are asked. -/
theorem Goes.mem_questions (h : inquiry.Goes solver state asked result reached) :
    ∀ call ∈ asked, call ∈ [SolverCall.solve, .objectiveValue, .variableValues] := by
  induction h with
  | done => simp
  | solve _ _ ih | objectiveValue _ _ ih | variableValues _ _ ih =>
    exact List.forall_mem_cons.mpr ⟨by simp, ih⟩

/-- The inquiry, put to the solver, comes to what it goes to. -/
theorem Goes.run_eq (h : inquiry.Goes solver state asked result reached) :
    inquiry.run solver state = (.ok result, reached) := by
  induction h with
  | done => rfl
  | solve hanswer _ ih | objectiveValue hanswer _ ih | variableValues hanswer _ ih =>
    rw [run, SolverStep.bind_ok (Solver.attempt_eq hanswer)]
    exact ih

theorem attempt_note_bind {β γ : Type} {step : SolverStep σ β} {middle : σ}
    {answer : Except SolverError β} (h : step state = (answer, middle)) (call : SolverCall)
    (past : List SolverCall) (rest : Except SolverError β → SolverStep (Recorded σ) γ) :
    ((Recorded.note call step).attempt >>= rest) ⟨state, past⟩
      = rest answer ⟨middle, past ++ [call]⟩ :=
  SolverStep.bind_ok (Solver.attempt_eq (Solver.note_eq h call past)) rest

/-- A recording solver answers as the solver inside does, and it notes the questions. -/
theorem Goes.run_recording (h : inquiry.Goes solver state asked result reached)
    (past : List SolverCall) :
    inquiry.run solver.recording ⟨state, past⟩ = (.ok result, ⟨reached, past ++ asked⟩) := by
  induction h generalizing past with
  | done =>
    rw [List.append_nil]
    rfl
  | solve hanswer _ ih =>
    rw [List.append_cons, ← ih]
    exact attempt_note_bind hanswer .solve past _
  | objectiveValue hanswer _ ih =>
    rw [List.append_cons, ← ih]
    exact attempt_note_bind hanswer .objectiveValue past _
  | variableValues hanswer _ ih =>
    rw [List.append_cons, ← ih]
    exact attempt_note_bind hanswer .variableValues past _

end Inquiry

/-! ## Sessions -/

namespace Solver

variable {solver : Solver σ} {problem : FlatProblem}

theorem session_of_load_error {body : SolverStep σ α} {state reached : σ} {error : SolverError}
    (h : solver.load problem state = (.error error, reached)) :
    solver.session problem body state = (.error error, solver.release reached) := by
  rw [session, SolverStep.bind_error h]

theorem session_of_load_ok {body : SolverStep σ α} {state loaded reached : σ}
    {answer : Except SolverError α} (h : solver.load problem state = (.ok (), loaded))
    (hbody : body loaded = (answer, reached)) :
    solver.session problem body state = (answer, solver.release reached) := by
  rw [session, SolverStep.bind_ok h, hbody]

/-- **Every solver is loaded and let go of in the same way.** Where integer variables are asked for
and the solver cannot have them, loading makes no call. Otherwise it makes the calls of the problem
in their order, up to the first that fails, whose error it answers; it succeeds exactly if none
fails. Among these calls is one for each row of the matrix that has a relation and a right-hand
side. A session makes the calls of loading, then, if that has succeeded, those of the inquiry, which
the solver answers itself, and at last one release, which is the only one. That the calls are
recorded changes nothing of what is answered. -/
theorem session_conforms (solver : Solver σ) (problem : FlatProblem) (state : σ)
    (past : List SolverCall) :
    let load := solver.recording.load problem ⟨state, past⟩
    solver.load problem state = (load.1, load.2.state)
      ∧ (problem.integers ≠ [] ∧ solver.integerCapable state = false →
        load = (.error .integersUnsupported, ⟨state, past⟩))
      ∧ (problem.integers = [] ∨ solver.integerCapable state = true →
        ∃ made answer reached, solver.Makes problem.calls state made answer reached
          ∧ load = (answer, ⟨reached, past ++ made⟩)
          ∧ (answer = .ok () ↔ ∃ last, solver.Runs problem.calls state last))
      ∧ (∃ rows, problem.Zipped rows ∧ problem.calls
        = [.create problem.objective.length, .setIntegers problem.integers,
            .setLower problem.lower, .setUpper problem.upper, .setObjective problem.objective,
            .setSense problem.sense]
          ++ rows.map .appendRow ++ [.setScaling problem.scale])
      ∧ ∀ {α : Type} (inquiry : Inquiry α),
        let session := solver.recording.session problem (inquiry.run solver.recording) ⟨state, past⟩
        solver.session problem (inquiry.run solver) state = (session.1, session.2.state)
        ∧ (∀ error last, load = (.error error, last) →
          session = (.error error, ⟨solver.release last.state, last.calls ++ [.release]⟩))
        ∧ (∀ loaded, load = (.ok (), loaded) → ∃ asked result last,
          inquiry.Goes solver loaded.state asked result last
            ∧ (∀ call ∈ asked, call ∈ [SolverCall.solve, .objectiveValue, .variableValues])
            ∧ session = (.ok result,
              ⟨solver.release last, loaded.calls ++ asked ++ [.release]⟩))
        ∧ ∃ before, session.2.calls = past ++ before ++ [.release] ∧ .release ∉ before := by
  intro load
  have hload : load = ((solver.load problem state).1,
      ⟨(solver.load problem state).2, past ++ solver.loadCalls problem state⟩) :=
    load_recording solver problem state past
  have hquiet : SolverCall.release ∉ solver.loadCalls problem state := fun h =>
    problem.release_notMem_calls ((solver.loadCalls_isPrefix problem state).subset h)
  refine ⟨?_, fun h => ?_, fun h => ?_, ⟨problem.rows, problem.rows_zipped, rfl⟩, ?_⟩
  · rw [hload]
    rfl
  · exact load_recording_of_refuses (refuses_eq_true_iff.mpr h) past
  · have haccepts : solver.refuses problem state = false := by
      rcases h with h | h <;> simp [refuses, h]
    obtain ⟨made, answer, reached, hmakes⟩ := solver.exists_makes problem.calls state
    exact ⟨made, answer, reached, hmakes, hmakes.load_recording haccepts past,
      hmakes.answer_eq_ok_iff⟩
  · intro α inquiry session
    -- how the session goes depends on whether the problem is loaded
    rcases hanswer : solver.load problem state with ⟨error | ⟨⟩, loaded⟩ <;> rw [hanswer] at hload
    · have hsession : session = (.error error,
          ⟨solver.release loaded, past ++ solver.loadCalls problem state ++ [.release]⟩) :=
        session_of_load_error hload
      refine ⟨?_, fun _ _ h => ?_, fun _ h => ?_, _, congrArg (·.2.calls) hsession, hquiet⟩
      · rw [hsession, session_of_load_error hanswer]
      · cases hload.symm.trans h
        exact hsession
      · cases hload.symm.trans h
    · obtain ⟨asked, result, last, hgoes⟩ := inquiry.exists_goes solver loaded
      have hsession : session = (.ok result,
          ⟨solver.release last, past ++ solver.loadCalls problem state ++ asked ++ [.release]⟩) :=
        session_of_load_ok hload (hgoes.run_recording _)
      refine ⟨?_, fun _ _ h => ?_, fun _ h => ?_, solver.loadCalls problem state ++ asked, ?_, ?_⟩
      · rw [hsession, session_of_load_ok hanswer hgoes.run_eq]
      · cases hload.symm.trans h
      · cases hload.symm.trans h
        exact ⟨asked, result, last, hgoes, hgoes.mem_questions, hsession⟩
      · rw [hsession, List.append_assoc past]
      · rw [List.mem_append, not_or]
        exact ⟨hquiet, fun hmem => absurd (hgoes.mem_questions _ hmem) (by decide)⟩

/-- The second of two rows is refused by a solver that takes one: the scaling is not set, and the
inquiry is not put to it. -/
example :
    let row : List Binary64 := [.zero]
    let problem : FlatProblem :=
      ⟨row, ⟨1, [row, row], by decide⟩, [.le, .ge], [.zero, .zero], row, row, [0], .minimize, true⟩
    let solver : Solver Nat :=
      { name := "one row", integerCapable := fun _ => true
        create := fun _ _ => (.ok (), 0), setIntegers := fun _ n => (.ok (), n)
        setLower := fun _ n => (.ok (), n), setUpper := fun _ n => (.ok (), n)
        setObjective := fun _ n => (.ok (), n), setSense := fun _ n => (.ok (), n)
        appendRow := fun _ n => (if n = 0 then .ok () else .error .notSolved, n + 1)
        setScaling := fun _ n => (.ok (), n), solve := fun n => (.ok .optimal, n)
        objectiveValue := fun n => (.ok .zero, n), variableValues := fun n => (.ok row, n)
        release := fun n => n }
    (solver.recording.session problem ((Inquiry.solve .done).run solver.recording) ⟨0, []⟩).2.calls
      = problem.calls.dropLast ++ [.release] := by
  decide

end Solver

end LinearModel
