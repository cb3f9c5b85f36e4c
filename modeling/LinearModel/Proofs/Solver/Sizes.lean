import LinearModel.Proofs.Solver.Calls
import LinearModel.Proofs.Solver.Loading
import Mathlib.Data.List.Basic

/-!
# The size of a staged problem

All parts of a staged problem are those of one number of variables, and no change of a part breaks
this, whether it succeeds or fails. A change succeeds exactly if what it brings has this size, so
of changes one after the other it is known without going through the states between them.

* `StagedProblem.Sized.changed` — a change keeps the size
* `StagedProblem.Sized.change_ok_iff` — what a change has to bring
* `Staging.load_cases` — what loading comes to, which no state before has a part in
-/

namespace LinearModel

/-! ## Staged problems -/

/-- Terms of different variables among `n`, in their order and none of them zero. -/
structure SparseRow.Proper (row : SparseRow) (n : Nat) : Prop where
  ascending : row.terms.Pairwise fun first second => first.1 < second.1
  index_lt : ∀ term ∈ row.terms, term.1 < n
  nonzero : ∀ term ∈ row.terms, term.2.isZero = false

theorem SparseRow.proper_ofRow {row : Row} {n : Nat} (h : row.coefficients.length = n) :
    (SparseRow.ofRow row).Proper n where
  ascending := Row.pairwise_terms row.coefficients
  index_lt term hterm := by
    obtain ⟨hlt, -⟩ := List.getElem?_eq_some_iff.mp (Row.mem_terms.mp hterm).1
    exact h ▸ hlt
  nonzero term hterm := (Row.mem_terms.mp hterm).2

namespace StagedProblem

/-- All parts are those of a problem of `n` variables. -/
structure Sized (problem : StagedProblem) (n : Nat) : Prop where
  length_integer : problem.integer.length = n
  length_lower : problem.lower.length = n
  length_upper : problem.upper.length = n
  length_objective : problem.objective.length = n
  rows : ∀ row ∈ problem.rows, row.Proper n

variable {problem : StagedProblem} {n : Nat}

theorem sized_blank (n : Nat) : (blank n).Sized n where
  length_integer := List.length_replicate
  length_lower := List.length_replicate
  length_upper := List.length_replicate
  length_objective := List.length_replicate
  rows := by simp [blank]

/-- No variable is left out where the problem is handed over. -/
theorem Sized.length_columns (h : problem.Sized n) : problem.boxed.columns.length = n := by
  show problem.columns.length = n
  simp [columns, h.length_integer, h.length_lower, h.length_upper, h.length_objective]

/-- Every variable is given a value. -/
theorem Sized.length_report (h : problem.Sized n) (tolerance objectiveValue : Binary64)
    (value : Nat → Binary64) :
    (problem.report tolerance objectiveValue value).values.length = n := by
  rw [report]
  split <;> simp [h.length_objective]

theorem length_raiseFlags (indices : List Nat) (flags : List Bool) :
    (raiseFlags indices flags).2.length = flags.length := by
  induction indices generalizing flags with
  | nil => rfl
  | cons i rest ih =>
    rw [raiseFlags]
    split
    · rw [ih, List.length_set]
    · rfl

theorem raiseFlags_ok_iff (indices : List Nat) (flags : List Bool) :
    (raiseFlags indices flags).1 = .ok () ↔ ∀ i ∈ indices, i < flags.length := by
  induction indices generalizing flags with
  | nil => exact iff_of_true rfl (by simp)
  | cons i rest ih =>
    rw [raiseFlags, List.forall_mem_cons]
    split
    · next hi => rw [ih, List.length_set, and_iff_right hi]
    · next hi => exact iff_of_false (by rintro ⟨⟩) fun h => hi h.1

theorem setChecked_ok_iff {values : List Binary64} {expected : Nat}
    {set : StagedProblem → StagedProblem} :
    (problem.setChecked expected values set).1 = .ok () ↔ values.length = expected := by
  by_cases hlength : values.length = expected
  · rw [setChecked_eq_ok hlength]
    exact iff_of_true rfl hlength
  · rw [setChecked_eq_error hlength]
    exact iff_of_false (by rintro ⟨⟩) hlength

theorem Sized.setChecked (h : problem.Sized n) {values : List Binary64} {expected : Nat}
    {set : StagedProblem → StagedProblem}
    (hset : values.length = expected → (set problem).Sized n) :
    (problem.setChecked expected values set).2.Sized n := by
  by_cases hlength : values.length = expected
  · rw [setChecked_eq_ok hlength]
    exact hset hlength
  · rw [setChecked_eq_error hlength]
    exact h

end StagedProblem

/-! ## Calls -/

namespace SolverCall

/-- The change that a call makes to what is staged, if it sets a part of it. -/
def change? : SolverCall → Option (StagedProblem → Except SolverError Unit × StagedProblem)
  | setIntegers indices => some (StagedProblem.setIntegers indices)
  | setLower bounds => some (StagedProblem.setLower bounds)
  | setUpper bounds => some (StagedProblem.setUpper bounds)
  | setObjective coefficients => some (StagedProblem.setObjective coefficients)
  | setSense sense => some fun problem => (.ok (), { problem with sense := sense })
  | appendRow row => some (StagedProblem.appendRow row)
  | setScaling scale => some fun problem => (.ok (), { problem with scale := scale })
  | create _ | solve | objectiveValue | variableValues | release => none

/-- What the call brings is for `n` variables. -/
def Fits (n : Nat) : SolverCall → Prop
  | setIntegers indices => ∀ i ∈ indices, i < n
  | setLower values | setUpper values | setObjective values => values.length = n
  | appendRow row => row.coefficients.length = n
  | _ => True

end SolverCall

namespace StagedProblem

variable {problem : StagedProblem} {n : Nat} {call : SolverCall}
  {change : StagedProblem → Except SolverError Unit × StagedProblem}

/-- **A change keeps the size**, also where it fails. -/
theorem Sized.changed (h : problem.Sized n) (hchange : call.change? = some change) :
    (change problem).2.Sized n := by
  have ⟨hinteger, hlower, hupper, hobjective, hrows⟩ := h
  cases call with
  | setIntegers indices =>
    cases hchange
    refine ⟨?_, hlower, hupper, hobjective, hrows⟩
    rw [setIntegers, length_raiseFlags, List.length_replicate, hinteger]
  | setLower bounds =>
    cases hchange
    exact h.setChecked fun hlength => ⟨hinteger, hlength.trans hlower, hupper, hobjective, hrows⟩
  | setUpper bounds =>
    cases hchange
    exact h.setChecked fun hlength => ⟨hinteger, hlower, hlength.trans hupper, hobjective, hrows⟩
  | setObjective coefficients =>
    cases hchange
    exact h.setChecked fun hlength => ⟨hinteger, hlower, hupper, hlength.trans hobjective, hrows⟩
  | appendRow row =>
    cases hchange
    refine h.setChecked fun hlength => ⟨hinteger, hlower, hupper, hobjective, ?_⟩
    intro other hother
    rcases List.mem_append.mp hother with hold | hlast
    · exact hrows other hold
    · rw [List.mem_singleton.mp hlast]
      exact SparseRow.proper_ofRow (hlength.trans hobjective)
  | setSense sense =>
    cases hchange
    exact ⟨hinteger, hlower, hupper, hobjective, hrows⟩
  | setScaling scale =>
    cases hchange
    exact ⟨hinteger, hlower, hupper, hobjective, hrows⟩
  | _ => cases hchange

/-- **A change succeeds exactly if what it brings has the size of the problem.** -/
theorem Sized.change_ok_iff (h : problem.Sized n) (hchange : call.change? = some change) :
    (change problem).1 = .ok () ↔ call.Fits n := by
  cases call with
  | setIntegers indices =>
    cases hchange
    show (raiseFlags _ _).1 = _ ↔ _
    rw [raiseFlags_ok_iff, List.length_replicate, h.length_integer]
    rfl
  | setLower bounds =>
    cases hchange
    exact setChecked_ok_iff.trans (by rw [h.length_lower]; rfl)
  | setUpper bounds =>
    cases hchange
    exact setChecked_ok_iff.trans (by rw [h.length_upper]; rfl)
  | setObjective coefficients =>
    cases hchange
    exact setChecked_ok_iff.trans (by rw [h.length_objective]; rfl)
  | appendRow row =>
    cases hchange
    exact setChecked_ok_iff.trans (by rw [h.length_objective]; rfl)
  | setSense sense | setScaling scale =>
    cases hchange
    exact iff_of_true rfl trivial
  | _ => cases hchange

end StagedProblem

/-! ## Changes one after the other -/

namespace Staging

variable {name : String} {backend : Backend} {config : Configuration}

theorem step_of_change {call : SolverCall}
    {change : StagedProblem → Except SolverError Unit × StagedProblem}
    (h : call.change? = some change) : (solver name backend config).step call = revise change := by
  cases call <;> cases h <;> rfl

/-- **Changes one after the other keep the size**, wherever they stop, and they all succeed exactly
if each brings what has this size. -/
theorem forM_changes (name : String) (backend : Backend) (config : Configuration)
    {calls : List SolverCall} (hchanges : ∀ call ∈ calls, ∃ change, call.change? = some change)
    {problem : StagedProblem} {n : Nat} (hsized : problem.Sized n) :
    ∃ (answer : Except SolverError Unit) (next : StagedProblem), next.Sized n
      ∧ calls.forM (solver name backend config).step ⟨some problem, none⟩
        = (answer, ⟨some next, none⟩)
      ∧ (answer = .ok () ↔ ∀ call ∈ calls, call.Fits n) := by
  induction calls generalizing problem with
  | nil => exact ⟨_, problem, hsized, rfl, iff_of_true rfl (by simp)⟩
  | cons call rest ih =>
    rw [List.forall_mem_cons] at hchanges
    obtain ⟨⟨change, hchange⟩, hrest⟩ := hchanges
    have hstep : (solver name backend config).step call ⟨some problem, none⟩
        = ((change problem).1, ⟨some (change problem).2, none⟩) := by
      rw [step_of_change hchange]
      rfl
    have hok := hsized.change_ok_iff hchange
    rcases hfirst : (change problem).1 with error | ⟨⟩ <;> rw [hfirst] at hstep hok
    · refine ⟨_, _, hsized.changed hchange, Solver.forM_cons_error hstep rest, ?_⟩
      rw [List.forall_mem_cons, ← hok]
      exact iff_of_false (by rintro ⟨⟩) (by rintro ⟨⟨⟩, -⟩)
    · obtain ⟨answer, next, hnext, hrun, hanswer⟩ := ih hrest (hsized.changed hchange)
      refine ⟨answer, next, hnext, (Solver.forM_cons_ok hstep rest).trans hrun, ?_⟩
      rw [List.forall_mem_cons, hanswer, ← hok, and_iff_right rfl]

/-- After its first call loading only changes parts. -/
theorem exists_change_of_mem_tail {problem : FlatProblem} :
    ∀ call ∈ problem.calls.tail, ∃ change, call.change? = some change := by
  simp only [FlatProblem.calls, List.cons_append, List.tail_cons, List.nil_append, List.mem_cons,
    List.mem_append, List.mem_map, List.not_mem_nil, or_false]
  rintro _ (rfl | rfl | rfl | rfl | rfl | ⟨_, -, rfl⟩ | rfl) <;> exact ⟨_, rfl⟩

/-- **Loading ends in one way from all states**: with an answer and a staged problem of the size
that is loaded. It succeeds exactly if all parts have this size. -/
theorem load_cases (name : String) (backend : Backend) (config : Configuration)
    (problem : FlatProblem) :
    ∃ (answer : Except SolverError Unit) (next : StagedProblem), next.Sized problem.variableCount
      ∧ (∀ state, (solver name backend config).load problem state = (answer, ⟨some next, none⟩))
      ∧ (answer = .ok () ↔ ∀ call ∈ problem.calls.tail, call.Fits problem.variableCount) := by
  obtain ⟨answer, next, hsized, hrun, hanswer⟩ := forM_changes name backend config
    exists_change_of_mem_tail (StagedProblem.sized_blank problem.variableCount)
  refine ⟨answer, next, hsized, fun state => ?_, hanswer⟩
  -- the first call overwrites whatever the state was
  have hcreate : (solver name backend config).step (.create problem.variableCount) state
      = (.ok (), ⟨some (.blank problem.variableCount), none⟩) := rfl
  rw [Solver.load_eq_forM, if_neg (by simp [Solver.refuses, solver])]
  exact (Solver.forM_cons_ok hcreate problem.calls.tail).trans hrun

end Staging

end LinearModel
