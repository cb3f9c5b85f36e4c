import LinearModel.Proofs.Solver.Sizes

/-!
# The order of settings

Each part of a staged problem is what its last setting has made it, whatever else was set in
between, and a part that is never set stays as it began. Only rows are collected. So two lists of
settings lead to one problem if they agree, for each part, on the last setting, and on the rows.

* `StagedProblem.amended` — a problem with settings taken over, each part by itself
* `StagedProblem.amended_append` — settings that follow one another are taken over at once
* `Staging.forM_eq_amended` — this is the problem that the settings lead to
* `Staging.same_last_settings` — lists of settings that agree on the last of each part and on the
  rows lead to one state, and the next solve has one answer
-/

namespace LinearModel

namespace SolverCall

/-! ## What a call sets -/

@[simp] def integers? : SolverCall → Option (List Nat)
  | setIntegers indices => some indices
  | _ => none

@[simp] def lower? : SolverCall → Option (List Binary64)
  | setLower bounds => some bounds
  | _ => none

@[simp] def upper? : SolverCall → Option (List Binary64)
  | setUpper bounds => some bounds
  | _ => none

@[simp] def objective? : SolverCall → Option (List Binary64)
  | setObjective coefficients => some coefficients
  | _ => none

@[simp] def sense? : SolverCall → Option Sense
  | setSense sense => some sense
  | _ => none

@[simp] def scaling? : SolverCall → Option Bool
  | setScaling scale => some scale
  | _ => none

@[simp] def row? : SolverCall → Option Row
  | appendRow row => some row
  | _ => none

variable {α : Type}

/-- What the last of the calls that set a part has set it to, if there is one. -/
def last? (part? : SolverCall → Option α) (calls : List SolverCall) : Option α :=
  (calls.filterMap part?).getLast?

/-- The rows that calls append, in their order. -/
def rowsOf (calls : List SolverCall) : List Row := calls.filterMap row?

@[simp] theorem last?_nil (part? : SolverCall → Option α) : last? part? [] = none := rfl

@[simp] theorem last?_singleton (part? : SolverCall → Option α) (call : SolverCall) :
    last? part? [call] = part? call := by
  rw [last?, List.filterMap_cons]
  split
  · next hnone => simp [hnone]
  · next hsome => simp [hsome]

theorem last?_append (part? : SolverCall → Option α) (calls others : List SolverCall) :
    last? part? (calls ++ others) = (last? part? others).or (last? part? calls) := by
  rw [last?, List.filterMap_append, List.getLast?_append]
  rfl

theorem rowsOf_append (calls others : List SolverCall) :
    rowsOf (calls ++ others) = rowsOf calls ++ rowsOf others := List.filterMap_append

/-- For each part the last call that sets it is the same, or there is none, and the appended rows
are the same in the same order. -/
structure SettleAlike (calls others : List SolverCall) : Prop where
  integers : last? integers? calls = last? integers? others
  lower : last? lower? calls = last? lower? others
  upper : last? upper? calls = last? upper? others
  objective : last? objective? calls = last? objective? others
  sense : last? sense? calls = last? sense? others
  scaling : last? scaling? calls = last? scaling? others
  rows : rowsOf calls = rowsOf others

end SolverCall

namespace StagedProblem

open SolverCall

/-! ## Settings taken over -/

/-- The flags with those of the listed variables up, or the old ones where there is no list. -/
def flagged (flags : List Bool) (indices : Option (List Nat)) : List Bool :=
  indices.elim flags fun indices => (List.range flags.length).map fun i => decide (i ∈ indices)

theorem length_flagged (flags : List Bool) (indices : Option (List Nat)) :
    (flagged flags indices).length = flags.length := by
  cases indices with
  | none => rfl
  | some indices => simp [flagged]

theorem flagged_flagged (flags : List Bool) (first second : Option (List Nat)) :
    flagged (flagged flags first) second = flagged flags (second.or first) := by
  cases second with
  | none => rfl
  | some indices =>
    show (List.range (flagged flags first).length).map _ = _
    rw [length_flagged]
    rfl

/-- The problem with settings taken over: each part is what the last of them says, or as before, and
the rows come behind those that are there. -/
def amended (problem : StagedProblem) (calls : List SolverCall) : StagedProblem where
  integer := flagged problem.integer (last? integers? calls)
  lower := (last? lower? calls).getD problem.lower
  upper := (last? upper? calls).getD problem.upper
  objective := (last? objective? calls).getD problem.objective
  sense := (last? sense? calls).getD problem.sense
  rows := problem.rows ++ (rowsOf calls).map .ofRow
  scale := (last? scaling? calls).getD problem.scale

variable {problem : StagedProblem} {n : Nat}

@[simp] theorem amended_nil (problem : StagedProblem) : problem.amended [] = problem := by
  simp [amended, flagged, rowsOf]

/-- **Settings that follow one another are taken over at once.** -/
theorem amended_append (problem : StagedProblem) (calls others : List SolverCall) :
    problem.amended (calls ++ others) = (problem.amended calls).amended others := by
  simp only [amended, last?_append, rowsOf_append, flagged_flagged, Option.getD_or,
    List.map_append, List.append_assoc]

theorem amended_congr {calls others : List SolverCall} (h : SettleAlike calls others)
    (problem : StagedProblem) : problem.amended calls = problem.amended others := by
  simp only [amended, h.integers, h.lower, h.upper, h.objective, h.sense, h.scaling, h.rows]

/-- **A call that brings what has the size of the problem is taken over.** -/
theorem Sized.change_eq_amended (h : problem.Sized n) {call : SolverCall}
    {change : StagedProblem → Except SolverError Unit × StagedProblem}
    (hchange : call.change? = some change) (hfits : call.Fits n) :
    change problem = (.ok (), problem.amended [call]) := by
  cases call with
  | setIntegers indices =>
    cases hchange
    rw [setIntegers_eq_ok (h.length_integer.symm ▸ hfits)]
    simp [amended, flagged, rowsOf]
  | setLower bounds =>
    cases hchange
    rw [setLower_eq_ok (hfits.trans h.length_lower.symm)]
    simp [amended, flagged, rowsOf]
  | setUpper bounds =>
    cases hchange
    rw [setUpper_eq_ok (hfits.trans h.length_upper.symm)]
    simp [amended, flagged, rowsOf]
  | setObjective coefficients =>
    cases hchange
    rw [setObjective_eq_ok (hfits.trans h.length_objective.symm)]
    simp [amended, flagged, rowsOf]
  | appendRow row =>
    cases hchange
    rw [appendRow_eq_ok (hfits.trans h.length_objective.symm)]
    simp [amended, flagged, rowsOf]
  | setSense sense | setScaling scale =>
    cases hchange
    simp [amended, flagged, rowsOf]
  | _ => cases hchange

end StagedProblem

namespace Staging

open SolverCall

variable {name : String} {backend : Backend} {config : Configuration} {n : Nat}

/-! ## Runs of settings -/

/-- **Settings one after the other lead to the problem that takes them over at once.** -/
theorem forM_eq_amended {calls : List SolverCall} (hsets : ∀ call ∈ calls, call.change?.isSome)
    (hfits : ∀ call ∈ calls, call.Fits n) {problem : StagedProblem} (hsized : problem.Sized n) :
    calls.forM (solver name backend config).step ⟨some problem, none⟩
      = (.ok (), ⟨some (problem.amended calls), none⟩) := by
  induction calls generalizing problem with
  | nil =>
    rw [StagedProblem.amended_nil]
    rfl
  | cons call rest ih =>
    rw [List.forall_mem_cons] at hsets hfits
    obtain ⟨change, hchange⟩ := Option.isSome_iff_exists.mp hsets.1
    have htaken := hsized.change_eq_amended hchange hfits.1
    have hstep : (solver name backend config).step call ⟨some problem, none⟩
        = (.ok (), ⟨some (problem.amended [call]), none⟩) := by
      rw [step_of_change hchange]
      simp only [revise, htaken]
    have hnext : (problem.amended [call]).Sized n := by
      have hchanged := hsized.changed hchange
      rwa [htaken] at hchanged
    rw [Solver.forM_cons_ok hstep, ih hsets.2 hfits.2 hnext, ← StagedProblem.amended_append]
    rfl

/-- Where settings of a fresh problem all succeed, they have led to the problem that takes them over
at once. -/
theorem eq_amended_of_forM_ok {calls : List SolverCall}
    (hsets : ∀ call ∈ calls, call.change?.isSome) {state next : Staging}
    (hrun : (.create n :: calls).forM (solver name backend config).step state = (.ok (), next)) :
    next = ⟨some ((StagedProblem.blank n).amended calls), none⟩ := by
  have hcreate : (solver name backend config).step (.create n) state
      = (.ok (), ⟨some (.blank n), none⟩) := rfl
  rw [Solver.forM_cons_ok hcreate] at hrun
  have hsized := StagedProblem.sized_blank n
  obtain ⟨answer, reached, -, hreached, hanswer⟩ := forM_changes name backend config
    (fun call hcall => Option.isSome_iff_exists.mp (hsets call hcall)) hsized
  have hfits : ∀ call ∈ calls, call.Fits n :=
    hanswer.mp (congrArg Prod.fst (hreached.symm.trans hrun))
  have hamended : calls.forM (solver name backend config).step ⟨some (.blank n), none⟩ = _ :=
    forM_eq_amended hsets hfits hsized
  exact congrArg Prod.snd (hrun.symm.trans hamended)

/-- **The order of settings does not count, only which is the last of each part.** Two lists of
settings are made of a fresh problem of `n` variables, each from any state and under any
configuration. If all of their calls succeed, and they agree for each part on the last call that
sets it and on the rows in their order, then one and the same problem is staged, and nothing is
solved. Whatever the backend is, a solve has the same answer and leaves the same solution behind. -/
theorem same_last_settings {calls others : List SolverCall}
    (hsets : ∀ call ∈ calls ++ others, call.change?.isSome) (halike : SettleAlike calls others)
    {config config' : Configuration} {state state' next next' : Staging}
    (hcalls : (.create n :: calls).forM (solver name backend config).step state = (.ok (), next))
    (hothers : (.create n :: others).forM (solver name backend config').step state'
      = (.ok (), next')) :
    next = ⟨some ((StagedProblem.blank n).amended calls), none⟩ ∧ next' = next
      ∧ ∀ config'', (solver name backend config'').solve next'
        = (solver name backend config'').solve next := by
  rw [List.forall_mem_append] at hsets
  have hnext := eq_amended_of_forM_ok hsets.1 hcalls
  have hsame : next' = next := by
    rw [eq_amended_of_forM_ok hsets.2 hothers, hnext, StagedProblem.amended_congr halike]
  exact ⟨hnext, hsame, fun config'' => by rw [hsame]⟩

/-- The flags and the direction are set twice, in one list with other settings in between. -/
theorem same_last_settings_mixed :
    let bounds : List Binary64 := [.ofInt 4, .ofInt 5]
    let row : Row := ⟨[.ofInt 1, .ofInt 1], .le, .ofInt 7⟩
    let calls : List SolverCall := [.setIntegers [0], .setUpper bounds, .appendRow row,
      .setSense .minimize, .setIntegers [1], .setSense .maximize]
    let others : List SolverCall := [.setUpper [.zero, .zero], .setSense .maximize,
      .setIntegers [1], .setUpper bounds, .appendRow row]
    let staged : StagedProblem :=
      { StagedProblem.blank 2 with
        integer := [false, true], upper := bounds, sense := .maximize, rows := [.ofRow row] }
    (∀ call ∈ calls ++ others, call.change?.isSome) ∧ SettleAlike calls others
      ∧ ∃ next next',
        (SolverCall.create 2 :: calls).forM (solver "exact" (fun _ => .failed) {}).step .empty
            = (.ok (), next)
          ∧ (SolverCall.create 2 :: others).forM (solver "exact" (fun _ => .failed) {}).step
              ⟨some (.blank 5), none⟩ = (.ok (), next')
          ∧ next = ⟨some staged, none⟩ ∧ next' = next := by
  intro bounds row calls others staged
  have hsets : ∀ call ∈ calls ++ others, call.change?.isSome := by decide
  have halike : SettleAlike calls others := by constructor <;> rfl
  have hcalls : (SolverCall.create 2 :: calls).forM (solver "exact" (fun _ => .failed) {}).step
      .empty = (.ok (), ⟨some staged, none⟩) := rfl
  have hothers : (SolverCall.create 2 :: others).forM (solver "exact" (fun _ => .failed) {}).step
      ⟨some (.blank 5), none⟩ = (.ok (), ⟨some staged, none⟩) := rfl
  obtain ⟨-, hsame, -⟩ := same_last_settings hsets halike hcalls hothers
  exact ⟨hsets, halike, _, _, hcalls, hothers, rfl, hsame⟩

end Staging

end LinearModel
