import LinearModel.Exact.Backend
import LinearModel.Proofs.Solver.History

/-!
# Refused settings

A call that sets a part of the staged problem is refused if what it brings is not for as many
variables as there are. Bounds, objectives and rows are looked at before anything is written, so a
refused one leaves every part as it was. Integer flags are written while the indices are gone
through: where an index is refused, the old flags are gone, and the indices in front of it have
raised theirs.

* `Sized.change_eq_error_iff` — which calls are refused, and with which error
* `Sized.change_of_refused` — what a refused call leaves of the problem
* `refused_setting_keeps_parts` — both, for every state that a history of requests leaves behind
* `refused_flags_replace_old` — the old flags are lost, and the next solve takes the new ones
-/

namespace LinearModel

/-- What the call brings cannot be taken over into a problem of `n` variables, for the reason that
the error gives. -/
def SolverCall.Refused (n : Nat) : SolverCall → SolverError → Prop
  | setIntegers indices, error =>
    FirstRefused (fun i error =>
      n ≤ i ∧ error = .backend s!"integer index {i} is outside of {n} variables") indices error
  | setLower values, error | setUpper values, error | setObjective values, error =>
    values.length ≠ n ∧ error = .dimensionMismatch n values.length
  | appendRow row, error =>
    row.coefficients.length ≠ n ∧ error = .dimensionMismatch n row.coefficients.length
  | _, _ => False

/-- The integer flags of a problem of `n` variables after the call has been refused: the listed
variables in front of the first index that is too large have theirs raised and all others have them
down. Other calls leave the flags alone. -/
def SolverCall.FlagsLeft (n : Nat) (old flags : List Bool) : SolverCall → Prop
  | setIntegers indices => ∃ before i after, indices = before ++ i :: after
      ∧ (∀ j ∈ before, j < n) ∧ n ≤ i ∧ flags = (List.range n).map fun j => decide (j ∈ before)
  | _ => flags = old

namespace StagedProblem

variable {problem : StagedProblem} {n : Nat} {call : SolverCall}
  {change : StagedProblem → Except SolverError Unit × StagedProblem} {error : SolverError}

/-! ## Which calls are refused -/

theorem raiseFlags_eq_error_iff (indices : List Nat) (flags : List Bool) :
    (raiseFlags indices flags).1 = .error error
      ↔ FirstRefused (fun i error => flags.length ≤ i
        ∧ error = .backend s!"integer index {i} is outside of {flags.length} variables")
        indices error := by
  induction indices generalizing flags with
  | nil => exact iff_of_false (by rintro ⟨⟩) not_firstRefused_nil
  | cons i rest ih =>
    rw [raiseFlags, firstRefused_cons_iff]
    split
    · next hi =>
      have hnot : ¬ flags.length ≤ i := Nat.not_le.mpr hi
      rw [ih, List.length_set]
      simp [hnot]
    · next hi =>
      have hle : flags.length ≤ i := Nat.not_lt.mp hi
      simp [hle, eq_comm]

theorem setChecked_eq_error_iff {values : List Binary64} {expected : Nat}
    {set : StagedProblem → StagedProblem} :
    (problem.setChecked expected values set).1 = .error error
      ↔ values.length ≠ expected ∧ error = .dimensionMismatch expected values.length := by
  by_cases hlength : values.length = expected
  · rw [setChecked_eq_ok hlength]
    exact iff_of_false (by rintro ⟨⟩) fun h => h.1 hlength
  · rw [setChecked_eq_error hlength]
    simp [hlength, eq_comm]

/-- **A call is refused for what it brings**, whatever the parts of the problem hold. -/
theorem Sized.change_eq_error_iff (h : problem.Sized n) (hchange : call.change? = some change) :
    (change problem).1 = .error error ↔ call.Refused n error := by
  cases call with
  | setIntegers indices =>
    cases hchange
    show (raiseFlags _ _).1 = _ ↔ _
    rw [raiseFlags_eq_error_iff, List.length_replicate, h.length_integer]
    rfl
  | setLower bounds =>
    cases hchange
    exact setChecked_eq_error_iff.trans (by rw [h.length_lower]; rfl)
  | setUpper bounds =>
    cases hchange
    exact setChecked_eq_error_iff.trans (by rw [h.length_upper]; rfl)
  | setObjective coefficients =>
    cases hchange
    exact setChecked_eq_error_iff.trans (by rw [h.length_objective]; rfl)
  | appendRow row =>
    cases hchange
    exact setChecked_eq_error_iff.trans (by rw [h.length_objective]; rfl)
  | setSense sense | setScaling scale =>
    cases hchange
    exact iff_of_false (by rintro ⟨⟩) id
  | _ => cases hchange

/-! ## What a refused call leaves -/

/-- Where an index is too large, the flags of those in front of it have been raised. -/
theorem Sized.setIntegers_of_refused (h : problem.Sized n) {before after : List Nat} {i : Nat}
    (hbefore : ∀ j ∈ before, j < n) (hi : n ≤ i) :
    (problem.setIntegers (before ++ i :: after)).2
      = { problem with integer := (List.range n).map fun j => decide (j ∈ before) } := by
  rw [setIntegers_eq, h.length_integer, raiseFlags_append hbefore, raiseFlags]
  simp [Nat.not_lt.mpr hi]

theorem setChecked_of_refused {values : List Binary64} {expected : Nat}
    {set : StagedProblem → StagedProblem} (hlength : values.length ≠ expected) :
    (problem.setChecked expected values set).2 = problem := by
  rw [setChecked_eq_error hlength]

/-- **A refused call leaves every part as it was**, except for the flags if it is these that it
sets. -/
theorem Sized.change_of_refused (h : problem.Sized n) (hchange : call.change? = some change)
    (hrefused : call.Refused n error) :
    ∃ flags, call.FlagsLeft n problem.integer flags
      ∧ (change problem).2 = { problem with integer := flags } := by
  cases call with
  | setIntegers indices =>
    cases hchange
    obtain ⟨before, i, after, rfl, hbefore, hi, -⟩ := hrefused
    have hlt : ∀ j ∈ before, j < n := by
      intro j hj
      by_contra hnot
      exact hbefore j hj _ ⟨Nat.not_lt.mp hnot, rfl⟩
    exact ⟨_, ⟨before, i, after, rfl, hlt, hi, rfl⟩, h.setIntegers_of_refused hlt hi⟩
  | setLower bounds =>
    cases hchange
    exact ⟨problem.integer, rfl, setChecked_of_refused (h.length_lower.symm ▸ hrefused.1)⟩
  | setUpper bounds =>
    cases hchange
    exact ⟨problem.integer, rfl, setChecked_of_refused (h.length_upper.symm ▸ hrefused.1)⟩
  | setObjective coefficients =>
    cases hchange
    exact ⟨problem.integer, rfl, setChecked_of_refused (h.length_objective.symm ▸ hrefused.1)⟩
  | appendRow row =>
    cases hchange
    exact ⟨problem.integer, rfl, setChecked_of_refused (h.length_objective.symm ▸ hrefused.1)⟩
  | setSense sense | setScaling scale => cases hrefused
  | _ => cases hchange

end StagedProblem

namespace Staging

variable {name : String} {backend : Backend}

/-! ## Reached states -/

/-- **A refused setting leaves all parts alone but the flags it was to set.** Over a problem that
any history of requests has staged, a call that sets a part fails exactly if it is refused for the
number of variables, with the error that says so. The problem stays staged then, and its bounds, its
objective, its direction, its rows and its scaling are as they were. So are the integer flags,
unless it is them that the call sets: these are down, except for those that the indices in front of
the refused one have raised. -/
theorem refused_setting_keeps_parts {history : History} {problem : StagedProblem}
    (hproblem : (reached name backend history).problem = some problem) (config : Configuration)
    {call : SolverCall} (hsets : call.change?.isSome) :
    let outcome := (solver name backend config).step call (reached name backend history)
    ∃ n, created? history = some n ∧ problem.Sized n
      ∧ (∀ error, outcome.1 = .error error ↔ call.Refused n error)
      ∧ ∀ error, outcome.1 = .error error → ∃ flags, call.FlagsLeft n problem.integer flags
        ∧ outcome.2 = ⟨some { problem with integer := flags }, none⟩ := by
  intro outcome
  obtain ⟨change, hchange⟩ := Option.isSome_iff_exists.mp hsets
  obtain ⟨n, hcreated, hsized⟩ := reached_sizedBy name backend history problem hproblem
  have houtcome : outcome = ((change problem).1, ⟨some (change problem).2, none⟩) := by
    show (solver name backend config).step call (reached name backend history) = _
    rw [step_of_change hchange, revise, hproblem]
  have herror : ∀ error, outcome.1 = .error error ↔ call.Refused n error := by
    intro error
    rw [houtcome]
    exact hsized.change_eq_error_iff hchange
  refine ⟨n, hcreated, hsized, herror, fun error hfailed => ?_⟩
  obtain ⟨flags, hflags, hleft⟩ := hsized.change_of_refused hchange ((herror error).mp hfailed)
  exact ⟨flags, hflags, by rw [houtcome, hleft]⟩

/-- The second index is too large: the flag of the second variable is lost, and the flag of the
first one is up. -/
theorem refused_setting_keeps_parts_flags :
    let history : History := [({}, .single (.create 2)), ({}, .single (.setIntegers [1]))]
    let staged : StagedProblem := { StagedProblem.blank 2 with integer := [false, true] }
    (reached "exact" Exact.backend history).problem = some staged
      ∧ (SolverCall.setIntegers [0, 7]).change?.isSome
      ∧ (solver "exact" Exact.backend {}).step (.setIntegers [0, 7])
          (reached "exact" Exact.backend history)
        = (.error (.backend "integer index 7 is outside of 2 variables"),
          ⟨some { staged with integer := [true, false] }, none⟩) := by
  intro history staged
  have hproblem : (reached "exact" Exact.backend history).problem = some staged := by decide
  have hsets : (SolverCall.setIntegers [0, 7]).change?.isSome := rfl
  obtain ⟨n, hcreated, -, herror, hleft⟩ := refused_setting_keeps_parts hproblem {} hsets
  obtain rfl : 2 = n := by simpa [history, created?, Request.created?] using hcreated
  have hrefused : (SolverCall.setIntegers [0, 7]).Refused 2
      (.backend "integer index 7 is outside of 2 variables") := by
    refine ⟨[0], 7, [], rfl, ?_, by decide, rfl⟩
    rintro _ (_ | ⟨_, ⟨⟩⟩) error ⟨hle, -⟩
    omega
  have hanswer := (herror _).mpr hrefused
  obtain ⟨flags, ⟨before, i, after, hindices, hbefore, hi, rfl⟩, hstate⟩ := hleft _ hanswer
  -- the index that is refused is the second one, so the first one is all that is in front of it
  obtain rfl : before = [0] := by
    rcases before with _ | ⟨first, _ | ⟨second, rest⟩⟩
    · obtain ⟨rfl, -⟩ := List.cons.inj hindices
      omega
    · obtain ⟨rfl, -⟩ := List.cons.inj hindices
      rfl
    · obtain ⟨-, hrest⟩ := List.cons.inj hindices
      obtain ⟨rfl, -⟩ := List.cons.inj hrest
      have := hbefore 7 (by simp)
      omega
  exact ⟨hproblem, hsets, Prod.ext hanswer hstate⟩

/-- The second variable was to be an integer. The refused call lets go of that, and the next solve
answers with a value that is not whole. -/
theorem refused_flags_replace_old :
    let half (n : Nat) : Binary64 := .ofRat (n / 2)
    let history : History :=
      [({}, .single (.create 2)), ({}, .single (.setIntegers [1])),
        ({}, .single (.setUpper [half 3, half 5])), ({}, .single (.setObjective [half 2, half 4])),
        ({}, .single (.setSense .maximize))]
    let refused : History := [({}, .single (.setIntegers [0, 7]))]
    let solve : History := [({}, .single .solve)]
    let state := reached "exact" Exact.backend
    ((solver "exact" Exact.backend {}).step (.setIntegers [0, 7]) (state history)).1
        = .error (.backend "integer index 7 is outside of 2 variables")
      ∧ (state history).problem.map StagedProblem.integer = some [false, true]
      ∧ (state (history ++ refused)).problem.map StagedProblem.integer = some [true, false]
      ∧ (state (history ++ solve)).solution = some ⟨half 11, [half 3, half 4]⟩
      ∧ (state (history ++ refused ++ solve)).solution = some ⟨half 12, [half 2, half 5]⟩ := by
  decide +kernel

end Staging

end LinearModel
