import LinearModel.Proofs.Binary64.Order
import LinearModel.Proofs.Solver.History

/-!
# The ranges of integer variables

A staged integer variable has two numbers for bounds, and the backend is given two 32-bit integers:
the bounds rounded inwards and cast with saturation. Between the ends of 32 bits the integers of the
range are those between the bounds. The ends themselves are in the range of a variable whose bounds
are both beyond them.

* `StagedProblem.mem_box_iff` — which integers are in the range
* `snap_between` — a value of the range stays there when it is moved onto a whole number
* `integers_boxed` — both for the staged problem of any history, and what a solve reports
-/

namespace LinearModel

open Binary64 (minInt32 maxInt32)

/-- Each integer variable has its value within its range. -/
def BoxedProblem.Within (problem : BoxedProblem) (value : Nat → Binary64) : Prop :=
  ∀ (j : Nat) (cost : Binary64) (lo hi : Int),
    problem.columns[j]? = some ⟨cost, .integers lo hi⟩ →
      (value j).Above lo ∧ (value j).Below hi

/-! ## The range -/

namespace StagedProblem

variable {lower upper : Binary64} {k : Int}

/-- **The integers of a range** are those of 32 bits between the two bounds, where the greatest of
all counts as above every lower bound and the least as below every upper bound. -/
theorem mem_box_iff (hlower : lower ≠ .nan) (hupper : upper ≠ .nan) :
    lower.toInt32 Rat.ceil ≤ k ∧ k ≤ upper.toInt32 Rat.floor
      ↔ minInt32 ≤ k ∧ k ≤ maxInt32
        ∧ (lower.Below k ∨ k = maxInt32) ∧ (upper.Above k ∨ k = minInt32) := by
  have hends : minInt32 ≤ maxInt32 := by decide
  rw [Binary64.toInt32_ceil_le_iff hlower, Binary64.le_toInt32_floor_iff hupper]
  constructor
  · rintro ⟨⟨hmin, hbelow⟩, habove⟩
    have hmax : k ≤ maxInt32 := by
      rcases habove with hle | ⟨hle, -⟩ <;> omega
    exact ⟨hmin, hmax, hbelow.imp_right fun hge => by omega,
      habove.symm.imp And.right fun hle => by omega⟩
  · rintro ⟨hmin, hmax, hbelow, habove⟩
    exact ⟨⟨hmin, hbelow.imp_right Eq.ge⟩, habove.symm.imp Eq.le fun h => ⟨hmax, h⟩⟩

theorem getElem?_columns {problem : StagedProblem} {n i : Nat} (h : problem.Sized n)
    (hinteger : problem.integer[i]? = some true) (hlower : problem.lower[i]? = some lower)
    (hupper : problem.upper[i]? = some upper) :
    ∃ cost, problem.boxed.columns[i]?
      = some ⟨cost, .integers (lower.toInt32 Rat.ceil) (upper.toInt32 Rat.floor)⟩ := by
  obtain ⟨hlt, -⟩ := List.getElem?_eq_some_iff.mp hlower
  obtain ⟨cost, hcost⟩ : ∃ cost, problem.objective[i]? = some cost :=
    ⟨_, List.getElem?_eq_getElem (h.length_objective ▸ h.length_lower ▸ hlt)⟩
  have hbounds : (problem.lower.zip problem.upper)[i]? = some (lower, upper) :=
    List.getElem?_zip_eq_some.mpr ⟨hlower, hupper⟩
  refine ⟨cost, ?_⟩
  show problem.columns[i]? = _
  simp [columns, List.getElem?_zipWith, hcost, hinteger, hbounds, rangeOf]

end StagedProblem

/-! ## What is reported -/

theorem snap_cases (tolerance value : Binary64) :
    snap tolerance value = value.roundHalfAway ∨ snap tolerance value = value := by
  rw [snap]
  split
  · exact .inl rfl
  · exact .inr rfl

/-- Moving a value onto a whole number does not take it out of a range of 32 bits. -/
theorem snap_between {value : Binary64} {lo hi : Int} (hlo : value.Above lo) (hhi : value.Below hi)
    (hmin : minInt32 ≤ lo) (hmax : hi ≤ maxInt32) (tolerance : Binary64) :
    (snap tolerance value).Above lo ∧ (snap tolerance value).Below hi := by
  rcases snap_cases tolerance value with hsnap | hsnap <;> rw [hsnap]
  · refine Binary64.roundHalfAway_between hlo hhi fun n hn hn' => ?_
    have hbits : -2 ^ 53 < minInt32 ∧ maxInt32 < 2 ^ 53 := by decide
    omega
  · exact ⟨hlo, hhi⟩

/-- What is reported of an optimum whose values are within their ranges is within them too. -/
theorem StagedProblem.report_between {problem : StagedProblem} {n i : Nat} (h : problem.Sized n)
    {value : Nat → Binary64} (hwithin : problem.boxed.Within value) {cost : Binary64} {lo hi : Int}
    (hcolumn : problem.boxed.columns[i]? = some ⟨cost, .integers lo hi⟩) (hmin : minInt32 ≤ lo)
    (hmax : hi ≤ maxInt32) (tolerance objectiveValue : Binary64) :
    ∃ x, (problem.report tolerance objectiveValue value).values[i]? = some x
      ∧ x.Above lo ∧ x.Below hi := by
  obtain ⟨hlo, hhi⟩ := hwithin i cost lo hi hcolumn
  obtain ⟨hlt, -⟩ := List.getElem?_eq_some_iff.mp hcolumn
  rw [h.length_columns, ← h.length_objective] at hlt
  have hraw : ((List.range problem.objective.length).map value)[i]? = some (value i) := by
    simp [hlt]
  rw [report]
  split
  · exact ⟨snap tolerance (value i), by simp only [List.getElem?_map, hraw, Option.map_some],
      snap_between hlo hhi hmin hmax tolerance⟩
  · exact ⟨value i, hraw, hlo, hhi⟩

namespace Staging

/-- **Integer variables are handed over in ranges of 32-bit integers.** Whatever has been requested,
an integer variable whose staged bounds are numbers is given the integers of 32 bits between these
bounds, where the greatest of all counts as above every lower bound and the least as below every
upper bound. If the bounds leave room there, the range is exact, and a solve whose optimum is within
the ranges reports a value between the bounds, also where values are moved onto whole numbers. -/
theorem integers_boxed (name : String) (backend : Backend) (history : History)
    {problem : StagedProblem} (hproblem : (reached name backend history).problem = some problem)
    {i : Nat} {lower upper : Binary64} (hinteger : problem.integer[i]? = some true)
    (hlower : problem.lower[i]? = some lower) (hupper : problem.upper[i]? = some upper)
    (hnumber : lower ≠ .nan) (hnumber' : upper ≠ .nan) :
    ∃ (cost : Binary64) (lo hi : Int), problem.boxed.columns[i]? = some ⟨cost, .integers lo hi⟩
      ∧ (∀ k : Int, lo ≤ k ∧ k ≤ hi
        ↔ minInt32 ≤ k ∧ k ≤ maxInt32
          ∧ (lower.Below k ∨ k = maxInt32) ∧ (upper.Above k ∨ k = minInt32))
      ∧ (lower.Below maxInt32 → upper.Above minInt32 →
        (∀ k : Int, lo ≤ k ∧ k ≤ hi
          ↔ minInt32 ≤ k ∧ k ≤ maxInt32 ∧ lower.Below k ∧ upper.Above k)
        ∧ ∀ objectiveValue value, backend problem.boxed = .optimal objectiveValue value →
          problem.boxed.Within value → ∀ config,
            let solved := (solver name backend config).solve (reached name backend history)
            solved.1 = .ok .optimal
              ∧ ∃ values x, (solver name backend config).variableValues solved.2
                  = (.ok values, solved.2)
                ∧ values[i]? = some x ∧ lower ≤ x ∧ x ≤ upper) := by
  obtain ⟨n, -, hsized⟩ := reached_sizedBy name backend history problem hproblem
  obtain ⟨cost, hcolumn⟩ := StagedProblem.getElem?_columns hsized hinteger hlower hupper
  refine ⟨cost, _, _, hcolumn, fun k => StagedProblem.mem_box_iff hnumber hnumber', ?_⟩
  intro hbelow habove
  refine ⟨fun k => ?_, ?_⟩
  · rw [StagedProblem.mem_box_iff hnumber hnumber',
      or_iff_left_of_imp (by rintro rfl; exact hbelow),
      or_iff_left_of_imp (by rintro rfl; exact habove)]
  · intro objectiveValue value hoptimal hwithin config
    have hends := Binary64.toInt32_between
    obtain ⟨x, hx, hlo, hhi⟩ := StagedProblem.report_between hsized hwithin hcolumn
      (hends Rat.ceil lower).1 (hends Rat.floor upper).2 config.tolerance objectiveValue
    rw [solve_of_optimal hproblem hoptimal]
    exact ⟨rfl, _, x, rfl, hx,
      Binary64.le_of_below_of_above (Binary64.below_toInt32_ceil hnumber hbelow) hlo,
      Binary64.le_of_below_of_above hhi (Binary64.above_toInt32_floor hnumber' habove)⟩

/-- The largest whole number up to 3.5 is asked for, and 3 is found and reported. -/
theorem integers_boxed_half_bounds :
    let lower := Binary64.ofRat (-5 / 2)
    let upper := Binary64.ofRat (7 / 2)
    let backend : Backend := fun _ => .optimal (.ofInt 3) fun _ => .ofInt 3
    let history : History := [({}, .single (.create 1)), ({}, .single (.setIntegers [0])),
      ({}, .single (.setLower [lower])), ({}, .single (.setUpper [upper])),
      ({}, .single (.setObjective [.ofInt 1])), ({}, .single (.setSense .maximize)),
      ({}, .single (.setScaling true))]
    ∃ problem, (reached "constant" backend history).problem = some problem
      ∧ problem.boxed.columns = [⟨.ofInt 1, .integers (-2) 3⟩]
      ∧ (∀ k : Int, -2 ≤ k ∧ k ≤ 3
        ↔ minInt32 ≤ k ∧ k ≤ maxInt32 ∧ lower.Below k ∧ upper.Above k)
      ∧ ∀ config,
        let solved := (solver "constant" backend config).solve (reached "constant" backend history)
        solved.1 = .ok .optimal
          ∧ ∃ values x, (solver "constant" backend config).variableValues solved.2
              = (.ok values, solved.2)
            ∧ values[0]? = some x ∧ lower ≤ x ∧ x ≤ upper := by
  intro lower upper backend history
  let problem : StagedProblem :=
    ⟨[true], [lower], [upper], [.ofInt 1], .maximize, [], true⟩
  have hproblem : (reached "constant" backend history).problem = some problem := by rfl
  have hcolumns : problem.boxed.columns = [⟨.ofInt 1, .integers (-2) 3⟩] := by decide +kernel
  have hwithin : problem.boxed.Within fun _ => .ofInt 3 := by
    intro j cost lo hi hcolumn
    rw [hcolumns] at hcolumn
    obtain _ | j := j <;> cases hcolumn
    exact Binary64.ofInt_between (by decide) (by decide) (by decide)
  have hbelow : lower.Below maxInt32 := by
    rw [Binary64.below_iff_exact (by decide +kernel)]
    decide +kernel
  have habove : upper.Above minInt32 := by
    rw [Binary64.above_iff_exact (by decide +kernel)]
    decide +kernel
  obtain ⟨cost, lo, hi, hcolumn, -, hexact⟩ :=
    integers_boxed (i := 0) "constant" backend history hproblem rfl rfl rfl
      (show lower ≠ .nan by decide +kernel) (show upper ≠ .nan by decide +kernel)
  obtain ⟨hrange, hreport⟩ := hexact hbelow habove
  rw [hcolumns] at hcolumn
  cases hcolumn
  exact ⟨problem, hproblem, hcolumns, hrange, hreport _ _ rfl hwithin⟩

/-- **Bounds beyond 32 bits are not kept**: between 3000000000 and 4000000000 the range holds the
greatest 32-bit integer and nothing else, and the solve reports it. -/
theorem range_misses_bounds :
    let lower := Binary64.ofInt 3000000000
    let upper := Binary64.ofInt 4000000000
    let greatest := Binary64.ofInt maxInt32
    let backend : Backend := fun _ => .optimal greatest fun _ => greatest
    let history : History := [({}, .single (.create 1)), ({}, .single (.setIntegers [0])),
      ({}, .single (.setLower [lower])), ({}, .single (.setUpper [upper])),
      ({}, .single (.setObjective [.ofInt 1]))]
    let solver := solver "constant" backend {}
    let solved := solver.solve (reached "constant" backend history)
    ∃ problem cost lo hi, (reached "constant" backend history).problem = some problem
      ∧ problem.integer[0]? = some true ∧ problem.lower[0]? = some lower
      ∧ problem.upper[0]? = some upper ∧ lower ≠ .nan ∧ upper ≠ .nan
      ∧ problem.boxed.columns[0]? = some ⟨cost, .integers lo hi⟩
      ∧ (∃ k : Int, (lo ≤ k ∧ k ≤ hi) ∧ ¬ (lower.Below k ∧ upper.Above k))
      ∧ (∃ k : Int, (lower.Below k ∧ upper.Above k) ∧ ¬ (lo ≤ k ∧ k ≤ hi))
      ∧ problem.boxed.Within (fun _ => greatest) ∧ solved.1 = .ok .optimal
      ∧ solver.variableValues solved.2 = (.ok [greatest], solved.2) ∧ ¬ lower ≤ greatest := by
  intro lower upper greatest backend history solver solved
  let problem : StagedProblem :=
    ⟨[true], [lower], [upper], [.ofInt 1], .minimize, [], false⟩
  have hcolumns : problem.boxed.columns
      = [⟨.ofInt 1, .integers maxInt32 maxInt32⟩] := by decide +kernel
  have hbelow : ∀ k : Int, lower.Below k ↔ 3000000000 ≤ k := fun k => by
    rw [Binary64.below_iff_exact (Binary64.isFinite_ofInt (by decide)),
      Binary64.exact_ofInt (by decide)]
    exact Int.cast_le
  have habove : ∀ k : Int, upper.Above k ↔ k ≤ 4000000000 := fun k => by
    rw [Binary64.above_iff_exact (Binary64.isFinite_ofInt (by decide)),
      Binary64.exact_ofInt (by decide)]
    exact Int.cast_le
  refine ⟨problem, _, _, _, rfl, rfl, rfl, rfl, by decide +kernel, by decide +kernel,
    congrArg (·[0]?) hcolumns, ⟨maxInt32, ?_⟩, ⟨3500000000, ?_⟩, ?_, rfl, rfl,
    by decide +kernel⟩
  · rw [hbelow, habove]
    decide
  · rw [hbelow, habove]
    decide
  · intro j cost lo hi hcolumn
    rw [hcolumns] at hcolumn
    obtain _ | j := j <;> cases hcolumn
    exact Binary64.ofInt_between (le_refl _) (le_refl _) (by decide)

end Staging

end LinearModel
