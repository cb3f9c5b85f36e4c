import LinearModel.Proofs.Program.Assembly
import Mathlib.Data.List.Flatten

/-!
# The integer variables

Which variables have to be whole is told in two ways: by a list of their indices, which is put
together from the ranges of the integer blocks, and by a flag for each variable, which is put
together from the lengths of all blocks. Both say the same, and so do the flags that a solver raises
from the list.

* `Layout.WellFormed.mem_integerIndices_iff` — the indices are those of the integer blocks
* `Layout.WellFormed.pairwise_integerIndices` — they ascend
* `Layout.WellFormed.integerFlags_eq` — the flag of a variable says whether its index is listed
* `Program.integers_agree` — all of this of a reached layout, and that the flags are the ones that
  are staged
-/

namespace LinearModel

namespace Layout.WellFormed

variable {layout : Layout} (hwf : layout.WellFormed)

include hwf

/-- **An index is listed exactly if it lies in an integer block.** -/
theorem mem_integerIndices_iff {block : Placed} (hblock : block ∈ layout.blocks) {i : Nat}
    (hi : i ∈ block.range) : i ∈ layout.integerIndices ↔ block.kind = .integer := by
  constructor
  · intro h
    obtain ⟨other, hother, hi'⟩ := List.mem_flatMap.mp h
    obtain ⟨hmem, hkind⟩ := List.mem_filter.mp hother
    rw [hwf.eq_of_mem_range hblock hmem hi hi']
    exact of_decide_eq_true hkind
  · intro hkind
    exact List.mem_flatMap.mpr ⟨block, List.mem_filter.mpr ⟨hblock, decide_eq_true hkind⟩, hi⟩

/-- **The indices ascend**, as they are some of those that the ranges of all blocks list. -/
theorem pairwise_integerIndices : layout.integerIndices.Pairwise (· < ·) := by
  have hsub : layout.integerIndices.Sublist (layout.blocks.flatMap Placed.range) :=
    List.filter_sublist.flatMap _
  rw [hwf.partitioned.ranges_eq] at hsub
  exact List.pairwise_lt_range.sublist hsub

/-- **The flag of a variable says whether its index is listed.** -/
theorem integerFlags_eq : layout.integerFlags
    = (List.range layout.dimension).map fun i => decide (i ∈ layout.integerIndices) := by
  rw [← hwf.partitioned.ranges_eq, List.map_flatMap]
  refine List.flatMap_congr fun block hblock => ?_
  have hflags : block.range.map (fun i => decide (i ∈ layout.integerIndices))
      = block.range.map fun _ => decide (block.kind = .integer) :=
    List.map_congr_left fun i hi => decide_eq_decide.mpr (hwf.mem_integerIndices_iff hblock hi)
  rw [hflags, List.map_const', Placed.range, List.length_range']

theorem length_integerFlags : layout.integerFlags.length = layout.dimension := by
  rw [hwf.integerFlags_eq, List.length_map, List.length_range]

theorem getElem?_integerFlags {i : Nat} (hi : i < layout.dimension) :
    layout.integerFlags[i]? = some (decide (i ∈ layout.integerIndices)) := by
  simp [hwf.integerFlags_eq, hi]

end Layout.WellFormed

/-- What is staged of a program are the flags of its layout. -/
theorem Program.Sound.integer_ofFlat {program : Program} (hsound : program.Sound)
    {objective : Objective} (hobjective : program.objective = some objective)
    {config : Configuration} {scale : Bool} {problem : FlatProblem}
    (hproblem : program.flatProblem config scale = .ok problem)
    (hcarries : problem.Carries program objective config.bigM) :
    (StagedProblem.ofFlat problem).integer = program.layout.integerFlags := by
  have hcount : problem.variableCount = program.layout.dimension :=
    (hcarries.sized hsound hobjective).length_objective
  have hintegers : program.layout.integerIndices = problem.integers :=
    congrArg ConstraintSystem.integers (constraintSystem_of_flatProblem hproblem)
  rw [StagedProblem.ofFlat, hsound.layout.integerFlags_eq, hcount, hintegers]

/-- **The descriptions of the integer variables agree.** Of a reached layout, there is one flag for
each variable, the listed indices ascend and lie below the dimension, and an index is listed exactly
if its flag is raised. Each index lies in the range of one block, and its flag is raised exactly if
this block is one of integers. After the flat problem of any program over the layout has been
loaded, whatever has been staged or solved before, the flags that are staged are those of the
layout. -/
theorem Program.integers_agree (attempts : List (String × Block)) :
    let layout := Layout.ofAttempts attempts
    layout.integerFlags.length = layout.dimension
      ∧ layout.integerIndices.Pairwise (· < ·)
      ∧ (∀ i ∈ layout.integerIndices, i < layout.dimension)
      ∧ (∀ i, i ∈ layout.integerIndices ↔ layout.integerFlags[i]? = some true)
      ∧ (∀ i < layout.dimension, ∃! block, block ∈ layout.blocks ∧ i ∈ block.range)
      ∧ (∀ block ∈ layout.blocks, ∀ i ∈ block.range,
        layout.integerFlags[i]? = some (decide (block.kind = .integer)))
      ∧ ∀ calls start, let program := (run calls ⟨.ofLayout layout, start⟩).program
        ∀ objective, program.objective = some objective → ∀ config scale,
          ∃ problem, program.flatProblem config scale = .ok problem
            ∧ ∀ name backend running state, ∃ staged,
              (Staging.solver name backend running).load problem state
                  = (.ok (), ⟨some staged, none⟩)
                ∧ staged.integer = layout.integerFlags := by
  intro layout
  have hwf : layout.WellFormed := Layout.wellFormed_ofAttempts attempts
  refine ⟨hwf.length_integerFlags, hwf.pairwise_integerIndices, fun i => hwf.integerIndices_lt,
    fun i => ?_, fun i hi => ?_, fun block hblock i hi => ?_, ?_⟩
  · constructor
    · intro h
      rw [hwf.getElem?_integerFlags (hwf.integerIndices_lt h), decide_eq_true h]
    · intro h
      obtain ⟨hlt, -⟩ := List.getElem?_eq_some_iff.mp h
      rw [hwf.getElem?_integerFlags (hwf.length_integerFlags ▸ hlt)] at h
      exact of_decide_eq_true (Option.some.inj h)
  · obtain ⟨block, hblock, hmem⟩ := hwf.exists_mem_range hi
    exact ⟨block, ⟨hblock, hmem⟩, fun other hother =>
      hwf.eq_of_mem_range hother.1 hblock hother.2 hmem⟩
  · rw [hwf.getElem?_integerFlags (hwf.lt_of_mem_range hblock hi)]
    exact congrArg some (decide_eq_decide.mpr (hwf.mem_integerIndices_iff hblock hi))
  · intro calls start program objective hobjective config scale
    have hsound : program.Sound := Reachable.sound ⟨attempts, start, calls, rfl⟩
    obtain ⟨problem, hproblem, hcarries⟩ := hsound.exists_flatProblem hobjective config scale
    refine ⟨problem, hproblem, fun name backend running state => ⟨.ofFlat problem, ?_, ?_⟩⟩
    · exact Staging.load_eq_ok hcarries.coherent name backend running state
    · rw [hsound.integer_ofFlat hobjective hproblem hcarries,
        (run_ofLayout_idle layout start calls).1]

/-- Integers between other variables. -/
theorem Program.integers_agree_second_block :
    let integers : Block := ⟨[1, 2], .uniform .zero, .uniform (.infinity false), .integer⟩
    let layout := Layout.ofAttempts
      [("x", .ofShape {} [2]), ("y", integers), ("z", .scalar {}), ("y", .scalar {})]
    let program := (run [.write (.objective [("z", .uniform .negZero)] .maximize)]
      ⟨.ofLayout layout, {}⟩).program
    layout.integerIndices = [2, 3] ∧ layout.integerFlags = [false, false, true, true, false]
      ∧ layout.integerFlags.length = layout.dimension
      ∧ ∃ problem, program.flatProblem {} true = .ok problem
        ∧ ∀ name backend running state, ∃ staged,
          (Staging.solver name backend running).load problem state
              = (.ok (), ⟨some staged, none⟩)
            ∧ staged.integer = [false, false, true, true, false] := by
  intro integers layout program
  obtain ⟨hlength, -, -, -, -, -, hstaged⟩ := integers_agree
    [("x", .ofShape {} [2]), ("y", integers), ("z", .scalar {}), ("y", .scalar {})]
  have hflags : layout.integerFlags = [false, false, true, true, false] := by decide +kernel
  obtain ⟨objective, hobjective⟩ : ∃ objective, program.objective = some objective := ⟨_, rfl⟩
  obtain ⟨problem, hproblem, hload⟩ := hstaged _ _ objective hobjective {} true
  exact ⟨by decide +kernel, hflags, hlength, problem, hproblem, hflags ▸ hload⟩

end LinearModel
