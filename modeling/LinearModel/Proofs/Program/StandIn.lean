import LinearModel.Proofs.Binary64.Order
import LinearModel.Proofs.Layout.Places
import LinearModel.Proofs.Draft.FlatRow
import LinearModel.Proofs.Program.Assembly
import LinearModel.Proofs.Program.Recorded

/-!
# The stand-in for infinity

The configuration is read at three moments: the bounds that a block does not give when it is
declared, and the stand-in for infinity when a row or an objective is recorded and when the flat
problem is made. In between it may change. As long as every configured stand-in is finite, no
infinity gets into coefficients or into the bounds of a flat problem, whatever the order of the
changes; the bounds of the blocks keep theirs.

* `Binary64.isInfinite_capInfinity` — what is replaced by a finite number is not infinite
* `Draft.Fits.capped`, `Layout.WellFormed.capped` — rows and bounds, element by element
* `exists_declared` — the bounds of a block are those it was declared with
* `run_keeps_infinity_out` — all of this after any run
-/

namespace LinearModel

/-! ## Numbers -/

namespace Binary64

def isInfinite : Binary64 → Bool
  | infinity _ => true
  | _ => false

theorem isInfinite_of_isFinite {x : Binary64} (h : x.isFinite = true) : x.isInfinite = false := by
  cases x with
  | infinity negative => cases h
  | _ => rfl

theorem isInfinite_capInfinity {bigM : Binary64} (h : bigM.isFinite = true) (x : Binary64) :
    (x.capInfinity bigM).isInfinite = false := by
  cases x with
  | infinity negative =>
    cases negative with
    | false => exact isInfinite_of_isFinite h
    | true => exact isInfinite_of_isFinite ((isFinite_neg bigM).trans h)
  | _ => rfl

end Binary64

/-! ## Rows and bounds by their elements -/

/-- The vector holds at the flat place of each index vector what `element` gives there, with an
infinity replaced by the stand-in of its sign. -/
def Layout.Capped (layout : Layout) (bigM : Binary64)
    (element : Placed → List Nat → Option Binary64) (flat : List Binary64) : Prop :=
  flat.length = layout.dimension
    ∧ ∀ block ∈ layout.blocks, ∀ index, block.shape.inRange index = true →
      ∃ x, element block index = some x
        ∧ flat[block.offset + block.shape.position index]? = some (x.capInfinity bigM)

theorem Layout.WellFormed.capped {layout : Layout} (hwf : layout.WellFormed)
    {bound : Placed → Tensor} (hbound : ∀ block ∈ layout.blocks, (bound block).shape = block.shape)
    (bigM : Binary64) :
    layout.Capped bigM (fun block => (bound block).get?)
      (layout.blocks.flatMap fun block => (bound block).entries.map (·.capInfinity bigM)) := by
  refine ⟨hwf.length_bounds hbound bigM, fun block hblock index hindex => ?_⟩
  have hrange : (bound block).shape.inRange index = true := hbound block hblock ▸ hindex
  obtain ⟨x, hx⟩ := Grid.exists_get? hrange
  refine ⟨x, hx, ?_⟩
  rw [hwf.getElem?_flatMap (length_capped hbound bigM) hblock
    ((bound block).map (·.capInfinity bigM)) rfl (hbound block hblock) hindex, Grid.get?_map, hx]
  rfl

/-- The element of a draft at an index vector of a block. -/
def Draft.element (draft : Draft) (block : Placed) (index : List Nat) : Option Binary64 :=
  Named.at? draft.arrays block.name index

theorem Draft.Fits.capped {draft : Draft} {layout : Layout} (hfits : draft.Fits layout)
    (hwf : layout.WellFormed) (bigM : Binary64) :
    layout.Capped bigM draft.element (draft.flatten bigM) := by
  refine ⟨hfits.length_flatten hwf bigM, fun block hblock index hindex => ?_⟩
  obtain ⟨tensor, hget, hshape⟩ := hfits.exists_get? hwf.names_nodup hblock
  have hrange : tensor.shape.inRange index = true := hshape ▸ hindex
  obtain ⟨x, hx⟩ := Grid.exists_get? hrange
  refine ⟨x, by rw [element, Named.at?_eq hget, hx], ?_⟩
  rw [Grid.get?_of_inRange hrange, hshape] at hx
  rw [← Placed.getElem?_part (Shape.position_lt hindex), hfits.part_flatten hwf hblock hget,
    List.getElem?_map, hx]
  rfl

/-- Where infinities are replaced by a finite stand-in, none is left. -/
theorem isInfinite_of_mem_capped {α : Type} {parts : List α} {entries : α → List Binary64}
    {bigM : Binary64} (hbigM : bigM.isFinite = true) {x : Binary64}
    (h : x ∈ parts.flatMap fun part => (entries part).map (·.capInfinity bigM)) :
    x.isInfinite = false := by
  obtain ⟨part, -, hx⟩ := List.mem_flatMap.mp h
  obtain ⟨raw, -, rfl⟩ := List.mem_map.mp hx
  exact Binary64.isInfinite_capInfinity hbigM raw

/-! ## Declared blocks -/

/-- What is done before a program is begun: the configuration is changed, a block is declared and
kept, or the kept block at a position is put at the end of the layout, if it can be placed. -/
inductive Preparation where
  | configure (config : Configuration)
  | declare (shape : Option Shape) (lower upper : Option Dense) (kind : VariableKind)
  | register (name : String) (position : Nat)

/-- The blocks that have been declared, the layout in which some of them have been placed, and the
configuration in force. -/
structure Prepared where
  declared : List Block
  layout : Layout
  config : Configuration

def Preparation.perform (prepared : Prepared) : Preparation → Prepared
  | configure config => { prepared with config := config }
  | declare shape lower upper kind =>
    { prepared with
      declared := prepared.declared ++ [.declare prepared.config shape lower upper kind] }
  | register name position =>
    match prepared.declared[position]? with
    | none => prepared
    | some block => { prepared with layout := prepared.layout.attempt (name, block) }

/-- What a list of preparations leaves. -/
def prepare (start : Configuration) (preparations : List Preparation) : Prepared :=
  preparations.foldl Preparation.perform ⟨[], .empty, start⟩

theorem prepare_concat (start : Configuration) (preparations : List Preparation)
    (last : Preparation) :
    prepare start (preparations ++ [last]) = last.perform (prepare start preparations) :=
  List.foldl_concat _ _ _ _

theorem Preparation.layout_perform (preparation : Preparation) (prepared : Prepared) :
    (preparation.perform prepared).layout = prepared.layout
      ∨ ∃ name position block, preparation = register name position
        ∧ prepared.declared[position]? = some block
        ∧ (preparation.perform prepared).layout = prepared.layout.attempt (name, block) := by
  cases preparation with
  | configure config => exact .inl rfl
  | declare shape lower upper kind => exact .inl rfl
  | register name position =>
    cases hblock : prepared.declared[position]? with
    | none => exact .inl (by simp [perform, hblock])
    | some block => exact .inr ⟨name, position, block, rfl, hblock, by simp [perform, hblock]⟩

theorem wellFormed_prepare (start : Configuration) (preparations : List Preparation) :
    (prepare start preparations).layout.WellFormed := by
  induction preparations using List.reverseRecOn with
  | nil => exact Layout.wellFormed_empty
  | append_singleton preparations last ih =>
    rw [prepare_concat]
    rcases last.layout_perform (prepare start preparations) with hsame | ⟨_, _, _, -, -, hplaced⟩
    · exact hsame ▸ ih
    · exact hplaced ▸ ih.attempt _

/-- The stand-in for infinity that is in force has been configured. -/
theorem bigM_prepare {P : Binary64 → Prop} {start : Configuration}
    {preparations : List Preparation} (hstart : P start.bigM)
    (hprepared : ∀ config, Preparation.configure config ∈ preparations → P config.bigM) :
    P (prepare start preparations).config.bigM := by
  induction preparations using List.reverseRecOn with
  | nil => exact hstart
  | append_singleton preparations last ih =>
    have hearlier : P (prepare start preparations).config.bigM :=
      ih fun config hmem => hprepared config (List.mem_append_left _ hmem)
    rw [prepare_concat]
    cases last with
    | configure config => exact hprepared config (by simp)
    | declare shape lower upper kind => exact hearlier
    | register name position =>
      rw [Preparation.perform]
      split <;> exact hearlier

/-- The block was declared and put into the layout later, and its bounds are those that were given
for it or, where there were none, those that were configured when it was declared. -/
def Placed.Declared (start : Configuration) (preparations : List Preparation) (placed : Placed) :
    Prop :=
  ∃ before shape lower upper kind after,
    preparations = before ++ .declare shape lower upper kind :: after
      ∧ .register placed.name (prepare start before).declared.length ∈ after
      ∧ placed.shape = shape.getD [1] ∧ placed.kind = kind
      ∧ Layout.fitBound placed.shape
        (lower.getD (.uniform (prepare start before).config.lower)) = .ok placed.lower
      ∧ Layout.fitBound placed.shape
        (upper.getD (.uniform (prepare start before).config.upper)) = .ok placed.upper

theorem Placed.Declared.concat {start : Configuration} {preparations : List Preparation}
    {placed : Placed} (h : placed.Declared start preparations) (last : Preparation) :
    placed.Declared start (preparations ++ [last]) := by
  obtain ⟨before, shape, lower, upper, kind, after, rfl, hregister, hbounds⟩ := h
  exact ⟨before, shape, lower, upper, kind, after ++ [last], by simp,
    List.mem_append_left _ hregister, hbounds⟩

/-- A kept block was declared under the configuration of that moment. -/
theorem exists_declare {start : Configuration} {preparations : List Preparation} {position : Nat}
    {block : Block} (h : (prepare start preparations).declared[position]? = some block) :
    ∃ before shape lower upper kind after,
      preparations = before ++ .declare shape lower upper kind :: after
        ∧ position = (prepare start before).declared.length
        ∧ block = .declare (prepare start before).config shape lower upper kind := by
  induction preparations using List.reverseRecOn with
  | nil => cases h
  | append_singleton preparations last ih =>
    -- it is the block just declared, or one that was kept before
    have hcases : (prepare start preparations).declared[position]? = some block
        ∨ ∃ shape lower upper kind, last = .declare shape lower upper kind
          ∧ position = (prepare start preparations).declared.length
          ∧ block = .declare (prepare start preparations).config shape lower upper kind := by
      rw [prepare_concat] at h
      cases last with
      | configure config => exact .inl h
      | register name position =>
        rw [Preparation.perform] at h
        split at h <;> exact .inl h
      | declare shape lower upper kind =>
        rw [Preparation.perform, List.getElem?_append] at h
        split at h
        · exact .inl h
        · obtain ⟨hzero, hblock⟩ : position - (prepare start preparations).declared.length = 0 ∧ _ :=
            by simpa [List.getElem?_singleton] using h
          exact .inr ⟨shape, lower, upper, kind, rfl, by omega, hblock.symm⟩
    rcases hcases with hearlier | ⟨shape, lower, upper, kind, rfl, hposition, hblock⟩
    · obtain ⟨before, shape, lower, upper, kind, after, rfl, hblock⟩ := ih hearlier
      exact ⟨before, shape, lower, upper, kind, after ++ [last], by simp, hblock⟩
    · exact ⟨preparations, shape, lower, upper, kind, [], rfl, hposition, hblock⟩

/-- **The bounds of a block are those with which it was declared**, whatever was configured between
its declaration and its registration. -/
theorem exists_declared {start : Configuration} {preparations : List Preparation} {placed : Placed}
    (h : placed ∈ (prepare start preparations).layout.blocks) :
    placed.Declared start preparations := by
  induction preparations using List.reverseRecOn with
  | nil => cases h
  | append_singleton preparations last ih =>
    rw [prepare_concat] at h
    rcases last.layout_perform (prepare start preparations)
      with hsame | ⟨name, position, block, rfl, hkept, hplaced⟩
    · exact (ih (hsame ▸ h)).concat last
    · rw [hplaced] at h
      rcases Layout.mem_blocks_attempt h with hearlier | ⟨hname, hshape, hkind, hlower, hupper⟩
      · exact (ih hearlier).concat _
      · obtain ⟨before, shape, lower, upper, kind, after, rfl, hposition, rfl⟩ :=
          exists_declare hkept
        rw [← hshape] at hlower hupper
        exact ⟨before, shape, lower, upper, kind, after ++ [.register name position], by simp,
          by simp [hname, hposition], hshape, hkind, hlower, hupper⟩

/-! ## Runs -/

/-- No number of the problem is infinite, the right-hand sides aside. -/
structure FlatProblem.FreeOfInfinity (problem : FlatProblem) : Prop where
  objective : ∀ x ∈ problem.objective, x.isInfinite = false
  matrix : ∀ row ∈ problem.matrix.rows, ∀ x ∈ row, x.isInfinite = false
  lower : ∀ x ∈ problem.lower, x.isInfinite = false
  upper : ∀ x ∈ problem.upper, x.isInfinite = false

theorem FlatProblem.Carries.freeOfInfinity {problem : FlatProblem} {program : Program}
    {objective : Objective} {bigM : Binary64} (h : problem.Carries program objective bigM)
    (hbigM : bigM.isFinite = true) (hobjective : ∀ x ∈ objective.coefficients, x.isInfinite = false)
    (hrows : ∀ row ∈ program.rows, ∀ x ∈ row.coefficients, x.isInfinite = false) :
    problem.FreeOfInfinity where
  objective := by
    rw [h.objective_eq]
    exact hobjective
  matrix := by
    rw [h.matrix_rows]
    intro coefficients hmem
    obtain ⟨row, hrow, rfl⟩ := List.mem_map.mp hmem
    exact hrows row hrow
  lower := by
    rw [h.lower_eq]
    exact fun x hx => isInfinite_of_mem_capped hbigM hx
  upper := by
    rw [h.upper_eq]
    exact fun x hx => isInfinite_of_mem_capped hbigM hx

/-- **No infinity gets to a solver, whatever the order of configuration changes.** Blocks are
declared, a program is begun over those that can be placed, and calls are made, with changes of the
configuration anywhere in between and every stand-in for infinity finite. Then rows and objective
are the recorded ones. Each coefficient is the one that was written, an infinity replaced by the
stand-in in force when it was recorded, and no later call changes a row. The flat problem takes them
over, and its bounds are those of the blocks, an infinity replaced by the stand-in in force at that
time. The bounds of the blocks are those of their declaration. -/
theorem run_keeps_infinity_out (start : Configuration) (preparations : List Preparation)
    (calls : List Call) (hstart : start.bigM.isFinite = true)
    (hprepared : ∀ config, .configure config ∈ preparations → config.bigM.isFinite = true)
    (hcalls : ∀ config, .configure config ∈ calls → config.bigM.isFinite = true) :
    let prepared := prepare start preparations
    let layout := prepared.layout
    let reached := run calls ⟨.ofLayout layout, prepared.config⟩
    let program := reached.program
    let recorded := recordings layout prepared.config.bigM calls
    program.rows = recorded.filterMap Recording.row?
      ∧ program.objective = (recorded.filterMap Recording.objective?).getLast?
      ∧ (∀ recording ∈ recorded,
        layout.Capped recording.bigM recording.draft.element recording.coefficients)
      ∧ (∀ later, program.rows <+: (run later reached).program.rows)
      ∧ (∀ row ∈ program.rows, ∀ x ∈ row.coefficients, x.isInfinite = false)
      ∧ (∀ objective, program.objective = some objective →
        (∀ x ∈ objective.coefficients, x.isInfinite = false)
          ∧ ∀ scale, ∃ problem, program.flatProblem reached.config scale = .ok problem
            ∧ problem.Carries program objective reached.config.bigM ∧ problem.FreeOfInfinity
            ∧ layout.Capped reached.config.bigM (fun block => block.lower.get?) problem.lower
            ∧ layout.Capped reached.config.bigM (fun block => block.upper.get?) problem.upper)
      ∧ program.layout = layout
      ∧ ∀ block ∈ program.layout.blocks, block.Declared start preparations := by
  intro prepared layout reached program recorded
  have hwf : layout.WellFormed := wellFormed_prepare start preparations
  have hsound : program.Sound := (Program.sound_ofLayout hwf).run calls
  have hlayout : program.layout = layout :=
    (run_ofLayout_idle layout prepared.config calls).1
  have hbegun : prepared.config.bigM.isFinite = true :=
    bigM_prepare (P := fun bigM => bigM.isFinite = true) hstart hprepared
  have hnow : reached.config.bigM.isFinite = true :=
    bigM_run (P := fun bigM => bigM.isFinite = true) hbegun hcalls
  obtain ⟨hrows, hobjective⟩ : program.rows = recorded.filterMap Recording.row?
      ∧ program.objective = (recorded.filterMap Recording.objective?).getLast? := by
    have h := @run_recorded ⟨.ofLayout layout, prepared.config⟩ (Program.idle_ofLayout layout) calls
    exact ⟨h.1, h.2.trans Option.or_none⟩
  -- whatever is recorded is recorded under a finite stand-in
  have hfree : ∀ recording ∈ recorded, ∀ x ∈ recording.coefficients, x.isInfinite = false := by
    intro recording hmem x hx
    have hbigM : recording.bigM.isFinite = true :=
      bigM_of_mem_recordings (P := fun bigM => bigM.isFinite = true) hbegun hcalls hmem
    exact isInfinite_of_mem_capped hbigM hx
  have hrowsFree : ∀ row ∈ program.rows, ∀ x ∈ row.coefficients, x.isInfinite = false := by
    intro row hrow
    rw [hrows] at hrow
    obtain ⟨recording, hmem, hrecord⟩ := List.mem_filterMap.mp hrow
    obtain ⟨side, -, rfl⟩ := Option.map_eq_some_iff.mp hrecord
    exact hfree recording hmem
  refine ⟨hrows, hobjective, ?_, ?_, hrowsFree, ?_, hlayout, ?_⟩
  · exact fun recording hmem => (fits_of_mem_recordings hmem).capped hwf recording.bigM
  · exact fun later => ⟨_, ((run_recorded hsound.idle later).1).symm⟩
  · intro objective hsome
    have hobjectiveFree : ∀ x ∈ objective.coefficients, x.isInfinite = false := by
      obtain ⟨recording, hmem, hrecord⟩ :=
        List.mem_filterMap.mp (List.mem_of_getLast? (hobjective.symm.trans hsome))
      obtain ⟨sense, -, rfl⟩ := Option.map_eq_some_iff.mp hrecord
      exact hfree recording hmem
    refine ⟨hobjectiveFree, fun scale => ?_⟩
    obtain ⟨problem, hproblem, hcarries⟩ := hsound.exists_flatProblem hsome reached.config scale
    refine ⟨problem, hproblem, hcarries,
      hcarries.freeOfInfinity hnow hobjectiveFree hrowsFree, ?_, ?_⟩
    · rw [hcarries.lower_eq, hlayout]
      exact hwf.capped (fun block hblock => (hwf.blocks block hblock).lower_shape) _
    · rw [hcarries.upper_eq, hlayout]
      exact hwf.capped (fun block hblock => (hwf.blocks block hblock).upper_shape) _
  · rw [hlayout]
    exact fun block hblock => exists_declared hblock

/-- The stand-in changes between the declaration of the blocks, a row, the objective and the flat
problem. -/
theorem run_keeps_infinity_out_changed_each_time :
    let preparations : List Preparation :=
      [.declare (some [2]) none none .continuous,
        .configure { bigM := .ofInt 50, lower := .infinity true },
        .register "x" 0, .declare none none (some (.uniform (.ofInt 8))) .integer,
        .register "x" 1, .register "y" 1]
    let calls : List Call :=
      [.write (.items [⟨"x", .flat 1, .infinity false⟩] (.infinity true) .ge),
        .configure { bigM := .ofInt 7 },
        .write (.objective [("y", .uniform (.infinity true))] .maximize),
        .configure { bigM := .ofInt 20 }]
    let prepared := prepare {} preparations
    let reached := run calls ⟨.ofLayout prepared.layout, prepared.config⟩
    ∃ problem, reached.program.flatProblem reached.config false = .ok problem
      ∧ problem.FreeOfInfinity
      ∧ reached.program.rows = [⟨[.zero, .ofInt 50, .zero], .ge, .infinity true⟩]
      ∧ problem.objective = [.zero, .zero, .ofInt (-7)]
      ∧ problem.lower = [.zero, .zero, .ofInt (-20)]
      ∧ problem.upper = [.ofInt 20, .ofInt 20, .ofInt 8] := by
  intro preparations calls prepared reached
  have hfinite : (Binary64.ofInt 7).isFinite = true ∧ (Binary64.ofInt 20).isFinite = true
      ∧ (Binary64.ofInt 50).isFinite = true := by decide +kernel
  have hprepared : ∀ config, .configure config ∈ preparations → config.bigM.isFinite = true := by
    simp [preparations, hfinite]
  have hcalls : ∀ config, .configure config ∈ calls → config.bigM.isFinite = true := by
    simp [calls, hfinite]
  obtain ⟨-, -, -, -, -, hobjective, -⟩ :=
    run_keeps_infinity_out {} preparations calls (by decide +kernel) hprepared hcalls
  obtain ⟨-, hproblem⟩ := hobjective _ rfl
  obtain ⟨problem, hflat, -, hfree, -⟩ := hproblem false
  refine ⟨problem, hflat, hfree, by decide +kernel, ?_, ?_, ?_⟩
  all_goals rw [← Except.ok.inj hflat]; decide +kernel

end LinearModel
