import LinearModel.Program.Solve
import LinearModel.Proofs.Draft.Shapes

/-!
# Runs of calls

A program is worked on by calls, in any order and whether or not they succeed: rows and objectives
are written, the program is solved by whatever solver, vectors are split, and the configuration is
changed. `Call.perform` is what one call leaves behind, and `run` is what a list of calls leaves.

* `Writing.fits_write` — a draft keeps its names and shapes, also in a call that fails half-way
* `Writing.perform_of_idle` — over a blank draft a writing call records the coefficients it has
  written, or gives its error and changes nothing
* `perform_program` — what any call does to a program with a blank draft: it does its writing, if it
  has one, and may set the status
* `run_idle` — after any run the layout is the one of the start and the draft is blank
-/

namespace LinearModel

/-! ## Writing calls -/

/-- A call that writes: one more row in one of the three ways, or the objective. -/
inductive Writing where
  | items (items : List Item) (rhs : Binary64) (relation : Relation)
  | arrays (arrays : List (String × Dense)) (rhs : Binary64) (relation : Relation)
  | edits (edits : List (String × Edit)) (rhs : Binary64) (relation : Relation)
  | objective (arrays : List (String × Dense)) (sense : Sense)

namespace Writing

/-- The call itself. -/
def perform (config : Configuration) : Writing → Program → Except ModelError Unit × Program
  | items list rhs relation => Program.addItems config list rhs relation
  | arrays list rhs relation => Program.addArrays config list rhs relation
  | edits list rhs relation => Program.addEdits config list rhs relation
  | objective list sense => Program.setObjective config list sense

/-- What the call writes into a draft. -/
def write : Writing → Draft → Except ModelError Unit × Draft
  | items list _ _ => Program.writeItems list
  | arrays list _ _ => Program.writeArrays list
  | edits list _ _ => Program.writeEdits list
  | objective list _ => Program.writeArrays list

/-- The relation and the right-hand side, if a row is written. -/
def side? : Writing → Option (Relation × Binary64)
  | items _ rhs relation | arrays _ rhs relation | edits _ rhs relation => some (relation, rhs)
  | objective _ _ => none

/-- The direction, if the objective is written. -/
def sense? : Writing → Option Sense
  | objective _ sense => some sense
  | _ => none

/-- The row that is made of the coefficients. -/
def row? (writing : Writing) (coefficients : List Binary64) : Option Row :=
  writing.side?.map fun side => ⟨coefficients, side.1, side.2⟩

/-- The objective that is made of the coefficients. -/
def objective? (writing : Writing) (coefficients : List Binary64) : Option Objective :=
  writing.sense?.map fun sense => ⟨coefficients, sense⟩

/-- The program with the coefficients as one more row or as its objective. -/
def record (writing : Writing) (coefficients : List Binary64) (program : Program) : Program :=
  { program with
    rows := program.rows ++ (writing.row? coefficients).toList
    objective := (writing.objective? coefficients).or program.objective }

theorem perform_eq_compose (config : Configuration) (writing : Writing) :
    writing.perform config = Program.compose config writing.write writing.record := by
  cases writing with
  | items list rhs relation => rfl
  | arrays list rhs relation => rfl
  | edits list rhs relation => rfl
  | objective list sense =>
    have hrecord : (objective list sense).record = fun coefficients program =>
        { program with objective := some ⟨coefficients, sense⟩ } := by
      funext coefficients program
      simp [record, row?, objective?, side?, sense?]
    rw [hrecord]
    rfl

/-- How a call ends with its coefficients or its error: they are recorded, or the program is as it
was. -/
def finish (writing : Writing) (answer : Except ModelError (List Binary64)) (program : Program) :
    Except ModelError Unit × Program :=
  match answer with
  | .ok coefficients => (.ok (), writing.record coefficients program)
  | .error error => (.error error, program)

/-- The draft that the call makes of a blank one, if all of it can be written. -/
def drafted (writing : Writing) (layout : Layout) : Except ModelError Draft :=
  match writing.write (.blank layout) with
  | (.error error, _) => .error error
  | (.ok (), draft) => .ok draft

/-- The flat coefficients that the call writes into a blank draft. -/
def coefficients (writing : Writing) (layout : Layout) (bigM : Binary64) :
    Except ModelError (List Binary64) :=
  (writing.drafted layout).map fun draft => draft.flatten bigM

/-- A draft keeps its names and shapes, also where a call fails after it has written a part. -/
theorem fits_write (writing : Writing) {draft : Draft} {layout : Layout}
    (hfits : draft.Fits layout) : (writing.write draft).2.Fits layout := by
  cases writing with
  | items list rhs relation => exact hfits.writeItems list
  | arrays list rhs relation => exact hfits.writeArrays list
  | edits list rhs relation => exact hfits.writeEdits list
  | objective list sense => exact hfits.writeArrays list

theorem drafted_eq_ok {writing : Writing} {layout : Layout} {draft : Draft}
    (h : writing.write (.blank layout) = (.ok (), draft)) : writing.drafted layout = .ok draft := by
  rw [drafted, h]

theorem fits_drafted {writing : Writing} {layout : Layout} {draft : Draft}
    (h : writing.drafted layout = .ok draft) : draft.Fits layout := by
  have hfits := writing.fits_write (Draft.fits_blank layout)
  unfold drafted at h
  split at h
  · cases h
  · next hwrite =>
    rw [hwrite] at hfits
    exact Except.ok.inj h ▸ hfits

end Writing

/-- No row is being written: the draft is blank. -/
def Program.Idle (program : Program) : Prop := program.draft = .blank program.layout

theorem Program.idle_ofLayout (layout : Layout) : (ofLayout layout).Idle := rfl

/-- **A writing call depends on layout and `bigM` alone**, and it leaves a blank draft blank whether
it succeeds or fails. -/
theorem Writing.perform_of_idle {program : Program} (h : program.Idle) (config : Configuration)
    (writing : Writing) :
    writing.perform config program
      = writing.finish (writing.coefficients program.layout config.bigM) program := by
  have hblank : program.draft = .blank program.layout := h
  have hfits := writing.fits_write (Draft.fits_blank program.layout)
  rw [perform_eq_compose, Program.compose, coefficients, drafted, hblank]
  rcases hwrite : writing.write (.blank program.layout) with ⟨answer, written⟩
  -- the writing has kept names and shapes, and so erasing gives the blank draft again
  have herased : written.eraseAll = program.draft := by
    rw [hwrite] at hfits
    rw [hfits.eraseAll_eq, hblank]
  cases answer with
  | error error =>
    show (Except.error error, { program with draft := written.eraseAll }) = _
    rw [herased]
    rfl
  | ok _ =>
    show (Except.ok (), writing.record _ { program with draft := written.eraseAll }) = _
    rw [herased]
    rfl

/-- A row that can be written is appended. -/
theorem Writing.perform_row {program : Program} (h : program.Idle) (config : Configuration)
    (writing : Writing) {relation : Relation} {rhs : Binary64}
    (hside : writing.side? = some (relation, rhs)) {draft : Draft}
    (hwrite : writing.write (.blank program.layout) = (.ok (), draft)) :
    writing.perform config program = (.ok (),
      { program with rows := program.rows ++ [⟨draft.flatten config.bigM, relation, rhs⟩] }) := by
  have hsense : writing.sense? = none := by cases writing <;> first | rfl | cases hside
  rw [perform_of_idle h, coefficients, drafted_eq_ok hwrite]
  simp [Except.map, finish, record, row?, objective?, hside, hsense]

/-! ## All calls -/

/-- A call on a program, or a change of the configuration that later calls read. A solver may be
any, in any state. -/
inductive Call : Type 1 where
  | write (writing : Writing)
  | solve {σ : Type} (solver : Solver σ) (state : σ) (scale : Bool)
  | solveFor {σ : Type} (solver : Solver σ) (state : σ) (arrays : List (String × Dense))
      (sense : Sense) (scale : Bool)
  /-- Cutting a flat vector only reads. -/
  | split (flat : List Binary64)
  | configure (config : Configuration)

/-- A program and the configuration in force. -/
structure Workspace where
  program : Program
  config : Configuration

namespace Call

/-- What a call leaves behind. -/
def perform : Call → Workspace → Workspace
  | write writing, space => { space with program := (writing.perform space.config space.program).2 }
  | solve solver state scale, space =>
    { space with program := (space.program.solve space.config solver scale state).2.1 }
  | solveFor solver state arrays sense scale, space =>
    { space with
      program := (space.program.solveFor space.config solver arrays sense scale state).2.1 }
  | split _, space => space
  | configure config, space => { space with config := config }

/-- The writing that is part of a call. -/
def writing? : Call → Option Writing
  | write writing => some writing
  | solveFor _ _ arrays sense _ => some (.objective arrays sense)
  | _ => none

/-- The writing that is part of a call, and the draft that it makes of a blank one; nothing if it
fails. -/
def drafted? (layout : Layout) (call : Call) : Option (Writing × Draft) :=
  call.writing?.bind fun writing =>
    match writing.drafted layout with
    | .ok draft => some (writing, draft)
    | .error _ => none

/-- The program after the writing that is part of a call. -/
def written (call : Call) (space : Workspace) : Program :=
  match call.writing? with
  | none => space.program
  | some writing =>
    (writing.finish (writing.coefficients space.program.layout space.config.bigM)
      space.program).2

end Call

/-- What a list of calls leaves behind, the first call made first. -/
def run (calls : List Call) (start : Workspace) : Workspace :=
  calls.foldl (fun space call => call.perform space) start

/-! ## What one call does -/

/-- Solving changes nothing but the status. -/
theorem Program.solve_program {σ : Type} (config : Configuration) (solver : Solver σ)
    (scale : Bool) (program : Program) (state : σ) :
    ∃ status, (program.solve config solver scale state).2.1
      = { program with status := status } := by
  unfold Program.solve
  split
  · exact ⟨program.status, rfl⟩
  · split
    · exact ⟨program.status, rfl⟩
    · next status _ _ _ => exact ⟨status, rfl⟩

theorem Call.fits_drafted {call : Call} {layout : Layout} {writing : Writing} {draft : Draft}
    (h : call.drafted? layout = some (writing, draft)) : draft.Fits layout := by
  obtain ⟨other, -, hmatch⟩ := Option.bind_eq_some_iff.mp h
  split at hmatch
  · next draft hdrafted =>
    cases hmatch
    exact Writing.fits_drafted hdrafted
  · cases hmatch

theorem Call.written_eq_perform {space : Workspace} (h : space.program.Idle) {call : Call}
    {writing : Writing} (hwriting : call.writing? = some writing) :
    call.written space = (writing.perform space.config space.program).2 := by
  rw [written, hwriting, writing.perform_of_idle h]

/-- **A call does its writing, if it has one, and may set the status.** -/
theorem perform_program {space : Workspace} (h : space.program.Idle) (call : Call) :
    ∃ status, (call.perform space).program = { call.written space with status := status } := by
  cases call with
  | write writing =>
    refine ⟨(writing.perform space.config space.program).2.status, ?_⟩
    rw [Call.written_eq_perform h rfl]
    rfl
  | solve solver state scale => exact space.program.solve_program ..
  | solveFor solver state arrays sense scale =>
    rw [Call.written_eq_perform h rfl]
    show ∃ status, (space.program.solveFor space.config solver arrays sense scale state).2.1
      = { (space.program.setObjective space.config arrays sense).2 with status := status }
    unfold Program.solveFor
    -- the objective may fail to be set; the solver is asked only where it does not
    split
    · next next hset => exact ⟨next.status, by rw [hset]⟩
    · next next hset => rw [hset]; exact next.solve_program ..
  | split flat => exact ⟨space.program.status, rfl⟩
  | configure config => exact ⟨space.program.status, rfl⟩

/-- The writing part of a call either fails, and records nothing, or records its flattened draft. -/
theorem written_cases (call : Call) (layout : Layout) (config : Configuration) :
    (call.drafted? layout = none ∧ ∀ program : Program, program.layout = layout →
        call.written ⟨program, config⟩ = program)
      ∨ ∃ writing draft, call.drafted? layout = some (writing, draft)
        ∧ ∀ program : Program, program.layout = layout →
          call.written ⟨program, config⟩
            = writing.record (draft.flatten config.bigM) program := by
  unfold Call.written Call.drafted?
  cases hwriting : call.writing? with
  | none => exact Or.inl ⟨rfl, fun _ _ => rfl⟩
  | some writing =>
    cases hdrafted : writing.drafted layout with
    | error error =>
      refine Or.inl ⟨by simp [hdrafted], fun program hlayout => ?_⟩
      simp [hlayout, Writing.coefficients, hdrafted, Except.map, Writing.finish]
    | ok draft =>
      refine Or.inr ⟨writing, draft, by simp [hdrafted], fun program hlayout => ?_⟩
      simp [hlayout, Writing.coefficients, hdrafted, Except.map, Writing.finish]

theorem perform_idle {space : Workspace} (h : space.program.Idle) (call : Call) :
    (call.perform space).program.layout = space.program.layout
      ∧ (call.perform space).program.Idle := by
  obtain ⟨status, hprogram⟩ := perform_program h call
  have hwritten : (call.written space).layout = space.program.layout
      ∧ (call.written space).draft = space.program.draft := by
    rcases written_cases call space.program.layout space.config with ⟨-, hsame⟩ | ⟨_, _, -, hrec⟩
    · have hwritten : call.written space = space.program := hsame space.program rfl
      exact ⟨by rw [hwritten], by rw [hwritten]⟩
    · have hwritten : call.written space = _ := hrec space.program rfl
      exact ⟨by rw [hwritten]; rfl, by rw [hwritten]; rfl⟩
  rw [hprogram]
  exact ⟨hwritten.1, by rw [Program.Idle, hwritten.1, hwritten.2]; exact h⟩

/-! ## What a run does -/

/-- **What every call keeps, a run keeps.** -/
theorem run_induction {P : Workspace → Prop}
    (hstep : ∀ (call : Call) space, P space → P (call.perform space)) {start : Workspace}
    (h : P start) (calls : List Call) : P (run calls start) := by
  induction calls generalizing start with
  | nil => exact h
  | cons call calls ih => exact ih (hstep call start h)

/-- **The layout stays, and the draft is blank between the calls.** -/
theorem run_idle {start : Workspace} (h : start.program.Idle) (calls : List Call) :
    (run calls start).program.layout = start.program.layout
      ∧ (run calls start).program.Idle := by
  refine run_induction (P := fun space => space.program.layout = start.program.layout
    ∧ space.program.Idle) (fun call space hspace => ?_) ⟨rfl, h⟩ calls
  obtain ⟨hlayout, hidle⟩ := perform_idle hspace.2 call
  exact ⟨hlayout.trans hspace.1, hidle⟩

theorem run_ofLayout_idle (layout : Layout) (config : Configuration) (calls : List Call) :
    (run calls ⟨.ofLayout layout, config⟩).program.layout = layout
      ∧ (run calls ⟨.ofLayout layout, config⟩).program.Idle :=
  run_idle (Program.idle_ofLayout layout) calls

end LinearModel
