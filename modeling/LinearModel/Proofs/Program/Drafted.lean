import LinearModel.Proofs.Program.Run
import Mathlib.Data.List.Forall2
import Mathlib.Data.List.Induction
import Mathlib.Data.Option.Basic

/-!
# What a run has drafted

A program keeps its rows flat. Here they are traced back to the arrays that the calls wrote: the
rows of a program are the drafted rows of its run one by one, and its objective is the one drafted
last.

* `Drafted.perform` — one more call
* `run_drafted` — rows and objective after a run over a fresh program
-/

namespace LinearModel

/-- A row by the arrays that were written for it. -/
structure DraftedRow where
  draft : Draft
  relation : Relation
  rhs : Binary64

/-- An objective by the arrays that were written for it. -/
structure DraftedObjective where
  draft : Draft
  sense : Sense

/-- The row is the drafted one, flattened under some stand-in for infinity. -/
def DraftedRow.Flat (drafted : DraftedRow) (row : Row) : Prop :=
  ∃ bigM, row = ⟨drafted.draft.flatten bigM, drafted.relation, drafted.rhs⟩

def DraftedObjective.Flat (drafted : DraftedObjective) (objective : Objective) : Prop :=
  ∃ bigM, objective = ⟨drafted.draft.flatten bigM, drafted.sense⟩

namespace Call

def draftedRow? (layout : Layout) (call : Call) : Option DraftedRow :=
  (call.drafted? layout).bind fun entry =>
    entry.1.side?.map fun side => ⟨entry.2, side.1, side.2⟩

def draftedObjective? (layout : Layout) (call : Call) : Option DraftedObjective :=
  (call.drafted? layout).bind fun entry => entry.1.sense?.map fun sense => ⟨entry.2, sense⟩

end Call

/-- The rows of all calls that have written one. -/
def draftedRows (layout : Layout) (calls : List Call) : List DraftedRow :=
  calls.filterMap (Call.draftedRow? layout)

/-- The last objective that has been written. -/
def draftedObjective? (layout : Layout) (calls : List Call) : Option DraftedObjective :=
  (calls.filterMap (Call.draftedObjective? layout)).getLast?

theorem draftedRows_concat (layout : Layout) (calls : List Call) (call : Call) :
    draftedRows layout (calls ++ [call])
      = draftedRows layout calls ++ (call.draftedRow? layout).toList := by
  rw [draftedRows, List.filterMap_append, draftedRows]
  cases h : call.draftedRow? layout <;> simp [h]

theorem draftedObjective?_concat (layout : Layout) (calls : List Call) (call : Call) :
    draftedObjective? layout (calls ++ [call])
      = (call.draftedObjective? layout).or (draftedObjective? layout calls) := by
  rw [draftedObjective?, List.filterMap_append, List.getLast?_append, draftedObjective?]
  cases h : call.draftedObjective? layout <;> simp [h]

theorem fits_of_mem_draftedRows {layout : Layout} {calls : List Call} {row : DraftedRow}
    (h : row ∈ draftedRows layout calls) : row.draft.Fits layout := by
  obtain ⟨call, -, hrow⟩ := List.mem_filterMap.mp h
  obtain ⟨entry, hentry, hside⟩ := Option.bind_eq_some_iff.mp hrow
  obtain ⟨side, -, rfl⟩ := Option.map_eq_some_iff.mp hside
  exact Call.fits_drafted hentry

theorem fits_of_draftedObjective? {layout : Layout} {calls : List Call}
    {objective : DraftedObjective} (h : draftedObjective? layout calls = some objective) :
    objective.draft.Fits layout := by
  obtain ⟨call, -, hobjective⟩ := List.mem_filterMap.mp (List.mem_of_getLast? h)
  obtain ⟨entry, hentry, hsense⟩ := Option.bind_eq_some_iff.mp hobjective
  obtain ⟨sense, -, rfl⟩ := Option.map_eq_some_iff.mp hsense
  exact Call.fits_drafted hentry

/-! ## Runs -/

/-- Rows and objective are the drafted ones. -/
structure Drafted (rows : List DraftedRow) (objective : Option DraftedObjective)
    (program : Program) : Prop where
  rows : List.Forall₂ DraftedRow.Flat rows program.rows
  objective : Option.Rel DraftedObjective.Flat objective program.objective

/-- The row of a program that stands where a drafted row stands. -/
theorem Drafted.exists_row {rows : List DraftedRow} {objective : Option DraftedObjective}
    {program : Program} (h : Drafted rows objective program) {i : Nat} {row : DraftedRow}
    (hrow : rows[i]? = some row) :
    ∃ bigM, program.rows[i]? = some ⟨row.draft.flatten bigM, row.relation, row.rhs⟩ := by
  obtain ⟨hi, rfl⟩ := List.getElem?_eq_some_iff.mp hrow
  obtain ⟨hlen, hflat⟩ := List.forall₂_iff_get.mp h.rows
  obtain ⟨bigM, heq⟩ := hflat i hi (hlen ▸ hi)
  exact ⟨bigM, List.getElem?_eq_some_iff.mpr ⟨hlen ▸ hi, heq⟩⟩

theorem Drafted.exists_objective {rows : List DraftedRow} {objective : DraftedObjective}
    {program : Program} (h : Drafted rows (some objective) program) :
    ∃ bigM, program.objective = some ⟨objective.draft.flatten bigM, objective.sense⟩ := by
  have hrel := h.objective
  generalize program.objective = recorded at hrel ⊢
  cases hrel with
  | some hflat =>
    obtain ⟨bigM, rfl⟩ := hflat
    exact ⟨bigM, rfl⟩

/-- Recording a drafted row or objective. -/
theorem Drafted.record {rows : List DraftedRow} {objective : Option DraftedObjective}
    {program : Program} (h : Drafted rows objective program) (writing : Writing) (draft : Draft)
    (bigM : Binary64) :
    Drafted (rows ++ (writing.side?.map fun side => ⟨draft, side.1, side.2⟩).toList)
      ((writing.sense?.map fun sense => ⟨draft, sense⟩).or objective)
      (writing.record (draft.flatten bigM) program) where
  rows := by
    refine List.rel_append h.rows ?_
    cases hside : writing.side? with
    | none => simp [Writing.row?, hside]
    | some side => simpa [Writing.row?, hside] using ⟨bigM, rfl⟩
  objective := by
    cases hsense : writing.sense? with
    | none => simpa [Writing.record, Writing.objective?, hsense] using h.objective
    | some sense => simpa [Writing.record, Writing.objective?, hsense] using ⟨bigM, rfl⟩

/-- A call that follows other calls. -/
theorem Drafted.perform {layout : Layout} {space : Workspace} {calls : List Call}
    (hlayout : space.program.layout = layout) (hidle : space.program.Idle)
    (h : Drafted (draftedRows layout calls) (draftedObjective? layout calls) space.program)
    (call : Call) :
    Drafted (draftedRows layout (calls ++ [call])) (draftedObjective? layout (calls ++ [call]))
      (call.perform space).program := by
  obtain ⟨status, hprogram⟩ := perform_program hidle call
  have hwritten : Drafted (draftedRows layout (calls ++ [call]))
      (draftedObjective? layout (calls ++ [call])) (call.written space) := by
    rw [draftedRows_concat, draftedObjective?_concat, Call.draftedRow?, Call.draftedObjective?]
    rcases written_cases call layout space.config with
      ⟨hnone, hsame⟩ | ⟨writing, draft, hsome, hrecord⟩
    · rw [hnone, show call.written space = space.program from hsame space.program hlayout]
      simpa using h
    · rw [hsome, show call.written space = _ from hrecord space.program hlayout]
      exact h.record writing draft space.config.bigM
  rw [hprogram]
  exact ⟨hwritten.rows, hwritten.objective⟩

/-- **The rows of a run are those that its calls have drafted, and the objective is the one drafted
last.** -/
theorem run_drafted (layout : Layout) (config : Configuration) (calls : List Call) :
    Drafted (draftedRows layout calls) (draftedObjective? layout calls)
      (run calls ⟨.ofLayout layout, config⟩).program := by
  induction calls using List.reverseRecOn with
  | nil => exact ⟨.nil, .none⟩
  | append_singleton calls call ih =>
    obtain ⟨hlayout, hidle⟩ := run_ofLayout_idle layout config calls
    rw [run, List.foldl_concat]
    exact ih.perform hlayout hidle call

end LinearModel
