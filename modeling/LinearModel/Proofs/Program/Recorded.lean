import LinearModel.Proofs.Program.Run

/-!
# What a run has recorded

A call that writes flattens its draft under the stand-in for infinity of that moment. The rows and
the objective of a program are what its calls have recorded in this way, and a later change of the
configuration is not seen in them.

* `run_recorded` — rows and objective after a run are those of its recordings
* `bigM_of_mem_recordings` — each recording was made under a stand-in that has been configured
-/

namespace LinearModel

/-- What a call has written, and the stand-in for infinity that was in force. -/
structure Recording where
  writing : Writing
  draft : Draft
  bigM : Binary64

namespace Recording

/-- The flat coefficients, as they were recorded. -/
def coefficients (recording : Recording) : List Binary64 :=
  recording.draft.flatten recording.bigM

/-- The recorded row, if it was one. -/
def row? (recording : Recording) : Option Row :=
  recording.writing.row? recording.coefficients

/-- The recorded objective, if it was one. -/
def objective? (recording : Recording) : Option Objective :=
  recording.writing.objective? recording.coefficients

end Recording

/-- The stand-in for infinity after a call, if it is `bigM` before. -/
def Call.bigMAfter (bigM : Binary64) : Call → Binary64
  | configure config => config.bigM
  | _ => bigM

/-- What the calls record over a layout, if the stand-in for infinity is `bigM` before them. -/
def recordings (layout : Layout) : Binary64 → List Call → List Recording
  | _, [] => []
  | bigM, call :: calls =>
    ((call.drafted? layout).map fun entry => ⟨entry.1, entry.2, bigM⟩).toList
      ++ recordings layout (call.bigMAfter bigM) calls

theorem Call.bigM_perform (call : Call) (space : Workspace) :
    (call.perform space).config.bigM = call.bigMAfter space.config.bigM := by
  cases call <;> rfl

/-- A call adds its recording to the rows, or puts it in the place of the objective. -/
theorem Call.written_recording (call : Call) (program : Program) (config : Configuration) :
    let recording? : Option Recording :=
      (call.drafted? program.layout).map fun entry => ⟨entry.1, entry.2, config.bigM⟩
    (call.written ⟨program, config⟩).rows
        = program.rows ++ recording?.toList.filterMap Recording.row?
      ∧ (call.written ⟨program, config⟩).objective
        = (recording?.bind Recording.objective?).or program.objective := by
  intro recording?
  rcases written_cases call program.layout config with ⟨hnone, hsame⟩ | ⟨w, draft, hsome, hrecord⟩
  · have hempty : recording? = none := by simp [recording?, hnone]
    rw [hsame program rfl, hempty]
    simp
  · have hentry : recording? = some ⟨w, draft, config.bigM⟩ := by simp [recording?, hsome]
    rw [hrecord program rfl, hentry]
    cases hrow : w.row? (draft.flatten config.bigM) <;>
      simp [Writing.record, Recording.row?, Recording.objective?, Recording.coefficients, hrow]

/-- **Rows and objective after a run are those of its recordings**, behind the rows of the start and
in the place of the objective of the start. -/
theorem run_recorded {start : Workspace} (h : start.program.Idle) (calls : List Call) :
    let recorded := recordings start.program.layout start.config.bigM calls
    (run calls start).program.rows
        = start.program.rows ++ recorded.filterMap Recording.row?
      ∧ (run calls start).program.objective
        = (recorded.filterMap Recording.objective?).getLast?.or start.program.objective := by
  induction calls generalizing start with
  | nil => simp [run, recordings]
  | cons call calls ih =>
    obtain ⟨hlayout, hidle⟩ := perform_idle h call
    obtain ⟨status, hprogram⟩ := perform_program h call
    obtain ⟨hrows, hobjective⟩ := ih hidle
    obtain ⟨hfirstRows, hfirstObjective⟩ :=
      call.written_recording start.program start.config
    rw [hlayout, call.bigM_perform, hprogram] at hrows hobjective
    simp only [hfirstRows] at hrows
    simp only [hfirstObjective] at hobjective
    refine ⟨hrows.trans ?_, hobjective.trans ?_⟩
    · rw [recordings, List.filterMap_append, List.append_assoc]
    · -- the last objective is that of the later calls, or else that of the first
      rw [recordings, List.filterMap_append, List.getLast?_append, Option.or_assoc]
      cases hd : call.drafted? start.program.layout with
      | none => rfl
      | some entry =>
        cases ho : Recording.objective? ⟨entry.1, entry.2, start.config.bigM⟩ <;> simp [ho]

/-- What has been recorded was written into a blank draft. -/
theorem fits_of_mem_recordings {layout : Layout} {bigM : Binary64} {calls : List Call}
    {recording : Recording} (h : recording ∈ recordings layout bigM calls) :
    recording.draft.Fits layout := by
  induction calls generalizing bigM with
  | nil => cases h
  | cons call calls ih =>
    rcases List.mem_append.mp h with hfirst | hrest
    · rw [Option.mem_toList, Option.map_eq_some_iff] at hfirst
      obtain ⟨entry, hentry, rfl⟩ := hfirst
      exact Call.fits_drafted hentry
    · exact ih hrest

/-! ## Stand-ins that have been configured -/

theorem Call.bigMAfter_induction {P : Binary64 → Prop} {bigM : Binary64} (h : P bigM) {call : Call}
    (hcall : ∀ config, configure config = call → P config.bigM) : P (call.bigMAfter bigM) := by
  cases call with
  | configure config => exact hcall config rfl
  | _ => exact h

/-- **The stand-in of a recording has been configured before**, or was in force at the start. -/
theorem bigM_of_mem_recordings {P : Binary64 → Prop} {layout : Layout} {bigM : Binary64}
    {calls : List Call} (hstart : P bigM)
    (hcalls : ∀ config, Call.configure config ∈ calls → P config.bigM) {recording : Recording}
    (h : recording ∈ recordings layout bigM calls) : P recording.bigM := by
  induction calls generalizing bigM with
  | nil => cases h
  | cons call calls ih =>
    rcases List.mem_append.mp h with hfirst | hrest
    · rw [Option.mem_toList, Option.map_eq_some_iff] at hfirst
      obtain ⟨entry, -, rfl⟩ := hfirst
      exact hstart
    · refine ih (Call.bigMAfter_induction hstart fun config hconfig => ?_)
        (fun config hmem => hcalls config (List.mem_cons_of_mem _ hmem)) hrest
      exact hcalls config (hconfig ▸ List.mem_cons_self)

/-- And so has the stand-in that is in force after a run. -/
theorem bigM_run {P : Binary64 → Prop} {start : Workspace} {calls : List Call}
    (hstart : P start.config.bigM)
    (hcalls : ∀ config, Call.configure config ∈ calls → P config.bigM) :
    P (run calls start).config.bigM := by
  induction calls generalizing start with
  | nil => exact hstart
  | cons call calls ih =>
    refine ih ?_ fun config hmem => hcalls config (List.mem_cons_of_mem _ hmem)
    rw [call.bigM_perform]
    refine Call.bigMAfter_induction hstart fun config hconfig => ?_
    exact hcalls config (hconfig ▸ List.mem_cons_self)

end LinearModel
