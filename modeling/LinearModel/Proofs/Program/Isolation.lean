import LinearModel.Proofs.Program.Reachable

/-!
# Rows do not leak

What a call records is the same after any run as over a fresh program: nothing that an earlier call
has written, successful or not, gets into a later row or objective.

The reason is that the draft is blank between the calls (`run_idle`), and over a blank draft a call
depends on the layout and the stand-in for infinity alone (`Writing.perform_of_idle`).
-/

namespace LinearModel

/-- What a call does to rows and objective of a program without any is what it adds to those of
another program over the same layout. -/
theorem written_adds (call : Call) {fresh program : Program} (config : Configuration)
    (hlayout : program.layout = fresh.layout) (hrows : fresh.rows = [])
    (hobjective : fresh.objective = none) :
    (call.written ⟨program, config⟩).rows
        = program.rows ++ (call.written ⟨fresh, config⟩).rows
      ∧ (call.written ⟨program, config⟩).objective
        = (call.written ⟨fresh, config⟩).objective.or program.objective := by
  rcases written_cases call fresh.layout config with ⟨-, hsame⟩ | ⟨writing, draft, -, hrecord⟩
  · rw [hsame program hlayout, hsame fresh rfl, hrows, hobjective]
    exact ⟨(List.append_nil _).symm, rfl⟩
  · rw [hrecord program hlayout, hrecord fresh rfl]
    simp [Writing.record, hrows, hobjective]

/-- **Rows do not leak.** After any run over a program that was fresh, the draft is blank. A writing
call then gives the error that it gives over the fresh program, or else records the coefficients
that it records there, and it changes nothing else; and whatever a call adds to the rows and
makes the objective, it adds and makes over the fresh program too. -/
theorem run_isolates {blocks : List (String × Block)} {fresh : Program}
    (h : Program.ofBlocks blocks = .ok fresh) (config : Configuration) (calls : List Call) :
    let reached := run calls ⟨fresh, config⟩
    reached.program.draft = .blank fresh.layout
      ∧ (∀ (writing : Writing) (same : Configuration), same.bigM = reached.config.bigM →
        ∃ answer, writing.perform same fresh = writing.finish answer fresh
          ∧ writing.perform reached.config reached.program
            = writing.finish answer reached.program)
      ∧ ∀ call : Call,
        (call.perform reached).program.rows
            = reached.program.rows ++ (call.perform ⟨fresh, reached.config⟩).program.rows
          ∧ (call.perform reached).program.objective
            = (call.perform ⟨fresh, reached.config⟩).program.objective.or
              reached.program.objective := by
  intro reached
  obtain ⟨layout, -, rfl⟩ := Program.exists_layout_of_ofBlocks h
  have hfresh : (Program.ofLayout layout).Idle := Program.idle_ofLayout layout
  obtain ⟨hlayout, hidle⟩ : reached.program.layout = layout ∧ reached.program.Idle :=
    run_ofLayout_idle layout config calls
  refine ⟨hidle.trans (by rw [hlayout]; rfl), fun writing same hsame => ?_, fun call => ?_⟩
  · refine ⟨writing.coefficients layout same.bigM, writing.perform_of_idle hfresh same, ?_⟩
    rw [writing.perform_of_idle hidle, hlayout, hsame]
  · obtain ⟨status, hhere⟩ := perform_program hidle call
    obtain ⟨status', hthere⟩ :=
      @perform_program ⟨.ofLayout layout, reached.config⟩ hfresh call
    rw [hhere, hthere]
    exact written_adds call reached.config hlayout rfl rfl

/-- A call that fails after it has written a coefficient leaves no trace of it. -/
theorem run_isolates_failing_call :
    let blocks := [("x", Block.ofShape {} [2]), ("y", Block.scalar {})]
    let half : Writing := .items [⟨"x", .flat 1, .infinity false⟩, ⟨"z", .first, .zero⟩] .zero .le
    ∃ fresh, Program.ofBlocks blocks = .ok fresh
      ∧ (half.perform {} fresh).1 = .error (.unknownBlock "z")
      ∧ (run [.write half] ⟨fresh, {}⟩).program.draft = .blank fresh.layout
      ∧ ∀ writing : Writing, ∃ answer, writing.perform {} fresh = writing.finish answer fresh
        ∧ writing.perform {} (run [.write half] ⟨fresh, {}⟩).program
          = writing.finish answer (run [.write half] ⟨fresh, {}⟩).program := by
  intro blocks half
  obtain ⟨fresh, hfresh⟩ : ∃ fresh, Program.ofBlocks blocks = .ok fresh := ⟨_, rfl⟩
  have hisolated := run_isolates hfresh {} [.write half]
  refine ⟨fresh, hfresh, ?_, hisolated.1, fun writing => hisolated.2.1 writing {} rfl⟩
  rw [← Except.ok.inj hfresh]
  rfl

end LinearModel
