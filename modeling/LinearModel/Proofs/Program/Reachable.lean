import LinearModel.Proofs.Program.Run

/-!
# Reachable programs

A program is reachable if some run of calls gets to it from a fresh program over a layout that has
been reached by placing blocks. Every reachable program is sound (`Reachable.sound`): its layout is
well-formed, its draft is blank, and its rows and its objective have one coefficient for each
variable.
-/

namespace LinearModel.Program

/-- A run of calls over a reached layout ends with the program. -/
def Reachable (program : Program) : Prop :=
  ∃ attempts config calls,
    (run calls ⟨.ofLayout (.ofAttempts attempts), config⟩).program = program

theorem exists_layout_of_ofBlocks {blocks : List (String × Block)} {fresh : Program}
    (h : ofBlocks blocks = .ok fresh) :
    ∃ layout, Layout.ofBlocks blocks = .ok layout ∧ fresh = ofLayout layout := by
  unfold ofBlocks at h
  cases hlayout : Layout.ofBlocks blocks with
  | error error => rw [hlayout] at h; cases h
  | ok layout => rw [hlayout] at h; exact ⟨layout, rfl, (Except.ok.inj h).symm⟩

/-- What holds of a program between the calls. -/
structure Sound (program : Program) : Prop where
  layout : program.layout.WellFormed
  idle : program.Idle
  length_row : ∀ row ∈ program.rows, row.coefficients.length = program.layout.dimension
  length_objective : ∀ objective, program.objective = some objective →
    objective.coefficients.length = program.layout.dimension

theorem sound_ofLayout {layout : Layout} (hwf : layout.WellFormed) : (ofLayout layout).Sound where
  layout := hwf
  idle := idle_ofLayout layout
  length_row := by simp [ofLayout]
  length_objective := by simp [ofLayout]

theorem Sound.record {program : Program} (h : program.Sound) (writing : Writing)
    {coefficients : List Binary64} (hlen : coefficients.length = program.layout.dimension) :
    (writing.record coefficients program).Sound where
  layout := h.layout
  idle := h.idle
  length_row := by
    intro row hrow
    rcases List.mem_append.mp hrow with hold | hnew
    · exact h.length_row row hold
    · rw [Option.mem_toList, Writing.row?, Option.map_eq_some_iff] at hnew
      obtain ⟨side, -, rfl⟩ := hnew
      exact hlen
  length_objective := by
    intro objective hobjective
    rcases Option.or_eq_some_iff.mp hobjective with hnew | ⟨-, hold⟩
    · rw [Writing.objective?, Option.map_eq_some_iff] at hnew
      obtain ⟨sense, -, rfl⟩ := hnew
      exact hlen
    · exact h.length_objective objective hold

theorem Sound.perform {space : Workspace} (h : space.program.Sound) (call : Call) :
    (call.perform space).program.Sound := by
  obtain ⟨status, hprogram⟩ := perform_program h.idle call
  have hwritten : (call.written space).Sound := by
    rcases written_cases call space.program.layout space.config with ⟨-, hsame⟩ | ⟨w, d, hd, hrec⟩
    · rw [show call.written space = space.program from hsame space.program rfl]
      exact h
    · rw [show call.written space = w.record _ space.program from hrec space.program rfl]
      exact h.record w ((Call.fits_drafted hd).length_flatten h.layout _)
  rw [hprogram]
  exact ⟨hwritten.layout, hwritten.idle, hwritten.length_row, hwritten.length_objective⟩

theorem Sound.run {start : Workspace} (h : start.program.Sound) (calls : List Call) :
    (run calls start).program.Sound :=
  run_induction (P := fun space => space.program.Sound) (fun call _ h => h.perform call) h calls

/-- **Every reachable program is sound.** -/
theorem Reachable.sound {program : Program} (h : program.Reachable) : program.Sound := by
  obtain ⟨attempts, config, calls, rfl⟩ := h
  exact (sound_ofLayout (Layout.wellFormed_ofAttempts attempts)).run calls

end LinearModel.Program
