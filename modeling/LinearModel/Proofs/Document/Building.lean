import LinearModel.Document.Build
import LinearModel.Proofs.Program.Run
import LinearModel.Proofs.Traversal
import Mathlib.Data.List.Forall2

/-!
# Building rows and objective

The rows and the objective of a document are what the calls give that they stand for. Each row is
built as if it were the only one, so the rows of two documents over the same blocks can be joined,
and the first row that cannot be built decides what is answered.

* `Document.orStop_perform_cases` — a call between two rows ends as it does on the fresh program
* `RowEntry.Reads`, `RowEntry.Stops` — the call that a row stands for, and how building it ends
  without a row; the causes in the order in which they are looked for
* `Document.addRow_eq_ok_iff`, `Document.addRow_eq_error_iff` — one row over any program between
  two rows
* `Document.build_eq_ok_iff`, `Document.build_eq_error_iff` — the document over a layout
* `Document.build_rows_append` — documents with the rows of two others
-/

namespace LinearModel

/-! ## Calls over the fresh program -/

namespace Document

variable {config : Configuration} {program next fresh : Program} {stop : DocumentStop}
  {writing : Writing}

/-- A call on a program between two rows ends as it does on the fresh program. -/
theorem orStop_perform_cases (h : program.Idle) (config : Configuration) (writing : Writing) :
    let fresh := Program.ofLayout program.layout
    (∃ error, writing.perform config fresh = (.error error, fresh)
        ∧ orStop (writing.perform config program) = .error (.model error))
      ∨ ∃ coefficients, writing.perform config fresh = (.ok (), writing.record coefficients fresh)
        ∧ orStop (writing.perform config program) = .ok (writing.record coefficients program) := by
  intro fresh
  have hfresh : writing.perform config fresh
      = writing.finish (writing.coefficients program.layout config.bigM) fresh :=
    writing.perform_of_idle (Program.idle_ofLayout program.layout) config
  rw [hfresh, writing.perform_of_idle h config]
  cases writing.coefficients program.layout config.bigM with
  | error error => exact .inl ⟨error, rfl, rfl⟩
  | ok coefficients => exact .inr ⟨coefficients, rfl, rfl⟩

theorem orStop_perform_eq_error_iff (h : program.Idle) :
    orStop (writing.perform config program) = .error stop
      ↔ ∃ error, (writing.perform config (.ofLayout program.layout)).1 = .error error
        ∧ stop = .model error := by
  rcases orStop_perform_cases h config writing with ⟨error, hfresh, hhere⟩ | ⟨_, hfresh, hhere⟩
  · simp [hfresh, hhere, eq_comm]
  · simp [hfresh, hhere]

/-- What is recorded on the fresh program can be recorded here. -/
theorem orStop_perform_of_fresh (h : program.Idle)
    (hfresh : writing.perform config (.ofLayout program.layout) = (.ok (), fresh)) :
    ∃ coefficients, writing.record coefficients (.ofLayout program.layout) = fresh
      ∧ orStop (writing.perform config program) = .ok (writing.record coefficients program) := by
  rcases orStop_perform_cases h config writing with
    ⟨error, hfailed, -⟩ | ⟨coefficients, hrecorded, hhere⟩
  · rw [hfailed] at hfresh
    cases hfresh
  · rw [hrecorded] at hfresh
    exact ⟨coefficients, (Prod.mk.inj hfresh).2, hhere⟩

/-- And what is recorded here can be recorded on the fresh program. -/
theorem fresh_of_orStop_perform (h : program.Idle)
    (hhere : orStop (writing.perform config program) = .ok next) :
    ∃ coefficients, writing.record coefficients program = next
      ∧ writing.perform config (.ofLayout program.layout)
        = (.ok (), writing.record coefficients (.ofLayout program.layout)) := by
  rcases orStop_perform_cases h config writing with
    ⟨error, -, hfailed⟩ | ⟨coefficients, hfresh, hrecorded⟩
  · rw [hfailed] at hhere
    cases hhere
  · rw [hrecorded] at hhere
    exact ⟨coefficients, Except.ok.inj hhere, hfresh⟩

end Document

/-! ## What entries stand for -/

namespace Document

/-- The first value that cannot be converted ends the conversion. -/
def Unconverted (entries : Named Json.Value) (stop : DocumentStop) : Prop :=
  FirstRefused (fun entry stop => dense entry.1 entry.2 = .error stop) entries stop

theorem arrays_eq_error_iff {entries : Named Json.Value} {stop : DocumentStop} :
    arrays entries = .error stop ↔ Unconverted entries stop := by
  have hrefused : (fun (entry : String × Json.Value) stop =>
      (do return (entry.1, ← dense entry.1 entry.2) : Except DocumentStop (String × Dense))
        = .error stop) = fun entry stop => dense entry.1 entry.2 = .error stop := by
    funext entry stop
    cases dense entry.1 entry.2 with
    | error other => exact propext ⟨fun h => by cases h; rfl, fun h => by cases h; rfl⟩
    | ok values => exact propext ⟨nofun, nofun⟩
  rw [arrays, mapM_eq_error_iff_firstRefused, Unconverted, hrefused]

end Document

namespace RowEntry

/-- The call that an entry stands for. -/
inductive Reads (entry : RowEntry) : Writing → Prop
  | items {relation : Relation} (hrelation : Relation.ofText entry.relation = .ok relation)
      (harrays : entry.arrays = []) : Reads entry (.items entry.items entry.rhs relation)
  | arrays {relation : Relation} {arrays : List (String × Dense)}
      (hrelation : Relation.ofText entry.relation = .ok relation) (hitems : entry.items = [])
      (harrays : entry.arrays ≠ []) (hconverted : Document.arrays entry.arrays = .ok arrays) :
      Reads entry (.arrays arrays entry.rhs relation)

/-- How the building of a row ends without one. A later cause is looked for only where there is no
earlier one. -/
inductive Stops (config : Configuration) (layout : Layout) (position : Nat) (entry : RowEntry) :
    DocumentStop → Prop
  | relation {error : ModelError} (hrelation : Relation.ofText entry.relation = .error error) :
      Stops config layout position entry (.model error)
  | mixed {relation : Relation} (hrelation : Relation.ofText entry.relation = .ok relation)
      (hitems : entry.items ≠ []) (harrays : entry.arrays ≠ []) :
      Stops config layout position entry (.failed (.mixedRow position))
  | conversion {relation : Relation} {stop : DocumentStop}
      (hrelation : Relation.ofText entry.relation = .ok relation) (hitems : entry.items = [])
      (hunconverted : Document.Unconverted entry.arrays stop) :
      Stops config layout position entry stop
  | writing {writing : Writing} {error : ModelError} (hreads : entry.Reads writing)
      (herror : (writing.perform config (.ofLayout layout)).1 = .error error) :
      Stops config layout position entry (.model error)

/-- The row that the call of an entry appends to the fresh program. -/
def Gives (config : Configuration) (layout : Layout) (entry : RowEntry) (row : Row) : Prop :=
  ∃ writing, entry.Reads writing
    ∧ writing.perform config (.ofLayout layout)
      = (.ok (), { Program.ofLayout layout with rows := [row] })

theorem Reads.record {entry : RowEntry} {writing : Writing} (h : entry.Reads writing)
    (coefficients : List Binary64) :
    ∃ row, ∀ program : Program, writing.record coefficients program
      = { program with rows := program.rows ++ [row] } := by
  cases h with
  | items hrelation harrays => exact ⟨_, fun _ => rfl⟩
  | arrays hrelation hitems harrays hconverted => exact ⟨_, fun _ => rfl⟩

/-- An entry stands for a call, or it is refused before anything is written. -/
theorem reads_or_stops (entry : RowEntry) (position : Nat) :
    (∃ writing, entry.Reads writing)
      ∨ ∃ stop, ∀ config layout, entry.Stops config layout position stop := by
  cases hrelation : Relation.ofText entry.relation with
  | error error => exact .inr ⟨_, fun _ _ => .relation hrelation⟩
  | ok relation =>
    by_cases harrays : entry.arrays = []
    · exact .inl ⟨_, .items hrelation harrays⟩
    · by_cases hitems : entry.items = []
      · cases hconverted : Document.arrays entry.arrays with
        | error stop =>
          have hunconverted := Document.arrays_eq_error_iff.mp hconverted
          exact .inr ⟨stop, fun _ _ => .conversion hrelation hitems hunconverted⟩
        | ok arrays => exact .inl ⟨_, .arrays hrelation hitems harrays hconverted⟩
      · exact .inr ⟨_, fun _ _ => .mixed hrelation hitems harrays⟩

/-- A row for which nothing is given is a row of zeros. -/
theorem Gives.coefficients_eq {config : Configuration} {layout : Layout} {entry : RowEntry}
    {row : Row} (h : entry.Gives config layout row) (hwf : layout.WellFormed)
    (hitems : entry.items = []) (harrays : entry.arrays = []) :
    row.coefficients = List.replicate layout.dimension .zero := by
  obtain ⟨writing, hreads, hgives⟩ := h
  cases hreads with
  | arrays hrelation hnone hsome hconverted => exact absurd harrays hsome
  | @items relation hrelation hnone =>
    have hwritten : (Writing.items [] entry.rhs relation).write (.blank layout)
        = (.ok (), .blank layout) := rfl
    rw [hitems, Writing.perform_row (Program.idle_ofLayout layout) config _ rfl hwritten] at hgives
    obtain rfl : ⟨(Draft.blank layout).flatten config.bigM, relation, entry.rhs⟩ = row := by
      simpa [Program.ofLayout] using hgives
    exact Draft.flatten_blank hwf config.bigM

end RowEntry

namespace ObjectiveEntry

/-- How the building of an objective ends without one. -/
inductive Stops (config : Configuration) (layout : Layout) (entry : ObjectiveEntry) :
    DocumentStop → Prop
  | conversion {stop : DocumentStop} (hunconverted : Document.Unconverted entry.arrays stop) :
      Stops config layout entry stop
  | writing {arrays : List (String × Dense)} {error : ModelError}
      (hconverted : Document.arrays entry.arrays = .ok arrays)
      (herror : ((Writing.objective arrays entry.sense).perform config (.ofLayout layout)).1
        = .error error) :
      Stops config layout entry (.model error)

/-- The objective that the call of an entry sets on the fresh program. -/
def Gives (config : Configuration) (layout : Layout) (entry : ObjectiveEntry)
    (objective : Objective) : Prop :=
  ∃ arrays, Document.arrays entry.arrays = .ok arrays
    ∧ (Writing.objective arrays entry.sense).perform config (.ofLayout layout)
      = (.ok (), { Program.ofLayout layout with objective := some objective })

theorem record_objective (arrays : List (String × Dense)) (sense : Sense)
    (coefficients : List Binary64) (program : Program) :
    (Writing.objective arrays sense).record coefficients program
      = { program with objective := some ⟨coefficients, sense⟩ } := by
  simp [Writing.record, Writing.row?, Writing.objective?, Writing.side?, Writing.sense?]

end ObjectiveEntry

/-! ## One row -/

namespace Document

variable {config : Configuration} {program next : Program} {position : Nat} {stop : DocumentStop}

theorem addRow_of_reads {entry : RowEntry} {writing : Writing} (h : entry.Reads writing)
    (config : Configuration) (position : Nat) (program : Program) :
    addRow config position entry program = orStop (writing.perform config program) := by
  cases h with
  | items hrelation harrays =>
    simp only [addRow, hrelation, harrays]
    simp [Except.mapError, Writing.perform, bind, Except.bind]
  | arrays hrelation hitems harrays hconverted =>
    simp only [addRow, hrelation, hitems, hconverted]
    simp [Except.mapError, Writing.perform, harrays, bind, Except.bind]

theorem addRow_of_stops (hidle : program.Idle) {entry : RowEntry}
    (h : entry.Stops config program.layout position stop) :
    addRow config position entry program = .error stop := by
  cases h with
  | relation hrelation => simp [addRow, hrelation, Except.mapError, bind, Except.bind]
  | mixed hrelation hitems harrays =>
    simp [addRow, hrelation, hitems, harrays, Except.mapError, bind, Except.bind, throw,
      throwThe, MonadExceptOf.throw]
  | conversion hrelation hitems hunconverted =>
    have harrays : entry.arrays ≠ [] := by
      intro hnil
      rw [Unconverted, hnil] at hunconverted
      exact not_firstRefused_nil hunconverted
    simp only [addRow, hrelation, hitems, arrays_eq_error_iff.mpr hunconverted]
    simp [Except.mapError, harrays, bind, Except.bind]
  | writing hreads herror =>
    rw [addRow_of_reads hreads]
    exact (orStop_perform_eq_error_iff hidle).mpr ⟨_, herror, rfl⟩

/-- **A row is built over any program as over the fresh one**, and it is appended. -/
theorem addRow_eq_ok_iff (hidle : program.Idle) {entry : RowEntry} :
    addRow config position entry program = .ok next
      ↔ ∃ row, entry.Gives config program.layout row
        ∧ next = { program with rows := program.rows ++ [row] } := by
  constructor
  · intro h
    rcases entry.reads_or_stops position with ⟨writing, hreads⟩ | ⟨stop, hstops⟩
    · rw [addRow_of_reads hreads] at h
      obtain ⟨coefficients, rfl, hfresh⟩ := fresh_of_orStop_perform hidle h
      obtain ⟨row, hrecord⟩ := hreads.record coefficients
      rw [hrecord] at hfresh
      exact ⟨row, ⟨writing, hreads, hfresh⟩, hrecord program⟩
    · rw [addRow_of_stops hidle (hstops config program.layout)] at h
      cases h
  · rintro ⟨row, ⟨writing, hreads, hgives⟩, rfl⟩
    obtain ⟨coefficients, hfresh, hhere⟩ := orStop_perform_of_fresh hidle hgives
    obtain ⟨made, hrecord⟩ := hreads.record coefficients
    rw [hrecord] at hfresh
    obtain rfl : made = row := by simpa [Program.ofLayout] using hfresh
    rw [addRow_of_reads hreads, hhere, hrecord]

/-- **And it stops as it does there.** -/
theorem addRow_eq_error_iff (hidle : program.Idle) {entry : RowEntry} :
    addRow config position entry program = .error stop
      ↔ entry.Stops config program.layout position stop := by
  refine ⟨fun h => ?_, addRow_of_stops hidle⟩
  rcases entry.reads_or_stops position with ⟨writing, hreads⟩ | ⟨other, hstops⟩
  · rw [addRow_of_reads hreads] at h
    obtain ⟨error, herror, rfl⟩ := (orStop_perform_eq_error_iff hidle).mp h
    exact .writing hreads herror
  · have hstop := hstops config program.layout
    rw [addRow_of_stops hidle hstop] at h
    exact Except.error.inj h ▸ hstop

/-! ## All rows -/

theorem addRows_cons (config : Configuration) (position : Nat) (entry : RowEntry)
    (entries : List RowEntry) (program : Program) :
    addRows config position (entry :: entries) program
      = (addRow config position entry program).bind (addRows config (position + 1) entries) :=
  rfl

theorem addRows_eq_ok_iff (hidle : program.Idle) {entries : List RowEntry} :
    addRows config position entries program = .ok next
      ↔ ∃ rows, List.Forall₂ (RowEntry.Gives config program.layout) entries rows
        ∧ next = { program with rows := program.rows ++ rows } := by
  induction entries generalizing position program with
  | nil =>
    simp only [addRows, Except.ok.injEq, List.forall₂_nil_left_iff, exists_eq_left, List.append_nil]
    exact eq_comm
  | cons entry entries ih =>
    have hrest : ∀ row, { program with rows := program.rows ++ [row] }.Idle := fun _ => hidle
    rw [addRows_cons, bind_eq_ok_iff]
    constructor
    · rintro ⟨middle, hfirst, hlater⟩
      obtain ⟨row, hgives, rfl⟩ := (addRow_eq_ok_iff hidle).mp hfirst
      obtain ⟨rows, hall, rfl⟩ := (ih (hrest row)).mp hlater
      exact ⟨row :: rows, .cons hgives hall, by simp⟩
    · rintro ⟨_, hall, rfl⟩
      cases hall with
      | cons hgives hall =>
        exact ⟨_, (addRow_eq_ok_iff hidle).mpr ⟨_, hgives, rfl⟩,
          (ih (hrest _)).mpr ⟨_, hall, by simp⟩⟩

theorem addRows_eq_foldlM (config : Configuration) (position : Nat) (entries : List RowEntry)
    (program : Program) :
    addRows config position entries program
      = (entries.zipIdx position).foldlM
        (fun program entry => addRow config entry.2 entry.1 program) program := by
  induction entries generalizing position program with
  | nil => rfl
  | cons entry entries ih =>
    rw [addRows, List.zipIdx_cons, List.foldlM_cons]
    cases addRow config position entry program with
    | error stop => rfl
    | ok next => exact ih (position + 1) next

/-- **The first row that cannot be built decides**, whatever comes behind it. -/
theorem addRows_eq_error_iff (hidle : program.Idle) {entries : List RowEntry} :
    addRows config position entries program = .error stop
      ↔ FirstRefused (fun entry stop => entry.1.Stops config program.layout entry.2 stop)
        (entries.zipIdx position) stop := by
  rw [addRows_eq_foldlM]
  refine foldlM_eq_error_iff (P := fun reached => reached.Idle ∧ reached.layout = program.layout)
    (fun reached entry next hreached hadd => ?_) (fun reached entry stop hreached => ?_)
    ⟨hidle, rfl⟩
  · obtain ⟨row, -, rfl⟩ := (addRow_eq_ok_iff hreached.1).mp hadd
    exact hreached
  · rw [addRow_eq_error_iff hreached.1, hreached.2]

/-! ## The objective -/

theorem setObjective_of_converted {entry : ObjectiveEntry} {list : List (String × Dense)}
    (h : arrays entry.arrays = .ok list) (config : Configuration) (program : Program) :
    setObjective config (some entry) program
      = orStop ((Writing.objective list entry.sense).perform config program) := by
  rw [setObjective, h]
  rfl

theorem setObjective_some_eq_ok_iff (hidle : program.Idle) {entry : ObjectiveEntry} :
    setObjective config (some entry) program = .ok next
      ↔ ∃ objective, entry.Gives config program.layout objective
        ∧ next = { program with objective := some objective } := by
  constructor
  · intro h
    cases hconverted : arrays entry.arrays with
    | error stop =>
      rw [setObjective, hconverted] at h
      cases h
    | ok list =>
      rw [setObjective_of_converted hconverted] at h
      obtain ⟨coefficients, rfl, hfresh⟩ := fresh_of_orStop_perform hidle h
      rw [ObjectiveEntry.record_objective] at hfresh
      exact ⟨_, ⟨list, hconverted, hfresh⟩, ObjectiveEntry.record_objective ..⟩
  · rintro ⟨objective, ⟨list, hconverted, hgives⟩, rfl⟩
    obtain ⟨coefficients, hfresh, hhere⟩ := orStop_perform_of_fresh hidle hgives
    rw [ObjectiveEntry.record_objective] at hfresh
    obtain rfl : ⟨coefficients, entry.sense⟩ = objective := by
      simpa [Program.ofLayout] using hfresh
    rw [setObjective_of_converted hconverted, hhere, ObjectiveEntry.record_objective]

theorem setObjective_some_eq_error_iff (hidle : program.Idle) {entry : ObjectiveEntry} :
    setObjective config (some entry) program = .error stop
      ↔ entry.Stops config program.layout stop := by
  constructor
  · intro h
    cases hconverted : arrays entry.arrays with
    | error other =>
      rw [setObjective, hconverted] at h
      obtain rfl : other = stop := Except.error.inj h
      exact .conversion (arrays_eq_error_iff.mp hconverted)
    | ok list =>
      rw [setObjective_of_converted hconverted] at h
      obtain ⟨error, herror, rfl⟩ := (orStop_perform_eq_error_iff hidle).mp h
      exact .writing hconverted herror
  · intro h
    cases h with
    | conversion hunconverted =>
      rw [setObjective, arrays_eq_error_iff.mpr hunconverted]
      rfl
    | writing hconverted herror =>
      rw [setObjective_of_converted hconverted]
      exact (orStop_perform_eq_error_iff hidle).mpr ⟨_, herror, rfl⟩

theorem setObjective_eq_ok_iff (hidle : program.Idle) {entry : Option ObjectiveEntry} :
    setObjective config entry program = .ok next
      ↔ ∃ objective, Option.Rel (ObjectiveEntry.Gives config program.layout) entry objective
        ∧ next = { program with objective := objective.or program.objective } := by
  cases entry with
  | none =>
    constructor
    · intro h
      exact ⟨none, .none, (Except.ok.inj h).symm⟩
    · rintro ⟨objective, hrel, rfl⟩
      cases hrel
      rfl
  | some entry =>
    rw [setObjective_some_eq_ok_iff hidle]
    constructor
    · rintro ⟨objective, hgives, rfl⟩
      exact ⟨some objective, .some hgives, rfl⟩
    · rintro ⟨_, hrel, rfl⟩
      cases hrel with
      | some hgives => exact ⟨_, hgives, rfl⟩

/-! ## The document -/

variable {document : Document} {blocks : List (String × Block)} {layout : Layout}

theorem build_of_placed
    (hblocks : document.blocks.mapM (fun entry => block config entry.1 entry.2) = .ok blocks)
    (hlayout : Layout.ofBlocks blocks = .ok layout) :
    build config document
      = (addRows config 0 document.rows (.ofLayout layout)).bind
        (setObjective config document.objective) := by
  rw [build, hblocks]
  show (Except.mapError DocumentStop.model (Program.ofBlocks blocks)).bind _ = _
  rw [Program.ofBlocks, hlayout]
  rfl

/-- **A document over blocks that can be placed gives rows and objective one by one.** -/
theorem build_eq_ok_iff
    (hblocks : document.blocks.mapM (fun entry => block config entry.1 entry.2) = .ok blocks)
    (hlayout : Layout.ofBlocks blocks = .ok layout) :
    build config document = .ok program
      ↔ List.Forall₂ (RowEntry.Gives config layout) document.rows program.rows
        ∧ Option.Rel (ObjectiveEntry.Gives config layout) document.objective program.objective
        ∧ program = { Program.ofLayout layout with
            rows := program.rows, objective := program.objective } := by
  have hfresh : (Program.ofLayout layout).Idle := Program.idle_ofLayout layout
  have hidle : ∀ rows, { Program.ofLayout layout with rows := rows }.Idle := fun _ => hfresh
  rw [build_of_placed hblocks hlayout, bind_eq_ok_iff]
  constructor
  · rintro ⟨reached, hrows, hobjective⟩
    obtain ⟨rows, hall, rfl⟩ := (addRows_eq_ok_iff hfresh).mp hrows
    obtain ⟨objective, hrel, rfl⟩ := (setObjective_eq_ok_iff (hidle _)).mp hobjective
    show _ ∧ Option.Rel _ _ (objective.or none) ∧ _
    rw [Option.or_none]
    exact ⟨hall, hrel, rfl⟩
  · rintro ⟨hall, hrel, hprogram⟩
    refine ⟨_, (addRows_eq_ok_iff hfresh).mpr ⟨program.rows, hall, rfl⟩, ?_⟩
    refine (setObjective_eq_ok_iff (hidle _)).mpr ⟨program.objective, hrel, hprogram.trans ?_⟩
    show _ = { Program.ofLayout layout with
      rows := program.rows, objective := program.objective.or none }
    rw [Option.or_none]

/-- **The first row that cannot be built decides what is answered**, and the objective where there
is no such row. -/
theorem build_eq_error_iff
    (hblocks : document.blocks.mapM (fun entry => block config entry.1 entry.2) = .ok blocks)
    (hlayout : Layout.ofBlocks blocks = .ok layout) :
    build config document = .error stop
      ↔ FirstRefused (fun entry stop => entry.1.Stops config layout entry.2 stop)
          document.rows.zipIdx stop
        ∨ (∀ entry ∈ document.rows.zipIdx, ∀ other, ¬ entry.1.Stops config layout entry.2 other)
          ∧ ∃ entry, document.objective = some entry ∧ entry.Stops config layout stop := by
  have hfresh : (Program.ofLayout layout).Idle := Program.idle_ofLayout layout
  have hidle : ∀ rows, { Program.ofLayout layout with rows := rows }.Idle := fun _ => hfresh
  have hrefused : ∀ other, addRows config 0 document.rows (.ofLayout layout) = .error other
      ↔ FirstRefused (fun entry stop => entry.1.Stops config layout entry.2 stop)
        document.rows.zipIdx other := fun _ => addRows_eq_error_iff hfresh
  rw [build_of_placed hblocks hlayout, bind_eq_error_iff, hrefused]
  refine or_congr_right ?_
  constructor
  · rintro ⟨reached, hrows, hobjective⟩
    refine ⟨fun entry hentry other hstops => ?_, ?_⟩
    · -- a row that is refused would be met
      have hsome := @exists_firstRefused_iff _ _ (fun entry : RowEntry × Nat =>
        entry.1.Stops config layout entry.2) document.rows.zipIdx
      obtain ⟨first, hfirst⟩ := hsome.mpr ⟨entry, hentry, other, hstops⟩
      rw [(hrefused first).mpr hfirst] at hrows
      cases hrows
    · obtain ⟨rows, -, rfl⟩ := (addRows_eq_ok_iff hfresh).mp hrows
      cases hgiven : document.objective with
      | none =>
        rw [hgiven] at hobjective
        cases hobjective
      | some entry =>
        rw [hgiven] at hobjective
        exact ⟨entry, rfl, (setObjective_some_eq_error_iff (hidle _)).mp hobjective⟩
  · rintro ⟨hnone, entry, hgiven, hstops⟩
    cases hrows : addRows config 0 document.rows (.ofLayout layout) with
    | error other =>
      obtain ⟨row, hrow, first, hfirst⟩ :=
        exists_firstRefused_iff.mp ⟨other, (hrefused other).mp hrows⟩
      exact absurd hfirst (hnone row hrow first)
    | ok reached =>
      obtain ⟨rows, -, rfl⟩ := (addRows_eq_ok_iff hfresh).mp hrows
      exact ⟨_, rfl, hgiven ▸ (setObjective_some_eq_error_iff (hidle _)).mpr hstops⟩

/-! ## Documents with the rows of two others -/

/-- **Rows are built one by one, each as its call would append it.** The document with the rows of
two others over the same blocks and with the same objective gives a program where both do, and its
rows are those of the one and then those of the other. The first row that cannot be built, or else
the objective, decides what is answered. -/
theorem build_rows_append (config : Configuration) (document : Document)
    (hblocks : document.blocks.mapM (fun entry => block config entry.1 entry.2) = .ok blocks)
    (hlayout : Layout.ofBlocks blocks = .ok layout) (first second : List RowEntry) :
    let load := fun rows => build config { document with rows := rows }
    (∀ program, load (first ++ second) = .ok program
        ↔ ∃ before after, load first = .ok before ∧ load second = .ok after
          ∧ program = { before with rows := before.rows ++ after.rows })
      ∧ (∀ stop, load (first ++ second) = .error stop
        ↔ FirstRefused (fun entry stop => entry.1.Stops config layout entry.2 stop)
            (first ++ second).zipIdx stop
          ∨ (∀ entry ∈ (first ++ second).zipIdx, ∀ other,
              ¬ entry.1.Stops config layout entry.2 other)
            ∧ ∃ entry, document.objective = some entry ∧ entry.Stops config layout stop)
      ∧ ∀ program, load (first ++ second) = .ok program →
        List.Forall₂ (RowEntry.Gives config layout) (first ++ second) program.rows
        ∧ List.Forall₂ (fun entry row => entry.items = [] → entry.arrays = [] →
          row.coefficients = List.replicate layout.dimension .zero) (first ++ second) program.rows
        ∧ Option.Rel (ObjectiveEntry.Gives config layout) document.objective program.objective
        ∧ program.layout = layout ∧ program.draft = .blank layout
        ∧ program.status = .unoptimized := by
  intro load
  have hwf : layout.WellFormed :=
    Layout.ofAttempts_of_ofBlocks hlayout ▸ Layout.wellFormed_ofAttempts blocks
  have hload : ∀ rows program, load rows = .ok program
      ↔ List.Forall₂ (RowEntry.Gives config layout) rows program.rows
        ∧ Option.Rel (ObjectiveEntry.Gives config layout) document.objective program.objective
        ∧ program = { Program.ofLayout layout with
            rows := program.rows, objective := program.objective } := fun rows _ =>
    @build_eq_ok_iff config _ { document with rows := rows } _ _ hblocks hlayout
  refine ⟨fun program => ⟨fun h => ?_, ?_⟩,
    fun stop => build_eq_error_iff hblocks hlayout, fun program h => ?_⟩
  · obtain ⟨hall, hrel, hprogram⟩ := (hload _ _).mp h
    obtain ⟨rows, others, hsplit, hfirst, hsecond⟩ : ∃ rows others, program.rows = rows ++ others
        ∧ List.Forall₂ (RowEntry.Gives config layout) first rows
        ∧ List.Forall₂ (RowEntry.Gives config layout) second others :=
      ⟨_, _, (List.take_append_drop first.length program.rows).symm,
        (List.forall₂_take_append _ _ _ hall.flip).flip,
        (List.forall₂_drop_append _ _ _ hall.flip).flip⟩
    refine ⟨{ program with rows := rows }, { program with rows := others },
      (hload _ _).mpr ⟨hfirst, hrel, ?_⟩, (hload _ _).mpr ⟨hsecond, hrel, ?_⟩, ?_⟩
    · rw [hprogram]
    · rw [hprogram]
    · rw [← hsplit]
  · rintro ⟨before, after, hbefore, hafter, rfl⟩
    obtain ⟨hfirst, hrel, hprogram⟩ := (hload _ _).mp hbefore
    obtain ⟨hsecond, -, -⟩ := (hload _ _).mp hafter
    refine (hload _ _).mpr ⟨List.rel_append hfirst hsecond, hrel, ?_⟩
    rw [hprogram]
  · obtain ⟨hall, hrel, hprogram⟩ := (hload _ _).mp h
    refine ⟨hall, hall.imp fun entry row hgives => hgives.coefficients_eq hwf, hrel, ?_⟩
    rw [hprogram]
    exact ⟨rfl, rfl, rfl⟩

/-- Two rows that are written in different ways and one for which nothing is given; behind them a
row that gives both coefficients and arrays. -/
theorem build_rows_append_three_ways :
    let blocks : Named BlockEntry :=
      [("x", ⟨some [2], none, some (.number (.ofInt 3)), .integer⟩),
        ("y", ⟨none, none, none, .continuous⟩)]
    let document : Document := ⟨blocks, [], some ⟨[("y", .number (.ofInt 1))], .minimize⟩⟩
    let item : Item := ⟨"x", .flat 1, .ofInt 2⟩
    let array : Json.Value := .array [.number (.ofInt 1), .number (.infinity true)]
    let first : List RowEntry := [⟨[item], [], .ofInt 4, "<="⟩, ⟨[], [], .zero, "=="⟩]
    let second : List RowEntry := [⟨[], [("x", array)], .ofInt 9, ">="⟩]
    let mixed : RowEntry := ⟨[item], [("x", array)], .zero, "<="⟩
    (∃ program, build {} { document with rows := first ++ second } = .ok program
        ∧ program.rows.length = 3)
      ∧ build {} { document with rows := first ++ second ++ [mixed] }
        = .error (.failed (.mixedRow 3)) := by
  intro blocks document item array first second mixed
  obtain ⟨declared, layout, hblocks, hlayout⟩ : ∃ declared layout,
      document.blocks.mapM (fun entry => block {} entry.1 entry.2) = .ok declared
        ∧ Layout.ofBlocks declared = .ok layout := ⟨_, _, rfl, rfl⟩
  have hloads : ∀ rows, (build {} { document with rows := rows }).isOk = true →
      ∃ program, build {} { document with rows := rows } = .ok program := by
    intro rows h
    cases hbuild : build {} { document with rows := rows } with
    | error stop =>
      rw [hbuild] at h
      cases h
    | ok program => exact ⟨program, rfl⟩
  obtain ⟨before, hbefore⟩ := hloads first (by decide +kernel)
  obtain ⟨after, hafter⟩ := hloads second (by decide +kernel)
  obtain ⟨hjoined, -, hrows⟩ := build_rows_append {} document hblocks hlayout first second
  have hload := (hjoined _).mpr ⟨before, after, hbefore, hafter, rfl⟩
  refine ⟨⟨_, hload, ?_⟩, ?_⟩
  · exact (hrows _ hload).1.length_eq.symm
  · decide +kernel

end Document

end LinearModel
