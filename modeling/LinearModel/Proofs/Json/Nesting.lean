import LinearModel.Document.Build
import LinearModel.Proofs.Layout.RoundTrip

/-!
# Arrays survive JSON

An array is written as nested JSON arrays, one level for each axis, and reading goes by the lengths
at the first elements. If no axis is empty these are the dimensions, so reading finds the array as
it was; only a number that is not finite has no spelling, and what is written in its place is no
number.

* `outline_nest` — the outline of a written array is its shape
* `collect_nest` — what is collected from a written array are its entries, if they can be read back
* `dense_ofTensor` — a written array is read back
* `arrays_survive_json` — the same for the array of a name, and for all the arrays into which a flat
  vector is split
-/

namespace LinearModel

variable {α : Type}

/-- The pieces of a list of equal length, put behind one another, are the list again. -/
theorem flatMap_range_pieces (dim n : Nat) {entries : List α} (h : entries.length = dim * n) :
    (List.range dim).flatMap (fun i => (entries.drop (i * n)).take n) = entries := by
  induction dim generalizing entries with
  | zero =>
    rw [Nat.zero_mul] at h
    rw [List.length_eq_zero_iff.mp h]
    rfl
  | succ dim ih =>
    have hrest : (entries.drop n).length = dim * n := by
      rw [List.length_drop, h, Nat.succ_mul, Nat.add_sub_cancel]
    have hshift : ∀ i, (entries.drop ((i + 1) * n)).take n
        = ((entries.drop n).drop (i * n)).take n := by
      intro i
      rw [List.drop_drop, Nat.succ_mul, Nat.add_comm]
    rw [List.range_succ_eq_map, List.flatMap_cons, List.flatMap_map]
    simp only [Nat.succ_eq_add_one, hshift]
    rw [ih hrest, Nat.zero_mul, List.drop_zero, List.take_append_drop]

namespace Json.Value

/-! ## What has been written -/

/-- **The outline of a written array is its shape**, as no axis is empty. -/
theorem outline_nest {shape : Shape} (hpos : ∀ dim ∈ shape, 0 < dim) (entries : List Binary64) :
    (nest shape entries).outline = shape := by
  induction shape generalizing entries with
  | nil =>
    rw [nest, ofNumber]
    split <;> rfl
  | cons dim rest ih =>
    obtain ⟨n, rfl⟩ := Nat.exists_eq_add_of_lt (hpos dim List.mem_cons_self)
    rw [Nat.zero_add, nest, List.range_succ_eq_map, List.map_cons, outline,
      ih fun d hd => hpos d (List.mem_cons_of_mem _ hd), List.length_map, List.length_map,
      List.length_range]

/-- What is read where a number has been written. -/
def readBack (x : Binary64) : Except ArrayFault Binary64 :=
  if x.isFinite then .ok x else .error .notNumeric

theorem collect_ofNumber (x : Binary64) : collect [] (ofNumber x) = [x].mapM readBack := by
  by_cases hx : x.isFinite = true
  · have hread : readBack x = .ok x := if_pos hx
    rw [ofNumber, if_pos hx, mapM_cons_ok hread]
    rfl
  · have hread : readBack x = .error .notNumeric := if_neg hx
    rw [ofNumber, if_neg hx, mapM_cons_error hread]
    rfl

/-- **What is collected from a written array are its entries**, if they can be read back. -/
theorem collect_nest {shape : Shape} {entries : List Binary64} (h : entries.length = shape.size) :
    collect shape (nest shape entries) = entries.mapM readBack := by
  induction shape generalizing entries with
  | nil =>
    obtain ⟨x, rfl⟩ := List.length_eq_one_iff.mp h
    exact collect_ofNumber x
  | cons dim rest ih =>
    -- the array of a piece is collected from the piece
    have hpiece : ∀ i ∈ List.range dim,
        collect rest (nest rest ((entries.drop (i * Shape.size rest)).take (Shape.size rest)))
          = ((entries.drop (i * Shape.size rest)).take (Shape.size rest)).mapM readBack := by
      intro i hi
      refine ih ?_
      have hle : (i + 1) * Shape.size rest ≤ dim * Shape.size rest :=
        Nat.mul_le_mul_right _ (List.mem_range.mp hi)
      rw [Nat.succ_mul] at hle
      rw [List.length_take, List.length_drop, h, Shape.size_cons]
      omega
    rw [nest, collect, if_pos (by simp), List.mapM_map]
    exact (map_flatten_mapM hpiece).trans (by rw [flatMap_range_pieces dim _ h])

theorem mapM_readBack_eq_ok {entries : List Binary64} (h : ∀ x ∈ entries, x.isFinite = true) :
    entries.mapM readBack = .ok entries := by
  have hread : ∀ x ∈ entries, readBack x = .ok (id x) := fun x hx => if_pos (h x hx)
  rw [mapM_eq_ok_map id hread, List.map_id]

theorem mapM_readBack_eq_error {entries : List Binary64}
    (h : ¬ ∀ x ∈ entries, x.isFinite = true) : entries.mapM readBack = .error .notNumeric := by
  cases hread : entries.mapM readBack with
  | ok read =>
    refine absurd (fun x hx => ?_) h
    obtain ⟨y, hy⟩ := forall_of_mapM_ok hread x hx
    rw [readBack] at hy
    split at hy
    · next hfinite => exact hfinite
    · cases hy
  | error fault =>
    obtain ⟨_, x, _, -, -, hx⟩ := mapM_eq_error_iff.mp hread
    rw [readBack] at hx
    split at hx
    · cases hx
    · rw [← Except.error.inj hx]

/-- **A written array is read back**, unless one of its numbers is not finite. -/
theorem dense_ofTensor {tensor : Tensor} (hnil : tensor.shape ≠ [])
    (hpos : ∀ dim ∈ tensor.shape, 0 < dim) (hroom : tensor.shape.size ≤ Shape.elementLimit) :
    (ofTensor tensor).dense
      = if ∀ x ∈ tensor.entries, x.isFinite = true then .ok (.explicit tensor)
        else .error .notNumeric := by
  obtain ⟨items, hitems⟩ : ∃ items, ofTensor tensor = .array items := by
    unfold ofTensor
    cases hshape : tensor.shape with
    | nil => exact absurd hshape hnil
    | cons dim rest => exact ⟨_, nest.eq_def _ _⟩
  have houtline : outline (.array items) = tensor.shape := hitems ▸ outline_nest hpos _
  have hcollect : collect tensor.shape (.array items) = tensor.entries.mapM readBack :=
    hitems ▸ collect_nest tensor.length_entries
  have hword : ¬ Shape.elementLimit < tensor.shape.wordSize :=
    Nat.not_lt.mpr (Nat.le_trans (Nat.mod_le _ _) hroom)
  rw [hitems, dense]
  simp only [houtline, hword, if_false, hcollect]
  by_cases hfinite : ∀ x ∈ tensor.entries, x.isFinite = true
  · simp only [mapM_readBack_eq_ok hfinite, Tensor.ofEntries?, Grid.ofEntries?,
      tensor.length_entries, dite_true, if_pos hfinite]
  · simp only [mapM_readBack_eq_error hfinite, if_neg hfinite]

end Json.Value

/-! ## Under their names -/

theorem Document.dense_ofTensor (name : String) {tensor : Tensor} (hnil : tensor.shape ≠ [])
    (hpos : ∀ dim ∈ tensor.shape, 0 < dim) (hroom : tensor.shape.size ≤ Shape.elementLimit) :
    dense name (.ofTensor tensor)
      = if ∀ x ∈ tensor.entries, x.isFinite = true then .ok (.explicit tensor)
        else .error (.failed (.notNumeric name)) := by
  rw [dense, Json.Value.dense_ofTensor hnil hpos hroom]
  by_cases hfinite : ∀ x ∈ tensor.entries, x.isFinite = true
  · simp only [if_pos hfinite]
  · simp only [if_neg hfinite]

/-- **A family of arrays of finite numbers is read back as a whole.** -/
theorem Document.arrays_ofTensors {arrays : Named Tensor}
    (h : ∀ entry ∈ arrays, entry.2.shape ≠ [] ∧ (∀ dim ∈ entry.2.shape, 0 < dim)
      ∧ entry.2.shape.size ≤ Shape.elementLimit ∧ ∀ x ∈ entry.2.entries, x.isFinite = true) :
    Document.arrays (arrays.map fun entry => (entry.1, .ofTensor entry.2))
      = .ok (arrays.map fun entry => (entry.1, .explicit entry.2)) := by
  rw [Document.arrays, List.mapM_map]
  refine mapM_eq_ok_map _ fun entry hentry => ?_
  obtain ⟨hnil, hpos, hroom, hfinite⟩ := h entry hentry
  rw [Function.comp_apply, dense_ofTensor entry.1 hnil hpos hroom, if_pos hfinite]
  rfl

/-- **Arrays survive JSON.** An array with at least one axis, none of them empty, and with no more
elements than an array can have is read back as it was written, if and only if all its elements are
finite; otherwise it is refused as no array of numbers. So a vector of finite numbers can be split,
each array written, all of them read back under their names, and joined to the vector again. -/
theorem arrays_survive_json :
    (∀ (name : String) (tensor : Tensor), tensor.shape ≠ [] →
      (∀ dim ∈ tensor.shape, 1 ≤ dim) → tensor.entries.length ≤ Shape.elementLimit →
      (Document.dense name (.ofTensor tensor) = .ok (.explicit tensor)
          ↔ ∀ x ∈ tensor.entries, x.isFinite = true)
        ∧ ((∃ x ∈ tensor.entries, x.isFinite = false) →
          Document.dense name (.ofTensor tensor) = .error (.failed (.notNumeric name))))
    ∧ ∀ (attempts : List (String × Block)) (flat : List Binary64),
      flat.length = (Layout.ofAttempts attempts).dimension →
      (∀ x ∈ flat, x.isFinite = true) →
      ∃ arrays read, (Layout.ofAttempts attempts).split flat = .ok arrays
        ∧ Document.arrays (arrays.map fun entry => (entry.1, .ofTensor entry.2))
          = .ok (read.map fun entry => (entry.1, .explicit entry.2))
        ∧ (Layout.ofAttempts attempts).join read = .ok flat := by
  constructor
  · intro name tensor hnil hpos hroom
    rw [Document.dense_ofTensor name hnil hpos (tensor.length_entries ▸ hroom)]
    constructor
    · by_cases hfinite : ∀ x ∈ tensor.entries, x.isFinite = true
      · rw [if_pos hfinite]
        exact iff_of_true rfl hfinite
      · rw [if_neg hfinite]
        exact iff_of_false nofun hfinite
    · rintro ⟨x, hx, hinfinite⟩
      exact if_neg fun hfinite => by simp [hfinite x hx] at hinfinite
  · intro attempts flat hlen hfinite
    have hwf := Layout.wellFormed_ofAttempts attempts
    obtain ⟨arrays, hsplit, -⟩ := Layout.exists_split hwf hlen
    refine ⟨arrays, arrays, hsplit, ?_, hwf.join_of_split hsplit⟩
    refine Document.arrays_ofTensors fun entry hentry => ?_
    obtain ⟨⟨block, hblock, hshape⟩, hflat⟩ := hwf.of_mem_split hlen hsplit hentry
    have hplaced := hwf.blocks block hblock
    rw [hshape]
    exact ⟨hplaced.shape_ne_nil, hplaced.dim_pos, hwf.length_le hblock,
      fun x hx => hfinite x (hflat x hx)⟩

/-- Two axes, with a zero that keeps its sign, and the same array with an infinity in it. -/
theorem arrays_survive_json_negative_zero :
    let tensor : Tensor := ⟨[2, 1], [.ofInt 1, .negZero], rfl⟩
    let infinite : Tensor := ⟨[2, 1], [.ofInt 1, .infinity true], rfl⟩
    let layout := Layout.ofAttempts [("x", .ofShape {} [2, 1]), ("x", .scalar {}), ("y", .scalar {})]
    let flat : List Binary64 := [.ofInt 1, .negZero, .ofRat (1 / 2)]
    Document.dense "x" (.ofTensor tensor) = .ok (.explicit tensor)
      ∧ Document.dense "x" (.ofTensor infinite) = .error (.failed (.notNumeric "x"))
      ∧ ∃ arrays read, layout.split flat = .ok arrays
        ∧ Document.arrays (arrays.map fun entry => (entry.1, .ofTensor entry.2))
          = .ok (read.map fun entry => (entry.1, .explicit entry.2))
        ∧ layout.join read = .ok flat := by
  intro tensor infinite layout flat
  obtain ⟨harray, hfamily⟩ := arrays_survive_json
  refine ⟨?_, ?_, hfamily _ flat rfl (by decide +kernel)⟩
  · exact (harray "x" tensor (by decide) (by decide) (by decide)).1.mpr (by decide +kernel)
  · exact (harray "x" infinite (by decide) (by decide) (by decide)).2
      ⟨.infinity true, List.mem_cons_of_mem _ List.mem_cons_self, rfl⟩

end LinearModel
