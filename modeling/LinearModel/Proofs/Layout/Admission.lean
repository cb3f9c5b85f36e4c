import LinearModel.Proofs.Draft.Edits
import LinearModel.Proofs.Layout.Ranges
import LinearModel.Proofs.Layout.Words
import LinearModel.Proofs.Traversal

/-!
# Admission

What can speak against placing a block is known before it is tried: seven objections in a fixed
order, of which the first that holds is the fault. The counts among them are meant exactly, whatever
the dimensions are, and the checked counting in words comes to the same.

* `place?_eq_error_iff` — the fault is the first objection that holds
* `exists_place?_iff` — a block is placed exactly if nothing speaks against it
* `placed_iff_admitted` — both for reached layouts, which a refused block leaves as they were, for
  lists of blocks, and for counts in words
-/

namespace LinearModel

/-! ## Objections -/

/-- The bound is an array of another shape. -/
def Dense.Misshapen (shape : Shape) (bound : Dense) (fault : BlockFault) : Prop :=
  ∃ given, bound = .explicit given ∧ given.shape ≠ shape
    ∧ fault = .boundShape given.shape shape

theorem Dense.forall_not_misshapen_iff {shape : Shape} {bound : Dense} :
    (∀ fault, ¬ bound.Misshapen shape fault) ↔ bound.Matches shape := by
  cases bound with
  | uniform value => simp [Misshapen, Matches]
  | explicit given => simp [Misshapen, Matches]

namespace Layout

/-- What can speak against placing a block, in the order in which it is looked at, each with its
fault. -/
def objections (layout : Layout) (name : String) (block : Block) : List (BlockFault → Prop) :=
  [fun fault => name ∈ layout.names ∧ fault = .duplicateName,
    fun fault => block.shape = [] ∧ fault = .noDimensions,
    fun fault => 0 ∈ block.shape ∧ fault = .zeroDimension block.shape,
    fun fault => Shape.elementLimit < block.shape.prod ∧ fault = .tooManyElements block.shape,
    fun fault => Shape.elementLimit < layout.dimension + block.shape.prod
      ∧ fault = .dimensionTooLarge,
    block.lower.Misshapen block.shape,
    block.upper.Misshapen block.shape]

/-- Nothing speaks against placing the block: the name is new, there are axes and none of them is
empty, the exact number of elements and the exact number of all variables are such that an array
can hold them, and bounds that are arrays have the shape of the block. -/
structure Admits (layout : Layout) (name : String) (block : Block) : Prop where
  name_new : name ∉ layout.names
  shape_ne_nil : block.shape ≠ []
  one_le : ∀ dim ∈ block.shape, 1 ≤ dim
  prod_le : block.shape.prod ≤ Shape.elementLimit
  total_le : layout.dimension + block.shape.prod ≤ Shape.elementLimit
  lower : block.lower.Matches block.shape
  upper : block.upper.Matches block.shape

variable {layout next : Layout} {name : String} {block : Block} {fault : BlockFault}

theorem forall_not_objection_iff :
    (∀ objection ∈ layout.objections name block, ∀ fault, ¬ objection fault)
      ↔ layout.Admits name block := by
  simp only [objections, List.forall_mem_cons, Dense.forall_not_misshapen_iff]
  constructor
  · rintro ⟨hname, hnil, hzero, hprod, htotal, hlower, hupper, -⟩
    refine ⟨?_, ?_, ?_, ?_, ?_, hlower, hupper⟩
    · exact fun h => hname _ ⟨h, rfl⟩
    · exact fun h => hnil _ ⟨h, rfl⟩
    · intro dim hdim
      exact Nat.one_le_iff_ne_zero.mpr fun h => hzero _ ⟨h ▸ hdim, rfl⟩
    · exact Nat.not_lt.mp fun h => hprod _ ⟨h, rfl⟩
    · exact Nat.not_lt.mp fun h => htotal _ ⟨h, rfl⟩
  · intro h
    refine ⟨fun _ hf => h.name_new hf.1, fun _ hf => h.shape_ne_nil hf.1, fun _ hf => ?_,
      fun _ hf => ?_, fun _ hf => ?_, h.lower, h.upper, by simp⟩
    · have := h.one_le 0 hf.1
      omega
    · have := h.prod_le
      omega
    · have := h.total_le
      omega

/-! ## Placing -/

theorem fitBound_eq_error_iff {shape : Shape} {bound : Dense} :
    fitBound shape bound = .error fault ↔ bound.Misshapen shape fault := by
  cases bound with
  | uniform value => exact iff_of_false (by rintro ⟨⟩) (by rintro ⟨_, ⟨⟩, _⟩)
  | explicit given =>
    by_cases hshape : given.shape = shape
    · simp [fitBound, Dense.fit, hshape, Dense.Misshapen]
    · have hfit : fitBound shape (.explicit given) = .error (.boundShape given.shape shape) := by
        simp [fitBound, Dense.fit, hshape]
      rw [hfit]
      constructor
      · rintro ⟨⟩
        exact ⟨given, rfl, hshape, rfl⟩
      · rintro ⟨_, ⟨⟩, -, rfl⟩
        rfl

/-- Of two bounds that are arrays of other shapes the lower one is the fault. -/
theorem fitBounds_eq_error_iff {α : Type} {shape : Shape} {lower upper : Dense}
    {finish : Tensor → Tensor → α} :
    (do
      let lower ← fitBound shape lower
      let upper ← fitBound shape upper
      Except.ok (finish lower upper)) = .error fault
      ↔ FirstRefused (fun objection fault => objection fault)
        [lower.Misshapen shape, upper.Misshapen shape] fault := by
  simp only [firstRefused_cons_iff, not_firstRefused_nil, ← fitBound_eq_error_iff, and_false,
    or_false]
  cases fitBound shape lower with
  | error other =>
    show Except.error other = .error fault ↔ _
    simp
  | ok lower =>
    cases fitBound shape upper with
    | error other =>
      show Except.error other = .error fault ↔ _
      simp
    | ok upper => exact iff_of_false (by rintro ⟨⟩) (by simp)

/-- **The fault is the first objection that holds.** -/
theorem place?_eq_error_iff :
    layout.place? name block = .error fault
      ↔ FirstRefused (fun objection fault => objection fault) (layout.objections name block)
        fault := by
  have hcontains : layout.contains name = true ↔ name ∈ layout.names := by
    rw [← Bool.not_eq_false, not_iff_comm, contains_eq_false_iff]
  unfold place? objections
  simp only [hcontains]
  refine ite_error_eq_error_iff fun _ => ite_error_eq_error_iff fun _ =>
    ite_error_eq_error_iff fun hzero => ?_
  -- no dimension is zero, so the checked counts are the exact ones
  have hpos : ∀ dim ∈ block.shape, 0 < dim := fun dim hdim =>
    Nat.pos_of_ne_zero fun h => hzero (h ▸ hdim)
  have hsize := Shape.checkedSize_eq_ite hpos
  by_cases hlarge : Shape.elementLimit < block.shape.prod
  · rw [if_pos hlarge] at hsize
    simp [hsize, firstRefused_cons_iff, hlarge, eq_comm]
  rw [if_neg hlarge] at hsize
  have htotal := Shape.checkedSize_singleton (layout.dimension + block.shape.prod)
  by_cases hroom : layout.dimension + block.shape.prod ≤ Shape.elementLimit
  · rw [if_pos hroom] at htotal
    have hnot : ¬ Shape.elementLimit < layout.dimension + block.shape.prod := Nat.not_lt.mpr hroom
    simp only [hsize, htotal]
    rw [firstRefused_cons_iff, firstRefused_cons_iff]
    simp only [hlarge, hnot, false_and, not_false_iff, implies_true, true_and, false_or]
    exact fitBounds_eq_error_iff
  · rw [if_neg hroom] at htotal
    simp [hsize, htotal, firstRefused_cons_iff, hlarge, Nat.not_le.mp hroom, eq_comm]

/-- Of a dimension of zero and a dimension that is too large it is the first that counts. -/
example : empty.place? "x" ⟨[2 ^ 70, 0], .uniform .zero, .uniform .zero, .integer⟩
    = .error (.zeroDimension [2 ^ 70, 0]) := by decide

/-- **A block is placed exactly if nothing speaks against it.** -/
theorem exists_place?_iff :
    (∃ next, layout.place? name block = .ok next) ↔ layout.Admits name block := by
  have hnone : layout.Admits name block ↔ ∀ fault, ¬ layout.place? name block = .error fault := by
    rw [← forall_not_objection_iff, ← not_exists]
    simp only [place?_eq_error_iff, exists_firstRefused_iff]
    push Not
    rfl
  rw [hnone]
  cases layout.place? name block with
  | error fault => exact iff_of_false (by rintro ⟨_, ⟨⟩⟩) fun hnot => hnot fault rfl
  | ok next => exact iff_of_true ⟨next, rfl⟩ (by rintro _ ⟨⟩)

theorem exists_place_iff :
    (∃ next, layout.place name block = .ok next) ↔ layout.Admits name block := by
  simp only [place_eq_ok_iff, exists_place?_iff]

/-- An error carries the name of the block and the first objection that holds. -/
theorem exists_of_place_eq_error {error : ModelError}
    (h : layout.place name block = .error error) :
    ∃ fault, error = .invalidBlock name fault
      ∧ FirstRefused (fun objection fault => objection fault) (layout.objections name block)
        fault := by
  unfold place at h
  split at h
  · cases h
  · next fault hfault =>
    cases h
    exact ⟨fault, rfl, place?_eq_error_iff.mp hfault⟩

/-- A block that is placed adds its name and its variables. -/
theorem names_and_dimension_of_place (h : layout.place name block = .ok next) :
    next.names = layout.names ++ [name]
      ∧ next.dimension = layout.dimension + block.shape.prod := by
  obtain ⟨placed, hname, hshape, -, -, -, -, -, -, -, rfl⟩ :=
    place?_ok_cases (place_eq_ok_iff.mp h)
  constructor
  · rw [names, List.map_append, List.map_singleton, hname]
    rfl
  · show layout.dimension + placed.shape.size = _
    rw [hshape, Shape.size_eq_prod]

/-! ## Lists of blocks -/

theorem ofAttempts_concat (attempts : List (String × Block)) (entry : String × Block) :
    ofAttempts (attempts ++ [entry]) = (ofAttempts attempts).attempt entry := by
  rw [ofAttempts, List.foldl_concat]
  rfl

theorem ofAttempts_concat_of_ok {attempts : List (String × Block)}
    (h : (ofAttempts attempts).place name block = .ok next) :
    ofAttempts (attempts ++ [(name, block)]) = next := by
  rw [ofAttempts_concat, attempt, h]

theorem ofAttempts_concat_of_error {attempts : List (String × Block)} {error : ModelError}
    (h : (ofAttempts attempts).place name block = .error error) :
    ofAttempts (attempts ++ [(name, block)]) = ofAttempts attempts := by
  rw [ofAttempts_concat, attempt, h]

/-- The first block that cannot be placed decides. -/
theorem ofBlocks_eq_error_iff {entries : List (String × Block)} {error : ModelError} :
    ofBlocks entries = .error error ↔ ∃ before entry after, entries = before ++ entry :: after
      ∧ ofBlocks before = .ok (ofAttempts before)
      ∧ (ofAttempts before).place entry.1 entry.2 = .error error := by
  unfold ofBlocks
  rw [foldlM_eq_error_iff_exists]
  constructor
  · rintro ⟨before, entry, after, reached, rfl, hbefore, hentry⟩
    obtain rfl := ofAttempts_of_ofBlocks hbefore
    exact ⟨before, entry, after, rfl, hbefore, hentry⟩
  · rintro ⟨before, entry, after, rfl, hbefore, hentry⟩
    exact ⟨before, entry, after, _, rfl, hbefore, hentry⟩

/-- Blocks are placed exactly if each is, behind those in front of it. -/
theorem exists_ofBlocks_iff {entries : List (String × Block)} :
    (∃ layout, ofBlocks entries = .ok layout)
      ↔ ∀ before entry after, entries = before ++ entry :: after →
        ∃ next, (ofAttempts before).place entry.1 entry.2 = .ok next := by
  constructor
  · rintro ⟨layout, hlayout⟩ before entry after rfl
    unfold ofBlocks at hlayout
    rw [List.foldlM_append] at hlayout
    obtain ⟨reached, hbefore, hrest⟩ := bind_eq_ok_iff.mp hlayout
    obtain rfl := ofAttempts_of_ofBlocks hbefore
    rw [List.foldlM_cons] at hrest
    obtain ⟨next, hentry, -⟩ := bind_eq_ok_iff.mp hrest
    exact ⟨next, hentry⟩
  · intro h
    cases hentries : ofBlocks entries with
    | ok layout => exact ⟨layout, rfl⟩
    | error error =>
      obtain ⟨before, entry, after, rfl, -, hentry⟩ := ofBlocks_eq_error_iff.mp hentries
      obtain ⟨next, hnext⟩ := h before entry after rfl
      rw [hnext] at hentry
      cases hentry

/-- **A block is placed exactly if it is admitted, and refusing it changes nothing.** For every
layout that is reached by placing blocks, some of which may have been refused: a further block is
placed exactly if nothing speaks against it, and it then adds its name and its variables. Otherwise
the error carries its name and the first objection that holds, and the layout that is reached is the
one from before. A list of blocks is placed exactly if each of them is, one after the other, and
its error is that of the first that is not. Counting in words has the outcome of counting exactly,
for the block and for all variables: where it is not given up, nothing has wrapped. -/
theorem placed_iff_admitted (attempts : List (String × Block)) (name : String) (block : Block) :
    let layout := ofAttempts attempts
    ((∃ next, layout.place name block = .ok next) ↔ layout.Admits name block)
    ∧ (∀ next, layout.place name block = .ok next →
      ofAttempts (attempts ++ [(name, block)]) = next ∧ next.names = layout.names ++ [name]
        ∧ next.dimension = layout.dimension + block.shape.prod)
    ∧ (∀ error, layout.place name block = .error error →
      ofAttempts (attempts ++ [(name, block)]) = layout
        ∧ ∃ fault, error = .invalidBlock name fault
          ∧ FirstRefused (fun objection fault => objection fault) (layout.objections name block)
            fault)
    ∧ (∀ entries : List (String × Block),
      ((∃ reached, ofBlocks entries = .ok reached)
        ↔ ∀ before entry after, entries = before ++ entry :: after →
          ∃ next, (ofAttempts before).place entry.1 entry.2 = .ok next)
      ∧ ∀ error, ofBlocks entries = .error error
        ↔ ∃ before entry after, entries = before ++ entry :: after
          ∧ ofBlocks before = .ok (ofAttempts before)
          ∧ (ofAttempts before).place entry.1 entry.2 = .error error)
    ∧ ∀ dims : List UInt64, dims.map UInt64.toNat = block.shape →
      (Shape.wordCount? dims).map UInt64.toNat = block.shape.checkedSize
      ∧ ∀ length, Shape.wordCount? dims = some length → length.toNat = block.shape.prod
        ∧ (Shape.wordTotal? (.ofNat layout.dimension) length).map UInt64.toNat
          = Shape.checkedSize [layout.dimension + block.shape.prod] := by
  intro layout
  refine ⟨exists_place_iff, ?_, ?_, ?_, ?_⟩
  · intro next hnext
    exact ⟨ofAttempts_concat_of_ok hnext, names_and_dimension_of_place hnext⟩
  · intro error herror
    exact ⟨ofAttempts_concat_of_error herror, exists_of_place_eq_error herror⟩
  · exact fun entries => ⟨exists_ofBlocks_iff, fun error => ofBlocks_eq_error_iff⟩
  · intro dims hdims
    have hcount := Shape.toNat_wordCount? dims
    rw [hdims] at hcount
    refine ⟨hcount, fun length hlength => ?_⟩
    rw [hlength] at hcount
    have hexact : length.toNat = block.shape.prod := by
      rw [(Shape.checkedSize_eq_some hcount.symm).1, Shape.size_eq_prod]
    have hword : (UInt64.ofNat layout.dimension).toNat = layout.dimension :=
      UInt64.toNat_ofNat_of_lt' (Nat.lt_of_le_of_lt (wellFormed_ofAttempts attempts).dimension_le
        Shape.elementLimit_lt)
    exact ⟨hexact, by rw [Shape.toNat_wordTotal?, hword, hexact]⟩

end Layout

end LinearModel
