import LinearModel.Proofs.Document.Capacity

/-!
# Rectangles of numbers

A value is a rectangle of a shape if, wherever one stands in it, there is an array of the length
that the shape has at this depth, and at the depth of the whole shape a number. Reading guesses the
shape along the first elements and then holds the value against it. The guess is right for every
rectangle, up to the first empty axis, and nothing but a rectangle agrees with its own guess.

* `Rectangular.outline_eq` — the outline of a rectangle is its shape, cut behind the first zero
* `rectangular_iff_exists_collect` — the numbers can be collected exactly from a rectangle
* `collect_eq_error_iff` — otherwise the first misfit in the order of the text is the fault
* `dense_accepts_rectangles` — the same for the numbers of a name, as long as there is room
* `dense_nestedPairs` — where there is none, the fault is not named
-/

namespace LinearModel

/-- The shape up to its first zero. Behind an empty axis nothing can be seen of a shape. -/
def Shape.cut : Shape → Shape
  | [] => []
  | 0 :: _ => [0]
  | dim :: rest => dim :: cut rest

@[simp] theorem Shape.cut_zero (rest : Shape) : Shape.cut (0 :: rest) = [0] := rfl

@[simp] theorem Shape.cut_succ (n : Nat) (rest : Shape) :
    Shape.cut ((n + 1) :: rest) = (n + 1) :: Shape.cut rest := rfl

namespace Json.Value

/-! ## The nodes of a value -/

/-- The same node, seen from one array further out. -/
def deeper (entry : Nat × Value) : Nat × Value := (entry.1 + 1, entry.2)

mutual

/-- The value and what is reached from it through arrays, in the order of the text, each with the
number of arrays that it lies in. -/
def nodes : Value → List (Nat × Value)
  | array items => (0, array items) :: (itemNodes items).map deeper
  | value => [(0, value)]

/-- The nodes of several values, one value after the other. -/
def itemNodes : List Value → List (Nat × Value)
  | [] => []
  | item :: rest => nodes item ++ itemNodes rest

end

theorem itemNodes_eq_flatMap (items : List Value) : itemNodes items = items.flatMap nodes := by
  induction items with
  | nil => rfl
  | cons item rest ih => rw [itemNodes, ih, List.flatMap_cons]

theorem nodes_array (items : List Value) :
    nodes (array items) = (0, array items) :: (items.flatMap nodes).map deeper := by
  rw [nodes, itemNodes_eq_flatMap]

theorem self_mem_nodes (value : Value) : (0, value) ∈ value.nodes := by
  cases value with
  | array items => rw [nodes_array]; exact List.mem_cons_self
  | _ => exact List.mem_singleton_self _

theorem mem_nodes_array {items : List Value} {depth : Nat} {node : Value} :
    (depth, node) ∈ nodes (array items) ↔ depth = 0 ∧ node = array items
      ∨ ∃ item ∈ items, ∃ above, depth = above + 1 ∧ (above, node) ∈ item.nodes := by
  rw [nodes_array, List.mem_cons, Prod.mk.injEq, List.mem_map]
  refine or_congr_right ⟨?_, ?_⟩
  · rintro ⟨⟨above, other⟩, hmem, heq⟩
    obtain ⟨rfl, rfl⟩ := Prod.mk.inj heq
    obtain ⟨item, hitem, hnode⟩ := List.mem_flatMap.mp hmem
    exact ⟨item, hitem, above, rfl, hnode⟩
  · rintro ⟨item, hitem, above, rfl, hnode⟩
    exact ⟨(above, node), List.mem_flatMap.mpr ⟨item, hitem, hnode⟩, rfl⟩

/-- The number of a node, if it is one. -/
def numberOf? : Nat × Value → Option Binary64
  | (_, number x) => some x
  | _ => none

/-- The numbers in the order of the text. -/
def numbers (value : Value) : List Binary64 := value.nodes.filterMap numberOf?

theorem numbers_array (items : List Value) : (array items).numbers = items.flatMap numbers := by
  have hdeeper : numberOf? ∘ deeper = numberOf? := by
    funext entry
    obtain ⟨depth, node⟩ := entry
    cases node <;> rfl
  rw [numbers, nodes_array, List.filterMap_cons_none rfl, List.filterMap_map, hdeeper,
    List.filterMap_flatMap]
  rfl

/-! ## Rectangles -/

/-- At each depth inside the shape there are arrays of the length that it has there, and at the
depth of the whole shape there are numbers. -/
structure Rectangular (shape : Shape) (value : Value) : Prop where
  inside : ∀ depth node, (depth, node) ∈ value.nodes → depth < shape.length →
    ∃ items, node = array items ∧ shape[depth]? = some items.length
  last : ∀ node, (shape.length, node) ∈ value.nodes → ∃ x, node = number x

theorem rectangular_nil_iff {value : Value} : value.Rectangular [] ↔ ∃ x, value = number x := by
  constructor
  · intro h
    exact h.last value value.self_mem_nodes
  · rintro ⟨x, rfl⟩
    refine ⟨fun depth node _ hdepth => absurd hdepth (Nat.not_lt_zero _), fun node hnode => ?_⟩
    exact ⟨x, (Prod.mk.inj (List.mem_singleton.mp hnode)).2⟩

theorem rectangular_cons_iff {dim : Nat} {rest : Shape} {value : Value} :
    value.Rectangular (dim :: rest) ↔ ∃ items, value = array items ∧ items.length = dim
      ∧ ∀ item ∈ items, item.Rectangular rest := by
  constructor
  · intro h
    obtain ⟨items, rfl, hlength⟩ := h.inside 0 value value.self_mem_nodes (Nat.succ_pos _)
    refine ⟨items, rfl, (Option.some.inj hlength).symm, fun item hitem => ⟨?_, ?_⟩⟩
    · intro depth node hnode hdepth
      exact h.inside (depth + 1) node (mem_nodes_array.mpr (.inr ⟨item, hitem, depth, rfl, hnode⟩))
        (Nat.succ_lt_succ hdepth)
    · intro node hnode
      exact h.last node (mem_nodes_array.mpr (.inr ⟨item, hitem, rest.length, rfl, hnode⟩))
  · rintro ⟨items, rfl, rfl, hitems⟩
    constructor
    · intro depth node hnode hdepth
      rcases mem_nodes_array.mp hnode with ⟨rfl, rfl⟩ | ⟨item, hitem, above, rfl, habove⟩
      · exact ⟨items, rfl, rfl⟩
      · exact (hitems item hitem).inside above node habove (Nat.lt_of_succ_lt_succ hdepth)
    · intro node hnode
      rcases mem_nodes_array.mp hnode with ⟨hzero, -⟩ | ⟨item, hitem, above, heq, habove⟩
      · cases hzero
      · obtain rfl : rest.length = above := Nat.succ.inj heq
        exact (hitems item hitem).last node habove

/-- **The outline of a rectangle is its shape**, as far as it can be seen. -/
theorem Rectangular.outline_eq {shape : Shape} {value : Value} (h : value.Rectangular shape) :
    value.outline = shape.cut := by
  induction shape generalizing value with
  | nil =>
    obtain ⟨x, rfl⟩ := rectangular_nil_iff.mp h
    rfl
  | cons dim rest ih =>
    obtain ⟨items, rfl, rfl, hitems⟩ := rectangular_cons_iff.mp h
    cases items with
    | nil => rfl
    | cons first others =>
      rw [outline, ih (hitems first List.mem_cons_self), List.length_cons, Shape.cut_succ]

theorem Rectangular.cut {shape : Shape} {value : Value} (h : value.Rectangular shape) :
    value.Rectangular shape.cut := by
  induction shape generalizing value with
  | nil => exact h
  | cons dim rest ih =>
    obtain ⟨items, rfl, rfl, hitems⟩ := rectangular_cons_iff.mp h
    cases items with
    | nil => exact rectangular_cons_iff.mpr ⟨[], rfl, rfl, nofun⟩
    | cons first others =>
      exact rectangular_cons_iff.mpr ⟨_, rfl, rfl, fun item hitem => ih (hitems item hitem)⟩

/-! ## Collecting -/

/-- What is collected are the numbers in the order of the text. -/
theorem eq_numbers_of_collect {shape : Shape} {value : Value} {entries : List Binary64}
    (h : value.collect shape = .ok entries) : entries = value.numbers := by
  induction shape generalizing value entries with
  | nil =>
    cases value with
    | number x => exact (Except.ok.inj h).symm
    | _ => cases h
  | cons dim rest ih =>
    cases value with
    | array items =>
      rw [collect] at h
      split at h
      · cases hitems : items.mapM (collect rest) with
        | error fault => rw [hitems] at h; cases h
        | ok lists =>
          have hnumbers : ∀ item ∈ items, item.collect rest = .ok item.numbers := by
            intro item hitem
            obtain ⟨list, hlist⟩ := forall_of_mapM_ok hitems item hitem
            rw [hlist, ih hlist]
          rw [mapM_eq_ok_map numbers hnumbers] at h
          rw [numbers_array, List.flatMap_def]
          exact (Except.ok.inj h).symm
      · cases h
    | _ => cases h

/-- **The numbers can be collected exactly from a rectangle.** -/
theorem rectangular_iff_exists_collect {shape : Shape} {value : Value} :
    value.Rectangular shape ↔ ∃ entries, value.collect shape = .ok entries := by
  induction shape generalizing value with
  | nil =>
    rw [rectangular_nil_iff]
    cases value <;> simp [collect]
  | cons dim rest ih =>
    rw [rectangular_cons_iff]
    constructor
    · rintro ⟨items, rfl, hlength, hitems⟩
      have hnumbers : ∀ item ∈ items, item.collect rest = .ok item.numbers := by
        intro item hitem
        obtain ⟨entries, hentries⟩ := ih.mp (hitems item hitem)
        rw [hentries, eq_numbers_of_collect hentries]
      rw [collect, if_pos hlength, mapM_eq_ok_map numbers hnumbers]
      exact ⟨_, rfl⟩
    · rintro ⟨entries, hentries⟩
      cases value with
      | array items =>
        rw [collect] at hentries
        split at hentries
        · next hlength =>
          cases hitems : items.mapM (collect rest) with
          | error fault => rw [hitems] at hentries; cases hentries
          | ok lists =>
            refine ⟨items, rfl, hlength, fun item hitem => ?_⟩
            exact ih.mpr (forall_of_mapM_ok hitems item hitem)
        · cases hentries
      | _ => cases hentries

theorem Rectangular.collect_eq {shape : Shape} {value : Value} (h : value.Rectangular shape) :
    value.collect shape = .ok value.numbers := by
  obtain ⟨entries, hentries⟩ := rectangular_iff_exists_collect.mp h
  rw [hentries, eq_numbers_of_collect hentries]

/-- The node is not what the shape has at its depth. An array has another length there or lies below
the last axis, a number lies above it, and anything else has no place in a rectangle. -/
def Misfits (shape : Shape) : Nat × Value → ArrayFault → Prop
  | (depth, array items), fault => shape[depth]? ≠ some items.length ∧ fault = .ragged
  | (depth, number _), fault => depth ≠ shape.length ∧ fault = .ragged
  | _, fault => fault = .notNumeric

theorem misfits_deeper (dim : Nat) (rest : Shape) (entry : Nat × Value) :
    Misfits (dim :: rest) (deeper entry) = Misfits rest entry := by
  obtain ⟨depth, node⟩ := entry
  funext fault
  cases node <;> simp [deeper, Misfits]

/-- Where the value itself is a misfit, it is the first. -/
theorem firstRefused_nodes_of_misfits {shape : Shape} {value : Value} {fault : ArrayFault}
    (other : ArrayFault) (h : ∀ fault, Misfits shape (0, value) fault ↔ fault = other) :
    FirstRefused (Misfits shape) value.nodes fault ↔ fault = other := by
  have hhead : ∃ rest, value.nodes = (0, value) :: rest := by
    cases value with
    | array items => exact ⟨_, nodes_array items⟩
    | _ => exact ⟨[], rfl⟩
  obtain ⟨rest, hrest⟩ := hhead
  rw [hrest, firstRefused_cons_iff, h]
  exact or_iff_left fun hlater => hlater.1 other ((h other).mpr rfl)

/-- **The first misfit in the order of the text is the fault.** -/
theorem collect_eq_error_iff {shape : Shape} {value : Value} {fault : ArrayFault} :
    value.collect shape = .error fault ↔ FirstRefused (Misfits shape) value.nodes fault := by
  induction shape generalizing value fault with
  | nil =>
    cases value with
    | number x => simp [collect, nodes, firstRefused_cons_iff, not_firstRefused_nil, Misfits]
    | array items =>
      rw [firstRefused_nodes_of_misfits .ragged (by simp [Misfits])]
      simp [collect, eq_comm]
    | _ =>
      rw [firstRefused_nodes_of_misfits .notNumeric (by simp [Misfits])]
      simp [collect, eq_comm]
  | cons dim rest ih =>
    cases value with
    | array items =>
      by_cases hlength : items.length = dim
      · -- the array itself is in order, and its items are held against the rest of the shape
        have hhead : ∀ fault, ¬ Misfits (dim :: rest) (0, array items) fault := by
          simp [Misfits, hlength]
        have hitems : items.mapM (collect rest) = .error fault
            ↔ FirstRefused (Misfits (dim :: rest)) ((items.flatMap nodes).map deeper) fault := by
          rw [mapM_eq_error_iff_firstRefused, firstRefused_map_iff]
          simp only [misfits_deeper, firstRefused_flatMap_iff, ih]
        have hcollect : collect (dim :: rest) (array items) = .error fault
            ↔ items.mapM (collect rest) = .error fault := by
          rw [collect, if_pos hlength]
          cases items.mapM (collect rest) <;> simp [Except.map]
        rw [hcollect, hitems, nodes_array, firstRefused_cons_iff]
        exact ((or_iff_right (hhead fault)).trans (and_iff_right hhead)).symm
      · rw [firstRefused_nodes_of_misfits .ragged (by simp [Misfits, Ne.symm hlength])]
        simp [collect, hlength, eq_comm]
    | number x =>
      rw [firstRefused_nodes_of_misfits .ragged (by simp [Misfits])]
      simp [collect, eq_comm]
    | _ =>
      rw [firstRefused_nodes_of_misfits .notNumeric (by simp [Misfits])]
      simp [collect, eq_comm]

/-! ## The numbers of a value -/

/-- The array of what has been collected, which has just as many numbers as the shape. -/
theorem exists_ofEntries? {shape : Shape} {value : Value} {entries : List Binary64}
    (h : value.collect shape = .ok entries) :
    ∃ tensor, Tensor.ofEntries? shape entries = some tensor ∧ tensor.shape = shape
      ∧ tensor.entries = entries :=
  ⟨⟨shape, entries, length_of_collect h⟩, dif_pos (length_of_collect h), rfl, rfl⟩

theorem dense_of_collect_error {items : List Value} (hroom : ¬ (array items).Oversized)
    {fault : ArrayFault} (h : (array items).collect (array items).outline = .error fault) :
    (array items).dense = .error fault := by
  rw [dense]
  refine (if_neg hroom).trans ?_
  rw [h]

theorem exists_dense_of_collect {items : List Value} (hroom : ¬ (array items).Oversized)
    {entries : List Binary64} (h : (array items).collect (array items).outline = .ok entries) :
    ∃ tensor : Tensor, (array items).dense = .ok (.explicit tensor)
      ∧ tensor.shape = (array items).outline ∧ tensor.entries = entries := by
  obtain ⟨tensor, htensor, hshape, hentries⟩ := exists_ofEntries? h
  refine ⟨tensor, ?_, hshape, hentries⟩
  rw [dense]
  refine (if_neg hroom).trans ?_
  simp only [h, htensor]

theorem outline_array_ne_nil (items : List Value) : (array items).outline ≠ [] := by
  cases items <;> simp [outline]

theorem dense_eq_uniform_iff {value : Value} (hroom : ¬ value.Oversized) (x : Binary64) :
    value.dense = .ok (.uniform x) ↔ value = number x := by
  cases value with
  | array items =>
    refine iff_of_false (fun h => ?_) nofun
    cases hcollect : (array items).collect (array items).outline with
    | error fault => rw [dense_of_collect_error hroom hcollect] at h; cases h
    | ok entries =>
      obtain ⟨tensor, htensor, -, -⟩ := exists_dense_of_collect hroom hcollect
      rw [htensor] at h
      cases h
  | _ => simp [dense]

/-- **The arrays that are read are the rectangles**, each with its shape and its numbers. -/
theorem dense_eq_explicit_iff {value : Value} (hroom : ¬ value.Oversized) (given : Strided) :
    value.dense = .ok (.explicit given) ↔ ∃ (shape : Shape) (tensor : Tensor), given = tensor
      ∧ shape ≠ [] ∧ value.Rectangular shape ∧ tensor.shape = shape.cut
      ∧ tensor.entries = value.numbers := by
  constructor
  · intro h
    cases value with
    | array items =>
      cases hcollect : (array items).collect (array items).outline with
      | error fault => rw [dense_of_collect_error hroom hcollect] at h; cases h
      | ok entries =>
        have hrectangular : (array items).Rectangular (array items).outline :=
          rectangular_iff_exists_collect.mpr ⟨entries, hcollect⟩
        obtain ⟨read, hread, hshape, hentries⟩ := exists_dense_of_collect hroom hcollect
        rw [hread] at h
        refine ⟨_, read, Dense.explicit.inj (Except.ok.inj h.symm), outline_array_ne_nil items,
          hrectangular, ?_, ?_⟩
        · rw [hshape, ← hrectangular.outline_eq]
        · rw [hentries, eq_numbers_of_collect hcollect]
    | _ => cases h
  · rintro ⟨shape, tensor, rfl, hne, hrectangular, hshape, hentries⟩
    cases shape with
    | nil => exact absurd rfl hne
    | cons dim rest =>
      obtain ⟨items, rfl, -, -⟩ := rectangular_cons_iff.mp hrectangular
      have hcollect : (array items).collect (array items).outline = .ok (array items).numbers := by
        rw [hrectangular.outline_eq]
        exact hrectangular.cut.collect_eq
      obtain ⟨read, hread, hreadShape, hreadEntries⟩ := exists_dense_of_collect hroom hcollect
      have hsame : read = tensor := by
        refine Grid.ext ?_ (hreadEntries.trans hentries.symm)
        rw [hreadShape, hrectangular.outline_eq, hshape]
      rw [hread, hsame]

/-- **What is not read has a misfit**, and the first in the order of the text is the fault. -/
theorem dense_eq_error_iff {value : Value} (hroom : ¬ value.Oversized) (fault : ArrayFault) :
    value.dense = .error fault
      ↔ FirstRefused (Misfits value.outline) value.nodes fault := by
  rw [← collect_eq_error_iff]
  cases value with
  | array items =>
    cases hcollect : (array items).collect (array items).outline with
    | error other =>
      rw [dense_of_collect_error hroom hcollect, Except.error.injEq, Except.error.injEq]
    | ok entries =>
      obtain ⟨tensor, htensor, -, -⟩ := exists_dense_of_collect hroom hcollect
      rw [htensor]
      exact iff_of_false nofun nofun
  | _ => simp [dense, outline, collect]

end Json.Value

/-! ## Under a name -/

/-- **Just the rectangles of numbers are read.** Where there is room for as many numbers as the
first elements ask for, a number is read as standing for every element, and an array is read if and
only if it is a rectangle of some shape. What is read then is in row-major order and has this shape
up to its first zero and the numbers in the order of the text, and making an array of them never
fails. In every other case the first misfit in the order of the text is reported under the name, the
shape being the one along the first elements. -/
theorem Document.dense_accepts_rectangles (name : String) {value : Json.Value}
    (hroom : ¬ value.Oversized) :
    (∀ x, dense name value = .ok (.uniform x) ↔ value = .number x)
      ∧ (∀ given, dense name value = .ok (.explicit given) ↔ ∃ (shape : Shape) (tensor : Tensor),
        given = tensor ∧ shape ≠ [] ∧ value.Rectangular shape ∧ tensor.shape = shape.cut
          ∧ tensor.entries = value.numbers)
      ∧ (∀ entries, value.collect value.outline = .ok entries →
        ∃ tensor, Tensor.ofEntries? value.outline entries = some tensor)
      ∧ (dense name value = .error (.failed (.ragged name))
        ↔ FirstRefused (Json.Value.Misfits value.outline) value.nodes .ragged)
      ∧ (dense name value = .error (.failed (.notNumeric name))
        ↔ FirstRefused (Json.Value.Misfits value.outline) value.nodes .notNumeric)
      ∧ ∀ stop, dense name value = .error stop →
        stop = .failed (.ragged name) ∨ stop = .failed (.notNumeric name) := by
  have huniform := Json.Value.dense_eq_uniform_iff hroom
  have hexplicit := Json.Value.dense_eq_explicit_iff hroom
  have herror := Json.Value.dense_eq_error_iff hroom
  have hanswered : value.dense ≠ .error .capacityOverflow := fun h =>
    hroom (Json.Value.dense_eq_capacityOverflow_iff.mp h)
  have harray : ∀ entries, value.collect value.outline = .ok entries →
      ∃ tensor, Tensor.ofEntries? value.outline entries = some tensor := by
    intro entries h
    obtain ⟨tensor, htensor, -, -⟩ := Json.Value.exists_ofEntries? h
    exact ⟨tensor, htensor⟩
  simp only [← huniform, ← hexplicit, ← herror]
  unfold dense
  cases hdense : value.dense with
  | ok values => simpa using harray
  | error fault =>
    cases fault with
    | capacityOverflow => exact absurd hdense hanswered
    | _ => simpa using harray

/-- A rectangle with an empty axis, and an array that is too short before there is a null. -/
theorem Document.dense_accepts_rectangles_empty_axis :
    let empty : Json.Value := .array [.array [], .array []]
    let ragged : Json.Value :=
      .array [.array [.number (.ofInt 1), .number .negZero], .array [.number .zero], .null]
    Document.dense "x" empty = .ok (.explicit (Tensor.zeros [2, 0]))
      ∧ Document.dense "x" ragged = .error (.failed (.ragged "x")) := by
  intro empty ragged
  have hempty : ¬ empty.Oversized := Nat.not_lt.mpr (by decide)
  have hragged : ¬ ragged.Oversized := Nat.not_lt.mpr (by decide)
  constructor
  · obtain ⟨-, hexplicit, -⟩ := dense_accepts_rectangles "x" hempty
    have hrectangular : empty.Rectangular [2, 0, 5] := by
      simp [empty, Json.Value.rectangular_cons_iff]
    exact (hexplicit _).mpr ⟨[2, 0, 5], .zeros [2, 0], rfl, by decide, hrectangular, rfl, rfl⟩
  · obtain ⟨-, -, -, hfault, -⟩ := dense_accepts_rectangles "x" hragged
    exact hfault.mpr (Json.Value.collect_eq_error_iff.mp (by decide))

/-! ## Without room -/

/-- Pairs in one another: each is the first element of the next. -/
def Json.Value.nestedPairs : (levels : Nat) → Json.Value
  | 0 => .number (.ofInt 1)
  | levels + 1 => .array [nestedPairs levels, .number .zero]

/-- The first misfit in sixty-one pairs is the zero of the second innermost, but it is not
reported. -/
theorem Document.dense_nestedPairs :
    FirstRefused (Json.Value.Misfits (Json.Value.nestedPairs 61).outline)
        (Json.Value.nestedPairs 61).nodes .ragged
      ∧ Document.dense "x" (Json.Value.nestedPairs 61) = .error .capacityOverflow := by
  refine ⟨Json.Value.collect_eq_error_iff.mp ?_, ?_⟩
  · decide +kernel
  · decide +kernel

end LinearModel
