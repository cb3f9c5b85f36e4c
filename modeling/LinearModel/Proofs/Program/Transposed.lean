import LinearModel.Proofs.Layout.Admission
import LinearModel.Proofs.Program.Meaning
import LinearModel.Proofs.Program.Overwriting
import LinearModel.Proofs.Tensor.Strided

/-!
# Transposed arrays in a program

An array with its axes reversed can be given wherever an array can: for a row, for the objective,
or as a bound. Its numbers lie in memory as they did before, but what counts are its elements by
their index vectors. So it fits a block whose shape is the reversed one, and the element of the
block at an index vector gets the element of the original array at the reversed vector.

* `ReversedAt` — from an offset on, a vector has the elements of an array at the reversed vectors
* `Program.part_of_last`, `Layout.exists_bounded` — what a block has in a row, in an objective and
  among the bounds
* `Program.transposed_in_order` — all of it for a reachable program
-/

namespace LinearModel

open Program

/-- From the offset on, the vector has for each index vector of the shape the element of the array
at the reversed index vector, with the stand-in in the place of an infinity. -/
def ReversedAt (array : Strided) (shape : Shape) (offset : Nat) (bigM : Binary64)
    (flat : List Binary64) : Prop :=
  ∀ index, shape.inRange index = true → ∃ x, array.get? index.reverse = some x
    ∧ flat[offset + shape.position index]? = some (x.capInfinity bigM)

/-- The elements that are read of the array with its axes reversed are those at the reversed
vectors. -/
theorem reversedAt_of_getElem? {array : Strided} {shape : Shape} {offset : Nat} {bigM : Binary64}
    {flat : List Binary64} (hshape : shape = array.shape.reverse)
    (hflat : ∀ index, shape.inRange index = true → flat[offset + shape.position index]?
      = (array.reverseAxes.inOrder.get? index).map (·.capInfinity bigM)) :
    ReversedAt array shape offset bigM flat := by
  intro index hindex
  have hreversed : array.shape.inRange index.reverse = true :=
    Shape.inRange_reverse.mp (hshape ▸ hindex)
  obtain ⟨x, hx⟩ := Strided.exists_get? hreversed
  refine ⟨x, hx, ?_⟩
  rw [hflat index hindex, Strided.get?_inOrder, Strided.get?_reverseAxes, hx]
  rfl

/-! ## Rows and objectives -/

section Rows

variable {layout : Layout} {block : Placed}

theorem Layout.takes_explicit_iff (hwf : layout.WellFormed) (hblock : block ∈ layout.blocks)
    {array : Strided} :
    layout.Takes (block.name, .explicit array) ↔ array.shape = block.shape := by
  constructor
  · rintro ⟨other, hother, hname, hmatches⟩
    obtain rfl : other = block := hwf.eq_of_name_eq hother hblock hname
    exact hmatches
  · exact fun hshape => ⟨block, hblock, rfl, hshape⟩

/-- The part of a block consists of the elements of the last array that is given for it. -/
theorem Program.part_of_last (hwf : layout.WellFormed) {arrays : List (String × Dense)}
    (hblock : block ∈ layout.blocks) {entry : String × Dense}
    (hlast : LastOf (fun other => other.1 = block.name) arrays entry)
    (hmatches : entry.2.Matches block.shape) (bigM : Binary64) :
    block.part ((assembled layout (rewritten arrays)).flatten bigM)
      = (entry.2.elements block.shape).map (·.capInfinity bigM) := by
  rw [part_flatten hwf (fun _ _ => shape_rewritten) hblock,
    entries_rewritten_of_last hlast hmatches]

theorem Program.reversedAt_of_last (hwf : layout.WellFormed) {arrays : List (String × Dense)}
    (hblock : block ∈ layout.blocks) {array : Strided} (hshape : block.shape = array.shape.reverse)
    (hlast : LastOf (fun other => other.1 = block.name) arrays
      (block.name, .explicit array.reverseAxes)) (bigM : Binary64) :
    ReversedAt array block.shape block.offset bigM
      ((assembled layout (rewritten arrays)).flatten bigM) := by
  refine reversedAt_of_getElem? hshape fun index hindex => ?_
  have hlt : block.shape.position index < block.length := Shape.position_lt hindex
  have hsame : array.reverseAxes.inOrder.shape = block.shape := hshape.symm
  rw [← Placed.getElem?_part hlt, part_of_last hwf hblock hlast hsame, List.getElem?_map,
    Grid.get?_of_inRange (hsame ▸ hindex), hsame]
  rfl

end Rows

/-! ## Bounds -/

/-- One of the two bounds. -/
inductive BoundSide where
  | lower
  | upper

namespace BoundSide

/-- The block with this bound instead of its own. -/
def replace (side : BoundSide) (bound : Dense) (block : Block) : Block :=
  match side with
  | lower => { block with lower := bound }
  | upper => { block with upper := bound }

/-- This bound of a block in its place. -/
def bound (side : BoundSide) (block : Placed) : Tensor :=
  match side with
  | lower => block.lower
  | upper => block.upper

/-- These bounds of all variables. -/
def bounds (side : BoundSide) (layout : Layout) (bigM : Binary64) : List Binary64 :=
  match side with
  | lower => layout.lowerBounds bigM
  | upper => layout.upperBounds bigM

theorem getElem?_bounds (side : BoundSide) {layout : Layout} (hwf : layout.WellFormed)
    (bigM : Binary64) {block : Placed} (hblock : block ∈ layout.blocks) {index : List Nat}
    (hindex : block.shape.inRange index = true) :
    (side.bounds layout bigM)[block.offset + block.shape.position index]?
      = ((side.bound block).get? index).map (·.capInfinity bigM) := by
  cases side with
  | lower =>
    exact hwf.getElem?_bounds (fun other hother => (hwf.blocks other hother).lower_shape) bigM
      hblock hindex
  | upper =>
    exact hwf.getElem?_bounds (fun other hother => (hwf.blocks other hother).upper_shape) bigM
      hblock hindex

end BoundSide

namespace Layout

variable {layout : Layout} {name : String} {block : Block}

/-- An array as a bound has to have the shape of the block, and nothing else about it counts. -/
theorem admits_replace_iff (side : BoundSide) {array : Strided} :
    layout.Admits name (side.replace (.explicit array) block)
      ↔ array.shape = block.shape ∧ layout.Admits name (side.replace (.uniform .zero) block) := by
  cases side with
  | lower =>
    constructor
    · rintro ⟨hname, hnil, hone, hprod, htotal, hlower, hupper⟩
      exact ⟨hlower, hname, hnil, hone, hprod, htotal, trivial, hupper⟩
    · rintro ⟨hshape, hname, hnil, hone, hprod, htotal, -, hupper⟩
      exact ⟨hname, hnil, hone, hprod, htotal, hshape, hupper⟩
  | upper =>
    constructor
    · rintro ⟨hname, hnil, hone, hprod, htotal, hlower, hupper⟩
      exact ⟨hupper, hname, hnil, hone, hprod, htotal, hlower, trivial⟩
    · rintro ⟨hshape, hname, hnil, hone, hprod, htotal, hlower, -⟩
      exact ⟨hname, hnil, hone, hprod, htotal, hlower, hshape⟩

theorem eq_of_fitBound_explicit {shape : Shape} {array : Strided} {bound : Tensor}
    (h : fitBound shape (.explicit array) = .ok bound) : bound = array.inOrder := by
  unfold fitBound Dense.fit at h
  by_cases hshape : array.shape = shape
  · simpa [hshape, eq_comm] using h
  · simp [hshape] at h

/-- A block that is placed with an array as a bound has the elements of the array as that bound,
whatever is placed behind it. -/
theorem exists_bounded (side : BoundSide) {attempts later : List (String × Block)} {next : Layout}
    {array : Strided}
    (h : (ofAttempts attempts).place name (side.replace (.explicit array) block) = .ok next) :
    ∃ placed ∈ (ofAttempts
        (attempts ++ (name, side.replace (.explicit array) block) :: later)).blocks,
      placed.name = name ∧ placed.shape = block.shape
        ∧ placed.offset = (ofAttempts attempts).dimension ∧ side.bound placed = array.inOrder := by
  obtain ⟨placed, hname, hshape, -, hoffset, hlower, hupper, -, -, -, hnext⟩ :=
    place?_ok_cases (place_eq_ok_iff.mp h)
  have hmem : placed ∈ next.blocks := by simp [hnext]
  rw [← ofAttempts_concat_of_ok h] at hmem
  rw [List.append_cons]
  refine ⟨placed, (blocks_isPrefix_ofAttempts _ later).subset hmem, hname, ?_, hoffset, ?_⟩
  · cases side <;> exact hshape
  · cases side with
    | lower => exact eq_of_fitBound_explicit hlower
    | upper => exact eq_of_fitBound_explicit hupper

end Layout

/-! ## Whole programs -/

/-- **A transposed array is read by its index vectors.** With its axes reversed, an array can be
given for a block of a reachable program, beside arrays that can be given, exactly if the shape of
the block is the reversed one. Unless another array is given for the block behind it, the row and
the objective have in the place of each index vector the element of the original array at the
reversed vector, which for an array in row-major order is the one with the number of that vector.
With its axes reversed twice the array is given as if they had not been. A block that is fine with
one number as a bound can have the transposed array as that bound exactly if its shape is the
reversed one, and the bounds of all variables then have these elements too, whatever is placed
later. -/
theorem Program.transposed_in_order {program : Program} (hreach : program.Reachable)
    {block : Placed} (hblock : block ∈ program.layout.blocks) (config : Configuration)
    (array : Strided) (before after : List (String × Dense)) (sense : Sense) (rhs : Binary64)
    (relation : Relation) :
    let given (held : Strided) := before ++ (block.name, .explicit held) :: after
    let row (held : Strided) := addArrays config (given held) rhs relation program
    let objective (held : Strided) := setObjective config (given held) sense program
    let fits := (∀ entry ∈ before ++ after, program.layout.Takes entry)
      ∧ block.shape = array.shape.reverse
    ((row array.reverseAxes).1 = .ok () ↔ fits)
    ∧ ((objective array.reverseAxes).1 = .ok () ↔ fits)
    ∧ (fits → (∀ entry ∈ after, entry.1 ≠ block.name) → ∃ coefficients,
      (row array.reverseAxes).2
          = { program with rows := program.rows ++ [⟨coefficients, relation, rhs⟩] }
        ∧ (objective array.reverseAxes).2
          = { program with objective := some ⟨coefficients, sense⟩ }
        ∧ ReversedAt array block.shape block.offset config.bigM coefficients)
    ∧ (∀ t : Tensor, array = t → ∀ index, t.shape.inRange index = true →
      array.get? index = t.entries[t.shape.position index]?)
    ∧ (row array.reverseAxes.reverseAxes = row array
      ∧ objective array.reverseAxes.reverseAxes = objective array)
    ∧ ∀ (attempts later : List (String × Block)) (name : String) (declared : Block)
        (side : BoundSide),
      let layout := Layout.ofAttempts attempts
      let bounded (held : Strided) := side.replace (.explicit held) declared
      ((∃ next, layout.place name (bounded array.reverseAxes) = .ok next)
        ↔ declared.shape = array.shape.reverse
          ∧ ∃ next, layout.place name (side.replace (.uniform .zero) declared) = .ok next)
      ∧ (∀ next, layout.place name (bounded array.reverseAxes) = .ok next → ∀ bigM,
        let reached := Layout.ofAttempts (attempts ++ (name, bounded array.reverseAxes) :: later)
        ∃ placed ∈ reached.blocks, placed.name = name ∧ placed.shape = declared.shape
          ∧ ReversedAt array placed.shape placed.offset bigM (side.bounds reached bigM))
      ∧ layout.place name (bounded array.reverseAxes.reverseAxes)
        = layout.place name (bounded array) := by
  intro given row objective fits
  have hsound := hreach.sound
  have htakes : (∀ entry ∈ given array.reverseAxes, program.layout.Takes entry) ↔ fits := by
    show (∀ entry ∈ before ++ _ :: after, _) ↔ (∀ entry ∈ before ++ after, _) ∧ _
    rw [List.forall_mem_append, List.forall_mem_cons, List.forall_mem_append,
      Layout.takes_explicit_iff hsound.layout hblock, eq_comm (a := block.shape)]
    exact and_left_comm.trans and_comm
  have hrow : (row array.reverseAxes).1 = .ok () ↔ fits :=
    ((Writing.answer_eq_ok_iff hsound config (.arrays (given array.reverseAxes) rhs relation)).trans
      List.forall_mem_map).trans htakes
  have hobjective : (objective array.reverseAxes).1 = (row array.reverseAxes).1 :=
    setObjective_answer hsound config sense rhs relation
  refine ⟨hrow, ?_, ?_, ?_, ?_, ?_⟩
  · rw [hobjective, hrow]
  · intro hfits hafter
    have harrays := htakes.mpr hfits
    exact ⟨_, congrArg Prod.snd (addArrays_eq_ok hsound config harrays rhs relation),
      congrArg Prod.snd (setObjective_eq_ok hsound config harrays sense),
      reversedAt_of_last hsound.layout hblock hfits.2 ⟨before, after, rfl, rfl, hafter⟩ _⟩
  · rintro t rfl index hindex
    rw [Strided.get?_ofTensor, Grid.get?_of_inRange hindex]
  · rw [Strided.reverseAxes_reverseAxes]
    exact ⟨rfl, rfl⟩
  · intro attempts later name declared side layout bounded
    have hadmits : (∃ next, layout.place name (bounded array.reverseAxes) = .ok next)
        ↔ declared.shape = array.shape.reverse
          ∧ ∃ next, layout.place name (side.replace (.uniform .zero) declared) = .ok next := by
      rw [Layout.exists_place_iff, Layout.exists_place_iff, Layout.admits_replace_iff,
        eq_comm (a := declared.shape)]
      rfl
    refine ⟨hadmits, ?_, ?_⟩
    · intro next hnext bigM reached
      obtain ⟨placed, hplaced, hname, hshape, -, hbound⟩ := Layout.exists_bounded side hnext
      have hreversed : placed.shape = array.shape.reverse :=
        hshape.trans (hadmits.mp ⟨next, hnext⟩).1
      refine ⟨placed, hplaced, hname, hshape, reversedAt_of_getElem? hreversed ?_⟩
      intro index hindex
      rw [side.getElem?_bounds (Layout.wellFormed_ofAttempts _) bigM hplaced hindex, hbound]
    · show layout.place name (side.replace (.explicit array.reverseAxes.reverseAxes) declared) = _
      rw [Strided.reverseAxes_reverseAxes]

/-- Two rows of three become three rows of two, for a block behind another one. The second and the
third element of the first row get to the front of the second and the third row, although the
numbers lie in memory as before. -/
theorem Program.transposed_in_order_two_rows :
    let t : Tensor := ⟨[2, 3], [.ofInt 1, .ofInt 2, .infinity false, .ofInt 4, .ofInt 5, .ofInt 6],
      rfl⟩
    let array := Strided.ofTensor t
    let program := ofLayout (.ofAttempts [("y", .scalar {}), ("x", .ofShape {} [3, 2])])
    let arrays := [("x", .uniform .negZero), ("x", .explicit array.reverseAxes),
      ("y", .uniform .zero)]
    array.reverseAxes.memory = t.entries ∧ program.Reachable
      ∧ (∃ x ∈ program.layout.blocks, x.name = "x")
      ∧ ∃ coefficients, (addArrays {} arrays .zero .le program).2
          = { program with rows := program.rows ++ [⟨coefficients, .le, .zero⟩] }
        ∧ (setObjective {} arrays .minimize program).2
          = { program with objective := some ⟨coefficients, .minimize⟩ }
        ∧ coefficients[1 + 2]? = some (.ofInt 2) ∧ coefficients[1 + 4]? = some (.ofInt 100000) := by
  intro t array program arrays
  have hreach : program.Reachable := ⟨_, {}, [], rfl⟩
  obtain ⟨x, hx, hname, hshape, hoffset⟩ : ∃ x ∈ program.layout.blocks, x.name = "x"
      ∧ x.shape = [3, 2] ∧ x.offset = 1 := by decide +kernel
  obtain ⟨hanswer, -, hwritten, -, -, -⟩ := transposed_in_order hreach hx {} array
    [("x", .uniform .negZero)] [("y", .uniform .zero)] .minimize .zero .le
  rw [hname] at hanswer hwritten
  have hok : (addArrays {} arrays .zero .le program).1 = .ok () := by decide +kernel
  obtain ⟨coefficients, hrow, hobjective, helements⟩ := hwritten (hanswer.mp hok) (by simp)
  obtain ⟨two, htwo, hsecond⟩ := helements [1, 0] (by rw [hshape]; decide)
  obtain ⟨infinity, hinfinity, hthird⟩ := helements [2, 0] (by rw [hshape]; decide)
  rw [hoffset, hshape, ← Option.some.inj htwo] at hsecond
  rw [hoffset, hshape, ← Option.some.inj hinfinity] at hthird
  have hkept : (Binary64.ofInt 2).capInfinity ({} : Configuration).bigM = .ofInt 2 := by
    decide +kernel
  have hcapped : (Binary64.infinity false).capInfinity ({} : Configuration).bigM
      = .ofInt 100000 := by decide +kernel
  exact ⟨rfl, hreach, ⟨x, hx, hname⟩, coefficients, hrow, hobjective,
    hsecond.trans (congrArg some hkept), hthird.trans (congrArg some hcapped)⟩

end LinearModel
