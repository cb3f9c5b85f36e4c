import LinearModel.Proofs.Draft.FlatRow
import LinearModel.Proofs.Program.Refusal
import LinearModel.Proofs.Program.Styles

/-!
# The last value counts

A call may give a coefficient more than once: the same cell in two ways, or the same block with two
arrays. What is recorded is the last value, with the stand-in in the place of an infinity, and zero
where there is none. So a call can be read off coefficient by coefficient, and only the order of
what goes to one place matters.

* `Program.itemized_row` — a row that is given by single coefficients
* `Program.row_and_objective_agree` — a row and an objective that are given by the same arrays

A draft that is put together block by block is flattened block by block (`part_flatten`), so both
results come down to what one array holds (`getElem?_overlay`, `entries_rewritten_of_last`).
-/

namespace LinearModel

open Program

/-! ## The last of a list -/

/-- Of the elements of the list that have the property, `x` is the last. -/
def LastOf {α : Type} (P : α → Prop) (xs : List α) (x : α) : Prop :=
  ∃ before after, xs = before ++ x :: after ∧ P x ∧ ∀ y ∈ after, ¬ P y

theorem LastOf.exists_filter_eq {α : Type} {P : α → Prop} [DecidablePred P] {xs : List α} {x : α}
    (h : LastOf P xs x) : ∃ front, xs.filter (fun y => P y) = front ++ [x] := by
  obtain ⟨before, after, rfl, hx, hafter⟩ := h
  have hnone : after.filter (fun y => P y) = [] := by simpa using hafter
  refine ⟨before.filter fun y => P y, ?_⟩
  rw [List.filter_append, List.filter_cons_of_pos (by simpa using hx), hnone]

/-! ## A draft block by block -/

variable {layout : Layout} {block : Placed}

/-- The draft with the array of each block that a function gives. -/
def assembled (layout : Layout) (array : Placed → Tensor) : Draft :=
  ⟨layout.blocks.map fun block => (block.name, array block)⟩

theorem fits_assembled {array : Placed → Tensor}
    (hshape : ∀ block ∈ layout.blocks, (array block).shape = block.shape) :
    (assembled layout array).Fits layout := by
  unfold Draft.Fits assembled Named.shapes Layout.shapes
  rw [List.map_map]
  refine List.map_congr_left fun block hblock => ?_
  show (block.name, (array block).shape) = _
  rw [hshape block hblock]

/-- **A block has the elements of its array**, as they are recorded. -/
theorem part_flatten (hwf : layout.WellFormed) {array : Placed → Tensor}
    (hshape : ∀ block ∈ layout.blocks, (array block).shape = block.shape)
    (hblock : block ∈ layout.blocks) (bigM : Binary64) :
    block.part ((assembled layout array).flatten bigM)
      = (array block).entries.map (·.capInfinity bigM) := by
  have hfits : (assembled layout array).Fits layout := fits_assembled hshape
  have hmem : (block.name, array block) ∈ (assembled layout array).arrays :=
    List.mem_map.mpr ⟨block, hblock, rfl⟩
  exact hfits.part_flatten hwf hblock
    (Named.get?_of_mem (hfits.names_eq ▸ hwf.names_nodup) hmem) bigM

theorem length_flatten_assembled (hwf : layout.WellFormed) {array : Placed → Tensor}
    (hshape : ∀ block ∈ layout.blocks, (array block).shape = block.shape) (bigM : Binary64) :
    ((assembled layout array).flatten bigM).length = layout.dimension :=
  (fits_assembled hshape).length_flatten hwf bigM

/-! ## Single coefficients -/

section

variable {items : List Item}

/-- The coefficient is the one for this element of the block. -/
def Item.Addresses (block : Placed) (number : Nat) (item : Item) : Prop :=
  item.name = block.name ∧ item.cell.Within block.shape ∧ item.cell.number block.shape = number

instance (block : Placed) (number : Nat) : DecidablePred (Item.Addresses block number) :=
  fun item => inferInstanceAs (Decidable (item.name = block.name ∧ _ ∧ _))

theorem lastValue?_itemsOf (hwf : layout.WellFormed)
    (hitems : ∀ item ∈ items, item.Within layout) (hblock : block ∈ layout.blocks) (number : Nat) :
    lastValue? (itemsOf block items) block.shape number
      = (items.filter fun item => item.Addresses block number).getLast?.map Item.value := by
  have hsame : (itemsOf block items).filter (fun item => item.cell.number block.shape = number)
      = items.filter fun item => item.Addresses block number := by
    rw [itemsOf, List.filter_filter]
    refine List.filter_congr fun item hitem => ?_
    obtain ⟨other, hother, hname, hcell⟩ := hitems item hitem
    rw [← Bool.decide_and]
    refine decide_eq_decide.mpr ⟨?_, fun h => ⟨h.2.2, h.1⟩⟩
    rintro ⟨hnumber, hitemname⟩
    -- the block that has the cell is the one of this name
    have hsame : other = block := hwf.eq_of_name_eq hother hblock (hname.trans hitemname)
    exact ⟨hitemname, hsame ▸ hcell, hnumber⟩
  rw [lastValue?, hsame]

theorem getElem?_overlay {number : Nat} (hnumber : number < block.shape.size) :
    (overlay items block).entries[number]?
      = some ((lastValue? (itemsOf block items) block.shape number).getD .zero) := by
  simp [overlay, hnumber]

/-- The coefficient of an element is the last value that is given for it, or zero. -/
theorem getElem?_flatten_overlaid (hwf : layout.WellFormed)
    (hitems : ∀ item ∈ items, item.Within layout) (hblock : block ∈ layout.blocks) {number : Nat}
    (hnumber : number < block.length) (bigM : Binary64) :
    ((overlaid layout items).flatten bigM)[block.offset + number]?
      = some ((((items.filter fun item => item.Addresses block number).getLast?.map
        Item.value).getD .zero).capInfinity bigM) := by
  rw [← Placed.getElem?_part hnumber, ← lastValue?_itemsOf hwf hitems hblock]
  show (block.part ((assembled layout (overlay items)).flatten bigM))[number]? = _
  rw [part_flatten hwf (fun _ _ => rfl) hblock, List.getElem?_map, getElem?_overlay hnumber]
  rfl

/-- Coefficients in another order write the same, if those for each element keep theirs. -/
theorem overlaid_congr (hwf : layout.WellFormed) {others : List Item}
    (hitems : ∀ item ∈ items, item.Within layout) (hothers : ∀ item ∈ others, item.Within layout)
    (hsame : ∀ block ∈ layout.blocks, ∀ number < block.length,
      (others.filter fun item => item.Addresses block number)
        = items.filter fun item => item.Addresses block number) :
    overlaid layout others = overlaid layout items := by
  refine congrArg Draft.mk (List.map_congr_left fun block hblock => ?_)
  have hentries : (overlay others block).entries = (overlay items block).entries := by
    refine List.map_congr_left fun number hnumber => ?_
    rw [lastValue?_itemsOf hwf hothers hblock, lastValue?_itemsOf hwf hitems hblock,
      hsame block hblock number (List.mem_range.mp hnumber)]
  have harray : overlay others block = overlay items block := Grid.ext rfl hentries
  rw [harray]

theorem Program.addItems_eq_ok {program : Program} (hsound : program.Sound)
    (config : Configuration) (hitems : ∀ item ∈ items, item.Within program.layout)
    (rhs : Binary64) (relation : Relation) :
    addItems config items rhs relation program = (.ok (), { program with
      rows := program.rows
        ++ [⟨(overlaid program.layout items).flatten config.bigM, relation, rhs⟩] }) :=
  Writing.perform_row hsound.idle config (.items items rhs relation) rfl
    (writeItems_blank hsound.layout hitems)

end

/-- **A row of single coefficients.** It can be written exactly if every coefficient goes into a
cell of a block. Then there is one more row at the end, which has for each element of each block the
last value that is given for it, and zero if there is none. The coefficients may come in any other
order in which those for one element follow each other as before. -/
theorem Program.itemized_row {program : Program} (hreach : program.Reachable)
    (config : Configuration) (items : List Item) (rhs : Binary64) (relation : Relation) :
    let answer := (addItems config items rhs relation program).1
    let after := (addItems config items rhs relation program).2
    (answer = .ok () ↔ ∀ item ∈ items, item.Within program.layout)
      ∧ (answer = .ok () → ∃ coefficients,
        after = { program with rows := program.rows ++ [⟨coefficients, relation, rhs⟩] }
          ∧ coefficients.length = program.layout.dimension
          ∧ ∀ block ∈ program.layout.blocks, ∀ number < block.length,
            (∀ item, LastOf (Item.Addresses block number) items item →
              coefficients[block.offset + number]? = some (item.value.capInfinity config.bigM))
            ∧ ((∀ item ∈ items, ¬ item.Addresses block number) →
              coefficients[block.offset + number]? = some .zero))
      ∧ ∀ others : List Item, others.Perm items →
        (∀ block ∈ program.layout.blocks, ∀ number < block.length,
          (others.filter fun item => item.Addresses block number)
            = items.filter fun item => item.Addresses block number) →
        answer = .ok () → addItems config others rhs relation program = (.ok (), after) := by
  intro answer after
  have hsound := hreach.sound
  have hok : answer = .ok () ↔ ∀ item ∈ items, item.Within program.layout :=
    (Writing.answer_eq_ok_iff hsound config (.items items rhs relation)).trans List.forall_mem_map
  refine ⟨hok, fun hanswer => ?_, fun others hperm hsame hanswer => ?_⟩
  · have hitems := hok.mp hanswer
    refine ⟨_, congrArg Prod.snd (addItems_eq_ok hsound config hitems rhs relation),
      length_flatten_assembled hsound.layout (fun _ _ => rfl) config.bigM, ?_⟩
    intro block hblock number hnumber
    rw [getElem?_flatten_overlaid hsound.layout hitems hblock hnumber]
    refine ⟨fun item hlast => ?_, fun hnone => ?_⟩
    · obtain ⟨front, hfront⟩ := hlast.exists_filter_eq
      rw [hfront, List.getLast?_concat]
      rfl
    · have hempty : (items.filter fun item => item.Addresses block number) = [] := by
        simpa using hnone
      rw [hempty]
      rfl
  · have hitems := hok.mp hanswer
    have hothers : ∀ item ∈ others, item.Within program.layout :=
      fun item h => hitems item (hperm.mem_iff.mp h)
    show _ = (Except.ok (), (addItems config items rhs relation program).2)
    rw [addItems_eq_ok hsound config hothers, addItems_eq_ok hsound config hitems,
      overlaid_congr hsound.layout hitems hothers hsame]

/-- One cell is addressed by its number and then by its indices, and the first row has been written
in the same way. -/
theorem Program.itemized_row_twice :
    let items : List Item :=
      [⟨"x", .flat 3, .ofInt 4⟩, ⟨"y", .first, .negZero⟩, ⟨"x", .multi [1, 1], .infinity true⟩]
    let others : List Item :=
      [⟨"y", .first, .negZero⟩, ⟨"x", .flat 3, .ofInt 4⟩, ⟨"x", .multi [1, 1], .infinity true⟩]
    let program := (run [.write (.items items .zero .ge)]
      ⟨.ofLayout (.ofAttempts [("x", .ofShape {} [2, 2]), ("y", .scalar {})]), {}⟩).program
    program.Reachable ∧ (addItems {} items .zero .le program).1 = .ok ()
      ∧ (∃ coefficients, (addItems {} items .zero .le program).2
          = { program with rows := program.rows ++ [⟨coefficients, .le, .zero⟩] }
        ∧ coefficients[3]? = some (.ofInt (-100000)) ∧ coefficients[0]? = some .zero)
      ∧ addItems {} others .zero .le program = addItems {} items .zero .le program := by
  intro items others program
  have hreach : program.Reachable := ⟨_, _, _, rfl⟩
  obtain ⟨hok, hrow, hreorder⟩ := itemized_row hreach {} items .zero .le
  have hanswer : (addItems {} items .zero .le program).1 = .ok () := hok.mpr (by decide +kernel)
  obtain ⟨coefficients, hafter, -, helements⟩ := hrow hanswer
  obtain ⟨x, hx, hoffset, hlength, hthird, hfirst⟩ : ∃ x ∈ program.layout.blocks, x.offset = 0
      ∧ x.length = 4 ∧ Item.Addresses x 3 ⟨"x", .multi [1, 1], .infinity true⟩
      ∧ ∀ item ∈ items, ¬ item.Addresses x 0 := by decide +kernel
  have hlast : LastOf (Item.Addresses x 3) items ⟨"x", .multi [1, 1], .infinity true⟩ :=
    ⟨items.take 2, [], rfl, hthird, by simp⟩
  have helement := (helements x hx 3 (by omega)).1 _ hlast
  have hzero := (helements x hx 0 (by omega)).2 hfirst
  have hcapped : (Binary64.infinity true).capInfinity ({} : Configuration).bigM
      = .ofInt (-100000) := by decide +kernel
  rw [hoffset, hcapped] at helement
  rw [hoffset] at hzero
  have hsame := hreorder others (by decide +kernel) (by decide +kernel) hanswer
  refine ⟨hreach, hanswer, ⟨coefficients, hafter, helement, hzero⟩, hsame.trans ?_⟩
  exact Prod.ext hanswer.symm rfl

/-! ## Whole arrays -/

/-- The values are for a block of the layout, and have its shape if they have one. -/
def Layout.Takes (layout : Layout) (entry : String × Dense) : Prop :=
  ∃ block ∈ layout.blocks, block.name = entry.1 ∧ entry.2.Matches block.shape

/-- The elements that the values stand for in an array of the shape, in row-major order. -/
def Dense.elements (shape : Shape) : Dense → List Binary64
  | .uniform value => List.replicate shape.size value
  | .explicit array => array.inOrder.entries

theorem Dense.Matches.entries_replace {values : Dense} {t : Tensor} (h : values.Matches t.shape) :
    ((Edit.replace values).apply t).entries = values.elements t.shape := by
  cases values with
  | uniform value => rfl
  | explicit array =>
    have hshape : array.shape = t.shape := h
    simp [Edit.replace, Dense.fit, hshape, Dense.elements]

/-- What a block holds after the arrays that are given for it, one after the other. -/
def rewritten (arrays : List (String × Dense)) (block : Placed) : Tensor :=
  (Edit.sequence ((arrays.filter fun entry => entry.1 = block.name).map fun entry =>
    .replace entry.2)).apply (.zeros block.shape)

variable {arrays : List (String × Dense)}

theorem shape_rewritten : (rewritten arrays block).shape = block.shape := Edit.shape_apply _ _

/-- The last array that is given for a block takes the place of those before it. -/
theorem entries_rewritten_of_last {entry : String × Dense}
    (hlast : LastOf (fun other => other.1 = block.name) arrays entry)
    (hmatches : entry.2.Matches block.shape) :
    (rewritten arrays block).entries = entry.2.elements block.shape := by
  obtain ⟨front, hfront⟩ := hlast.exists_filter_eq
  have hshape := Edit.shape_apply (.sequence (front.map fun other => .replace other.2))
    (.zeros block.shape)
  rw [Edit.apply_sequence] at hshape
  -- of what the arrays before have left only the shape is looked at
  rw [rewritten, hfront, List.map_append, Edit.apply_sequence, List.foldl_append]
  show ((Edit.replace entry.2).apply _).entries = _
  rw [Dense.Matches.entries_replace (hshape ▸ hmatches), hshape]
  rfl

theorem rewritten_of_not_mentioned (h : ∀ entry ∈ arrays, entry.1 ≠ block.name) :
    rewritten arrays block = .zeros block.shape := by
  have hnone : arrays.filter (fun entry => entry.1 = block.name) = [] := by simpa using h
  rw [rewritten, hnone]
  rfl

theorem writeArrays_rewritten (hwf : layout.WellFormed)
    (harrays : ∀ entry ∈ arrays, layout.Takes entry) :
    writeArrays arrays (.blank layout) = (.ok (), assembled layout (rewritten arrays)) := by
  rw [hwf.writeArrays_eq_writeEdits harrays (Draft.fits_blank layout)]
  refine writeEdits_blank_of_apply hwf (fun entry hentry => ?_) fun block _ => ?_
  · obtain ⟨given, hgiven, rfl⟩ := List.mem_map.mp hentry
    obtain ⟨block, hblock, hname, -⟩ := harrays given hgiven
    exact hname ▸ name_mem_names hblock
  · rw [rewritten, Draft.editsFor, List.filter_map, List.map_map]
    rfl

theorem rewritten_congr {others : List (String × Dense)}
    (hsame : ∀ name, (others.filter fun entry => entry.1 = name)
      = arrays.filter fun entry => entry.1 = name) : rewritten others = rewritten arrays := by
  funext block
  rw [rewritten, rewritten, hsame]

section

variable {program : Program} (hsound : program.Sound) (config : Configuration)

include hsound

theorem Program.addArrays_eq_ok (harrays : ∀ entry ∈ arrays, program.layout.Takes entry)
    (rhs : Binary64) (relation : Relation) :
    addArrays config arrays rhs relation program = (.ok (), { program with
      rows := program.rows ++ [⟨(assembled program.layout (rewritten arrays)).flatten config.bigM,
        relation, rhs⟩] }) :=
  Writing.perform_row hsound.idle config (.arrays arrays rhs relation) rfl
    (writeArrays_rewritten hsound.layout harrays)

theorem Program.setObjective_eq_ok (harrays : ∀ entry ∈ arrays, program.layout.Takes entry)
    (sense : Sense) :
    setObjective config arrays sense program = (.ok (), { program with
      objective := some
        ⟨(assembled program.layout (rewritten arrays)).flatten config.bigM, sense⟩ }) := by
  have hperform := (Writing.objective arrays sense).perform_of_idle hsound.idle config
  have hwrite : (Writing.objective arrays sense).write (.blank program.layout) = (.ok (), _) :=
    writeArrays_rewritten hsound.layout harrays
  rw [Writing.coefficients, Writing.drafted_eq_ok hwrite] at hperform
  refine hperform.trans ?_
  simp [Except.map, Writing.finish, Writing.record, Writing.row?, Writing.objective?, Writing.side?,
    Writing.sense?]

/-- Whether arrays can be written does not depend on what is made of them. -/
theorem Program.setObjective_answer (sense : Sense) (rhs : Binary64) (relation : Relation) :
    (setObjective config arrays sense program).1
      = (addArrays config arrays rhs relation program).1 := by
  have hobjective := (Writing.objective arrays sense).perform_of_idle hsound.idle config
  have hrow := (Writing.arrays arrays rhs relation).perform_of_idle hsound.idle config
  have hcoefficients : (Writing.objective arrays sense).coefficients program.layout config.bigM
      = (Writing.arrays arrays rhs relation).coefficients program.layout config.bigM := rfl
  show ((Writing.objective arrays sense).perform config program).1
    = ((Writing.arrays arrays rhs relation).perform config program).1
  rw [hobjective, hrow, hcoefficients]
  cases (Writing.arrays arrays rhs relation).coefficients program.layout config.bigM <;> rfl

end

/-- **A row and an objective of the same arrays.** The one can be written exactly if the other can,
and otherwise both fail with the same error. Both have the same coefficients: those of a block are
the elements of the last array that is given for it, or zeros if none is. The arrays may come in any
other order in which those for one block follow each other as before. -/
theorem Program.row_and_objective_agree {program : Program} (hreach : program.Reachable)
    (config : Configuration) (arrays : List (String × Dense)) (sense : Sense) (rhs : Binary64)
    (relation : Relation) :
    let objective := setObjective config arrays sense program
    let row := addArrays config arrays rhs relation program
    objective.1 = row.1
      ∧ (row.1 = .ok () ↔ ∀ entry ∈ arrays, program.layout.Takes entry)
      ∧ (row.1 = .ok () → ∃ coefficients,
        objective.2 = { program with objective := some ⟨coefficients, sense⟩ }
          ∧ row.2 = { program with rows := program.rows ++ [⟨coefficients, relation, rhs⟩] }
          ∧ coefficients.length = program.layout.dimension
          ∧ ∀ block ∈ program.layout.blocks,
            (∀ entry, LastOf (fun other => other.1 = block.name) arrays entry →
              block.part coefficients
                = (entry.2.elements block.shape).map (·.capInfinity config.bigM))
            ∧ ((∀ entry ∈ arrays, entry.1 ≠ block.name) →
              block.part coefficients = List.replicate block.length .zero))
      ∧ ∀ others : List (String × Dense),
        (∀ name, (others.filter fun entry => entry.1 = name)
          = arrays.filter fun entry => entry.1 = name) →
        row.1 = .ok () →
          setObjective config others sense program = objective
            ∧ addArrays config others rhs relation program = row := by
  intro objective row
  have hsound := hreach.sound
  have hok : row.1 = .ok () ↔ ∀ entry ∈ arrays, program.layout.Takes entry :=
    (Writing.answer_eq_ok_iff hsound config (.arrays arrays rhs relation)).trans List.forall_mem_map
  refine ⟨setObjective_answer hsound config sense rhs relation, hok, fun hanswer => ?_,
    fun others hsame hanswer => ?_⟩
  · have harrays := hok.mp hanswer
    refine ⟨_, congrArg Prod.snd (setObjective_eq_ok hsound config harrays sense),
      congrArg Prod.snd (addArrays_eq_ok hsound config harrays rhs relation),
      length_flatten_assembled hsound.layout (fun _ _ => shape_rewritten) config.bigM,
      fun block hblock => ?_⟩
    rw [part_flatten hsound.layout (fun _ _ => shape_rewritten) hblock]
    refine ⟨fun entry hlast => ?_, fun hnone => ?_⟩
    · obtain ⟨before, after, hsplit, hname, -⟩ := id hlast
      obtain ⟨other, hother, hothername, hmatches⟩ := harrays entry (by simp [hsplit])
      have hsame : other = block :=
        hsound.layout.eq_of_name_eq hother hblock (hothername.trans hname)
      rw [entries_rewritten_of_last hlast (hsame ▸ hmatches)]
    · rw [rewritten_of_not_mentioned hnone, Tensor.zeros, Tensor.filled, List.map_replicate]
      rfl
  · have harrays := hok.mp hanswer
    have hothers : ∀ entry ∈ others, program.layout.Takes entry := by
      intro entry hentry
      -- an entry is among those of its own name
      have hmem : entry ∈ arrays.filter fun other => other.1 = entry.1 := by
        rw [← hsame entry.1]
        exact List.mem_filter.mpr ⟨hentry, decide_eq_true rfl⟩
      exact harrays entry (List.mem_of_mem_filter hmem)
    have hrewritten := rewritten_congr hsame
    refine ⟨?_, ?_⟩
    · show _ = setObjective config arrays sense program
      rw [setObjective_eq_ok hsound config hothers, setObjective_eq_ok hsound config harrays,
        hrewritten]
    · show _ = addArrays config arrays rhs relation program
      rw [addArrays_eq_ok hsound config hothers, addArrays_eq_ok hsound config harrays, hrewritten]

/-- The second array that is given for a block counts, where a third is not mentioned. -/
theorem Program.row_and_objective_agree_twice :
    let values := Dense.explicit (Tensor.ofList [.ofInt 5, .infinity true])
    let arrays := [("x", .uniform .negZero), ("y", .uniform (.infinity false)), ("x", values)]
    let others := [("y", .uniform (.infinity false)), ("x", .uniform .negZero), ("x", values)]
    let program := (run [.write (.objective arrays .minimize)] ⟨.ofLayout (.ofAttempts
      [("x", .ofShape {} [2]), ("y", .scalar {}), ("z", .ofShape {} [1, 2])]), {}⟩).program
    program.Reachable
      ∧ (setObjective {} arrays .maximize program).1 = (addArrays {} arrays .zero .le program).1
      ∧ (∃ coefficients, (setObjective {} arrays .maximize program).2
          = { program with objective := some ⟨coefficients, .maximize⟩ }
        ∧ ∀ x ∈ program.layout.blocks, x.name = "x" →
          x.part coefficients = [.ofInt 5, .ofInt (-100000)])
      ∧ setObjective {} others .maximize program = setObjective {} arrays .maximize program := by
  intro values arrays others program
  have hreach : program.Reachable := ⟨_, _, _, rfl⟩
  obtain ⟨hanswer, -, hwritten, hreorder⟩ :=
    row_and_objective_agree hreach {} arrays .maximize .zero .le
  have hok : (addArrays {} arrays .zero .le program).1 = .ok () := by decide +kernel
  obtain ⟨coefficients, hafter, -, -, hparts⟩ := hwritten hok
  refine ⟨hreach, hanswer, ⟨coefficients, hafter, fun x hx hname => ?_⟩, ?_⟩
  · have hlast : LastOf (fun entry => entry.1 = x.name) arrays ("x", values) :=
      ⟨arrays.take 2, [], rfl, hname.symm, by simp⟩
    have hcapped : ([.ofInt 5, .infinity true] : List Binary64).map
        (·.capInfinity ({} : Configuration).bigM) = [.ofInt 5, .ofInt (-100000)] := by
      decide +kernel
    exact ((hparts x hx).1 _ hlast).trans hcapped
  · refine (hreorder others (fun name => ?_) hok).1
    by_cases hx : "x" = name
    · subst hx
      rfl
    · simp [arrays, others, hx, List.filter_cons]

end LinearModel
