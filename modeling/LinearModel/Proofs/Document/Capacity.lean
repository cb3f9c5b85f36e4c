import LinearModel.Proofs.Document.Building
import Mathlib.Tactic.Ring

/-!
# Room for the numbers of a document

Before an array of numbers is read, room is made for as many as the lengths at its first elements
have for their product. Nothing has compared these lengths with the rest of the array, and so a
small text can ask for more room than there can be: each level of nesting multiplies what is asked
for and adds only a few characters. Then there is no answer, not even an error.

* `Json.Value.dense_eq_capacityOverflow_iff` — the values for which this happens
* `Json.Value.Oversized.lt_sum_outline`, `Json.Value.Oversized.lt_length_of_collect` — they are
  deeply nested or long, and unless they are enormous they are no arrays of numbers
* `Program.ofJson_answers_unless_oversized` — every other text is answered
* `Program.ofJson_pairsText` — a text of some hundred characters that is not
-/

namespace LinearModel

/-! ## Products of lengths -/

theorem pow_three_le (n : Nat) : n ^ 3 ≤ 3 ^ n := by
  rcases Nat.lt_or_ge n 3 with hsmall | hlarge
  · obtain rfl | rfl | rfl : n = 0 ∨ n = 1 ∨ n = 2 := by omega
    all_goals decide
  · induction n, hlarge using Nat.le_induction with
    | base => exact le_rfl
    | succ n hn ih =>
      have hsquare : 3 * n ^ 2 ≤ n ^ 3 := by
        rw [Nat.pow_succ' (n := 2)]
        exact Nat.mul_le_mul_right _ hn
      have hlinear : 3 * n ≤ n ^ 2 := by
        rw [Nat.pow_two]
        exact Nat.mul_le_mul_right _ hn
      calc (n + 1) ^ 3 = n ^ 3 + 3 * n ^ 2 + 3 * n + 1 := by ring
        _ ≤ 3 * n ^ 3 := by omega
        _ ≤ 3 * 3 ^ n := Nat.mul_le_mul_left 3 ih
        _ = 3 ^ (n + 1) := Nat.pow_succ'.symm

namespace Shape

/-- A product is largest for its sum where all factors are three. -/
theorem size_pow_three_le (s : Shape) : s.size ^ 3 ≤ 3 ^ s.sum := by
  induction s with
  | nil => decide
  | cons dim rest ih =>
    rw [size_cons, Nat.mul_pow, List.sum_cons, Nat.pow_add]
    exact Nat.mul_le_mul (pow_three_le dim) ih

/-- Lengths that add up to no more than 113 leave room for their product. -/
theorem size_le_elementLimit {s : Shape} (h : s.sum ≤ 113) : s.size ≤ elementLimit := by
  refine (Nat.pow_le_pow_iff_left (by decide : (3 : Nat) ≠ 0)).mp ?_
  calc s.size ^ 3 ≤ 3 ^ s.sum := size_pow_three_le s
    _ ≤ 3 ^ 113 := Nat.pow_le_pow_right (by decide) h
    _ ≤ elementLimit ^ 3 := by decide +kernel

end Shape

/-! ## Oversized values -/

namespace Json.Value

/-- The lengths at the first elements ask for more room than an array can have. -/
def Oversized (value : Value) : Prop := Shape.elementLimit < value.outline.wordSize

theorem collect_ne_capacityOverflow (shape : Shape) (value : Value) :
    value.collect shape ≠ .error .capacityOverflow := by
  induction shape generalizing value with
  | nil => cases value <;> nofun
  | cons dim rest ih =>
    cases value with
    | array items =>
      rw [collect]
      split
      · intro h
        cases hitems : items.mapM (collect rest) with
        | ok entries =>
          rw [hitems] at h
          cases h
        | error fault =>
          rw [hitems] at h
          obtain rfl : fault = .capacityOverflow := Except.error.inj h
          obtain ⟨_, item, _, -, -, hitem⟩ := mapM_eq_error_iff.mp hitems
          exact ih item hitem
      · nofun
    | _ => nofun

theorem not_oversized_of_outline {value : Value} (h : value.outline = []) : ¬ value.Oversized := by
  rw [Oversized, h]
  decide

/-- **There is no answer exactly for the oversized values.** -/
theorem dense_eq_capacityOverflow_iff {value : Value} :
    value.dense = .error .capacityOverflow ↔ value.Oversized := by
  cases value with
  | array items =>
    rw [dense, Oversized]
    split
    · next hlimit => exact iff_of_true rfl hlimit
    · next hlimit =>
      refine iff_of_false (fun h => ?_) hlimit
      split at h
      · next fault hcollect =>
        exact collect_ne_capacityOverflow _ _ (hcollect.trans (congrArg _ (Except.error.inj h)))
      · split at h <;> cases h
  | _ => exact iff_of_false nofun (not_oversized_of_outline rfl)

theorem length_flatten_of_mapM {f : Value → Except ArrayFault (List Binary64)} {n : Nat}
    {items : List Value} (hf : ∀ item ∈ items, ∀ entries, f item = .ok entries → entries.length = n)
    {lists : List (List Binary64)} (h : items.mapM f = .ok lists) :
    lists.flatten.length = items.length * n := by
  induction items generalizing lists with
  | nil =>
    obtain rfl : [] = lists := Except.ok.inj h
    simp
  | cons item items ih =>
    cases hitem : f item with
    | error fault =>
      rw [mapM_cons_error hitem] at h
      cases h
    | ok entries =>
      rw [mapM_cons_ok hitem] at h
      cases hrest : items.mapM f with
      | error fault =>
        rw [hrest] at h
        cases h
      | ok others =>
        rw [hrest] at h
        obtain rfl : entries :: others = lists := Except.ok.inj h
        rw [List.flatten_cons, List.length_append, hf item List.mem_cons_self entries hitem,
          ih (fun other hother => hf other (List.mem_cons_of_mem _ hother)) hrest, List.length_cons,
          Nat.succ_mul, Nat.add_comm]

theorem length_of_collect {shape : Shape} {value : Value} {entries : List Binary64}
    (h : value.collect shape = .ok entries) : entries.length = shape.size := by
  induction shape generalizing value entries with
  | nil =>
    cases value with
    | number x =>
      rw [← Except.ok.inj h]
      rfl
    | _ => cases h
  | cons dim rest ih =>
    cases value with
    | array items =>
      rw [collect] at h
      split at h
      · next hlength =>
        cases hitems : items.mapM (collect rest) with
        | error fault =>
          rw [hitems] at h
          cases h
        | ok lists =>
          rw [hitems] at h
          rw [← Except.ok.inj h, length_flatten_of_mapM (fun _ _ _ hitem => ih hitem) hitems,
            hlength, Shape.size_cons]
      · cases h
    | _ => cases h

namespace Oversized

variable {value : Value}

theorem lt_size (h : value.Oversized) : Shape.elementLimit < value.outline.size :=
  Nat.lt_of_lt_of_le h (Nat.mod_le _ _)

/-- An oversized value has many levels, or long ones. -/
theorem lt_sum_outline (h : value.Oversized) : 113 < value.outline.sum := by
  by_contra hsmall
  exact absurd h.lt_size (Nat.not_lt.mpr (Shape.size_le_elementLimit (Nat.not_lt.mp hsmall)))

/-- Where it is a rectangle, it has all the numbers for which it asks for room. -/
theorem lt_length_of_collect (h : value.Oversized) {entries : List Binary64}
    (hcollect : value.collect value.outline = .ok entries) :
    Shape.elementLimit < entries.length :=
  length_of_collect hcollect ▸ h.lt_size

end Oversized

end Json.Value

/-! ## Documents -/

namespace Document

/-- The values of a document that are converted to numbers, in their order. -/
def values (document : Document) : List Json.Value :=
  document.blocks.flatMap (fun entry => entry.2.lower.toList ++ entry.2.upper.toList)
    ++ document.rows.flatMap (fun entry => entry.arrays.map Prod.snd)
    ++ document.objective.toList.flatMap fun entry => entry.arrays.map Prod.snd

theorem oversized_of_dense {name : String} {value : Json.Value}
    (h : dense name value = .error .capacityOverflow) : value.Oversized := by
  rw [dense] at h
  split at h <;> cases h
  next hdense => exact Json.Value.dense_eq_capacityOverflow_iff.mp hdense

theorem exists_oversized_of_unconverted {entries : Named Json.Value}
    (h : Unconverted entries .capacityOverflow) :
    ∃ value ∈ entries.map Prod.snd, value.Oversized := by
  obtain ⟨before, entry, after, rfl, -, hentry⟩ := h
  exact ⟨entry.2, by simp, oversized_of_dense hentry⟩

theorem exists_oversized_of_bound {name : String} {bound : Option Json.Value}
    (h : bound.mapM (dense name) = .error .capacityOverflow) :
    ∃ value ∈ bound.toList, value.Oversized := by
  cases bound with
  | none => cases h
  | some value =>
    refine ⟨value, by simp, ?_⟩
    rcases bind_eq_error_iff.mp h with hdense | ⟨values, -, hlast⟩
    · exact oversized_of_dense hdense
    · cases hlast

theorem exists_oversized_of_block {config : Configuration} {name : String} {entry : BlockEntry}
    (h : block config name entry = .error .capacityOverflow) :
    ∃ value ∈ entry.lower.toList ++ entry.upper.toList, value.Oversized := by
  rcases bind_eq_error_iff.mp h with hlower | ⟨lower, -, hrest⟩
  · obtain ⟨value, hvalue, hover⟩ := exists_oversized_of_bound hlower
    exact ⟨value, List.mem_append_left _ hvalue, hover⟩
  · rcases bind_eq_error_iff.mp hrest with hupper | ⟨upper, -, hlast⟩
    · obtain ⟨value, hvalue, hover⟩ := exists_oversized_of_bound hupper
      exact ⟨value, List.mem_append_right _ hvalue, hover⟩
    · cases hlast

theorem exists_oversized_of_row {config : Configuration} {layout : Layout} {position : Nat}
    {entry : RowEntry} (h : entry.Stops config layout position .capacityOverflow) :
    ∃ value ∈ entry.arrays.map Prod.snd, value.Oversized := by
  cases h with
  | conversion hrelation hitems hunconverted => exact exists_oversized_of_unconverted hunconverted

theorem exists_oversized_of_objective {config : Configuration} {layout : Layout}
    {entry : ObjectiveEntry} (h : entry.Stops config layout .capacityOverflow) :
    ∃ value ∈ entry.arrays.map Prod.snd, value.Oversized := by
  cases h with
  | conversion hunconverted => exact exists_oversized_of_unconverted hunconverted

/-- A document is built or there is an error, unless it has an oversized value. -/
theorem exists_oversized_of_build {config : Configuration} {document : Document}
    (h : build config document = .error .capacityOverflow) :
    ∃ value ∈ document.values, value.Oversized := by
  simp only [values, List.mem_append, List.mem_flatMap]
  cases hblocks : document.blocks.mapM fun entry => block config entry.1 entry.2 with
  | error stop =>
    rw [build, hblocks] at h
    obtain rfl : stop = .capacityOverflow := Except.error.inj h
    obtain ⟨before, entry, after, hsplit, -, hentry⟩ := mapM_eq_error_iff.mp hblocks
    obtain ⟨value, hvalue, hover⟩ := exists_oversized_of_block hentry
    exact ⟨value, .inl (.inl ⟨entry, by simp [hsplit], List.mem_append.mp hvalue⟩), hover⟩
  | ok blocks =>
    cases hlayout : Layout.ofBlocks blocks with
    | error error =>
      rw [build, hblocks] at h
      change (Except.mapError DocumentStop.model (Program.ofBlocks blocks)).bind _ = _ at h
      rw [Program.ofBlocks, hlayout] at h
      cases h
    | ok layout =>
      rcases (build_eq_error_iff hblocks hlayout).mp h with
        ⟨before, entry, after, hsplit, -, hstops⟩ | ⟨-, entry, hgiven, hstops⟩
      · obtain ⟨value, hvalue, hover⟩ := exists_oversized_of_row hstops
        have hentry : entry.1 ∈ document.rows :=
          List.fst_mem_of_mem_zipIdx (by simp [hsplit] : entry ∈ document.rows.zipIdx)
        exact ⟨value, .inl (.inr ⟨entry.1, hentry, hvalue⟩), hover⟩
      · obtain ⟨value, hvalue, hover⟩ := exists_oversized_of_objective hstops
        exact ⟨value, .inr ⟨entry, by simp [hgiven], hvalue⟩, hover⟩

end Document

/-- **Every text is answered, unless it has an oversized value.** Such a value has lengths at its
first elements that add up to more than 113, and it is no array of numbers, or one of more numbers
than there can be room for. -/
theorem Program.ofJson_answers_unless_oversized (config : Configuration) (text : String) :
    (∃ program, ofJson config text = .ok program)
      ∨ (∃ error, ofJson config text = .error (.failed error))
      ∨ ofJson config text = .error .capacityOverflow
        ∧ ∃ document value, Document.ofText? text = some document ∧ value ∈ document.values
          ∧ value.Oversized ∧ 113 < value.outline.sum
          ∧ ∀ entries, value.collect value.outline = .ok entries →
            Shape.elementLimit < entries.length := by
  cases hprogram : ofJson config text with
  | ok program => exact .inl ⟨program, rfl⟩
  | error stop =>
    cases stop with
    | failed error => exact .inr (.inl ⟨error, rfl⟩)
    | capacityOverflow =>
      rw [ofJson] at hprogram
      split at hprogram
      · cases hprogram
      · next document hdocument =>
        obtain ⟨value, hvalue, hover⟩ := Document.exists_oversized_of_build hprogram
        exact .inr (.inr ⟨rfl, document, value, hdocument, hvalue, hover, hover.lt_sum_outline,
          fun _ => hover.lt_length_of_collect⟩)

/-! ## A text that is not answered -/

namespace Json

/-- All tokens of a text of at most so many characters. The recursion is on the limit, and so the
tokens of a given text can be computed in a proof. -/
def Token.scanWithin : (limit : Nat) → List Char → Option (List Token)
  | _, [] => some []
  | 0, _ => none
  | limit + 1, c :: rest =>
    if isBlank c then scanWithin limit rest
    else
      match next? (c :: rest) with
      | none => none
      | some (token, tail) => (scanWithin limit tail).map (token :: ·)

theorem Token.scan_eq_scanWithin {limit : Nat} {text : List Char} (h : text.length ≤ limit) :
    scan text = scanWithin limit text := by
  induction limit generalizing text with
  | zero => rw [List.length_eq_zero_iff.mp (Nat.le_zero.mp h), scan, scanWithin]
  | succ limit ih =>
    cases text with
    | nil => rw [scan, scanWithin]
    | cons c rest =>
      have hrest : rest.length ≤ limit := Nat.le_of_succ_le_succ h
      rw [scan, scanWithin, ih hrest]
      split
      · rfl
      · split
        · next hnext => rw [hnext]
        · next token tail hnext =>
          have htail : tail.length ≤ limit :=
            Nat.le_of_lt_succ (Nat.lt_of_lt_of_le (length_lt_of_next? hnext) h)
          rw [hnext, ih htail]

/-- Pairs in one another: each is the first element of the next. -/
def pairsText : (levels : Nat) → List Char
  | 0 => ['1']
  | levels + 1 => '[' :: pairsText levels ++ [',', '0', ']']

end Json

namespace Document

/-- A document with one block, whose lower bound is given by pairs in one another. -/
def pairsText (levels : Nat) : String :=
  .ofList ("\x7b\"notations\":\x7b\"x\":\x7b\"lower_bound\":".toList ++ Json.pairsText levels
    ++ "\x7d\x7d\x7d".toList)

theorem ofText?_eq_scanWithin {limit : Nat} {text : List Char} (h : text.length ≤ limit) :
    ofText? (.ofList text)
      = ((Json.Token.scanWithin limit text).bind Json.Tree.ofTokens?).bind ofTree? := by
  rw [ofText?, Json.Tree.ofText?, String.toList_ofList, Json.Token.scan_eq_scanWithin h]

end Document

/-- Sixty-one pairs in one another are not rectangular, but nobody is told. -/
theorem Program.ofJson_pairsText :
    (Document.ofText? (Document.pairsText 61)).map
        (fun document => document.values.map fun value => value.collect value.outline)
        = some [.error .ragged]
      ∧ ofJson {} (Document.pairsText 61) = .error .capacityOverflow := by
  have htext : Document.ofText? (Document.pairsText 61) = _ :=
    @Document.ofText?_eq_scanWithin 300 _ (by decide +kernel)
  rw [ofJson, htext]
  decide +kernel

end LinearModel
