import LinearModel.Relation
import Mathlib.Data.List.TakeWhile

/-!
# The texts of the relations

A text is read as a relation if it is one of the spellings of the relation, in letters of any case
and with any blanks around it. Of all texts these and no others are read.

* `Text.strip_padded`, `Text.exists_strip` — taking off the blanks undoes adding them, and what is
  taken off are blanks
* `Relation.ofText_eq_ok_iff` — the texts of a relation
* `Relation.Spelled.padded`, `Relation.Spelled.of_toAsciiLower_eq` — blanks around a text and the
  case of its letters do not count
* `Relation.reads_spellings` — all of this together, with the error for the other texts

Blanks are taken off before the letters are made small. The order has no part in this, as no letter
is a blank in either case (`Text.isBlank_toLower`).
-/

namespace LinearModel

namespace Text

/-- Nothing but blanks. -/
def Blanks (text : List Char) : Prop := ∀ c ∈ text, isBlank c = true

/-! ## Blanks at the ends -/

theorem dropWhile_isBlank_append {before rest : List Char} (hbefore : Blanks before)
    (hrest : ∀ c ∈ rest.head?, isBlank c = false) : (before ++ rest).dropWhile isBlank = rest := by
  rw [List.dropWhile_append_of_pos hbefore]
  cases rest with
  | nil => rfl
  | cons c rest => exact List.dropWhile_cons_of_neg (by simp [hrest c rfl])

/-- **Blanks around a word without blanks are taken off.** -/
theorem strip_padded {before word after : List Char} (hne : word ≠ [])
    (hword : ∀ c ∈ word, isBlank c = false) (hbefore : Blanks before) (hafter : Blanks after) :
    strip (before ++ word ++ after) = word := by
  have hfront : (before ++ word ++ after).dropWhile isBlank = word ++ after := by
    rw [List.append_assoc]
    obtain ⟨first, others, rfl⟩ := List.exists_cons_of_ne_nil hne
    refine dropWhile_isBlank_append hbefore fun c hc => hword c ?_
    rw [← Option.some.inj hc]
    exact List.mem_cons_self
  have hback : (after.reverse ++ word.reverse).dropWhile isBlank = word.reverse := by
    refine dropWhile_isBlank_append (fun c hc => hafter c (List.mem_reverse.mp hc)) fun c hc => ?_
    exact hword c (List.mem_reverse.mp (List.mem_of_mem_head? hc))
  rw [strip, hfront, List.reverse_append, hback, List.reverse_reverse]

/-- What is taken off a text are blanks. -/
theorem exists_strip (text : List Char) :
    ∃ before after, text = before ++ strip text ++ after ∧ Blanks before ∧ Blanks after := by
  refine ⟨text.takeWhile isBlank,
    ((text.dropWhile isBlank).reverse.takeWhile isBlank).reverse, ?_, ?_, ?_⟩
  · rw [strip, List.append_assoc, ← List.reverse_append, List.takeWhile_append_dropWhile,
      List.reverse_reverse, List.takeWhile_append_dropWhile]
  · exact fun c hc => List.mem_takeWhile_imp hc
  · exact fun c hc => List.mem_takeWhile_imp (List.mem_reverse.mp hc)

/-! ## The case of letters -/

theorem isBlank_of_between {c : Char} (hlow : 0x41 ≤ c.toNat) (hhigh : c.toNat ≤ 0x7A) :
    isBlank c = false := by
  simp only [isBlank, blankRanges, List.any_eq_false, List.forall_mem_cons, Bool.and_eq_true,
    decide_eq_true_eq, List.not_mem_nil, false_imp_iff, implies_true, and_true]
  omega

/-- A character is a blank in both cases or in neither. -/
theorem isBlank_toLower (c : Char) : isBlank c.toLower = isBlank c := by
  unfold Char.toLower
  split
  · next h =>
    have hlow : 0x41 ≤ c.toNat := h.1
    have hhigh : c.toNat ≤ 0x5A := h.2
    have hsmall : (c.val + ('a'.val - 'A'.val)).toNat = c.toNat + 32 := by
      rw [UInt32.toNat_add]
      show (c.toNat + 32) % 2 ^ 32 = _
      omega
    rw [isBlank_of_between hlow (by omega)]
    refine isBlank_of_between ?_ ?_
    · show 0x41 ≤ (c.val + ('a'.val - 'A'.val)).toNat
      omega
    · show (c.val + ('a'.val - 'A'.val)).toNat ≤ 0x7A
      omega
  · rfl

theorem forall_isBlank_toAsciiLower (p : Bool) (text : List Char) :
    (∀ c ∈ toAsciiLower text, isBlank c = p) ↔ ∀ c ∈ text, isBlank c = p := by
  simp only [toAsciiLower, List.forall_mem_map, isBlank_toLower]

end Text

namespace Relation

open Text

/-! ## Spellings -/

/-- The spellings in small letters. -/
def spellings : Relation → List String
  | eq => ["=", "==", "eq"]
  | le => ["<=", "leq", "le"]
  | ge => [">=", "geq", "ge"]

theorem ofWord?_eq_some_iff {word : String} {relation : Relation} :
    ofWord? word = some relation ↔ word ∈ relation.spellings := by
  constructor
  · intro h
    unfold ofWord? at h
    split at h
    · next hmem => cases h; exact hmem
    split at h
    · next hmem => cases h; exact hmem
    split at h
    · next hmem => cases h; exact hmem
    · cases h
  · intro h
    cases relation <;> simp only [spellings, List.mem_cons, List.not_mem_nil, or_false] at h <;>
      rcases h with rfl | rfl | rfl <;> decide

theorem nonblank_of_mem_spellings {relation : Relation} {word : String}
    (h : word ∈ relation.spellings) :
    word.toList ≠ [] ∧ ∀ c ∈ word.toList, isBlank c = false := by
  -- over the list of the letters, as the instance for all characters would go through them all
  have hall : ∀ word ∈ relation.spellings,
      word.toList ≠ [] ∧ word.toList.all (fun c => !isBlank c) = true := by
    cases relation <;> decide
  obtain ⟨hne, hletters⟩ := hall word h
  exact ⟨hne, fun c hc => by simpa using List.all_eq_true.mp hletters c hc⟩

/-- The text spells the relation: it is one of the spellings in letters of any case, with any blanks
around it. -/
def Spelled (relation : Relation) (text : String) : Prop :=
  ∃ before word after, text.toList = before ++ word ++ after ∧ Blanks before ∧ Blanks after
    ∧ String.ofList (toAsciiLower word) ∈ relation.spellings

variable {relation : Relation} {text : String}

/-- Without the blanks around it, a text that spells a relation is the spelling. -/
theorem spelled_iff_strip :
    relation.Spelled text
      ↔ String.ofList (toAsciiLower (strip text.toList)) ∈ relation.spellings := by
  constructor
  · rintro ⟨before, word, after, htext, hbefore, hafter, hmem⟩
    obtain ⟨hne, hblank⟩ := nonblank_of_mem_spellings hmem
    rw [String.toList_ofList] at hne hblank
    have hword : word ≠ [] := fun h => hne (by rw [h]; rfl)
    rwa [htext, strip_padded hword ((forall_isBlank_toAsciiLower false word).mp hblank) hbefore
      hafter]
  · intro h
    obtain ⟨before, after, htext, hbefore, hafter⟩ := exists_strip text.toList
    exact ⟨before, _, after, htext, hbefore, hafter, h⟩

/-- **The texts of a relation** are those that spell it. -/
theorem ofText_eq_ok_iff : ofText text = .ok relation ↔ relation.Spelled text := by
  rw [spelled_iff_strip, ← ofWord?_eq_some_iff, ofText]
  split
  · next found hfound => rw [hfound, Except.ok.injEq, Option.some.injEq]
  · next hnone => rw [hnone]; exact ⟨nofun, nofun⟩

/-- Any other text is answered with itself. -/
theorem ofText_eq_error_iff {error : ModelError} :
    ofText text = .error error
      ↔ (∀ relation : Relation, ¬ relation.Spelled text) ∧ error = .unknownRelation text := by
  simp only [spelled_iff_strip, ← ofWord?_eq_some_iff]
  rw [ofText]
  split
  · next found hfound => exact ⟨nofun, fun h => absurd hfound (h.1 found)⟩
  · next hnone => simp [hnone, eq_comm]

/-! ## Blanks and case -/

theorem Spelled.padded (h : relation.Spelled text) {before after : String}
    (hbefore : Blanks before.toList) (hafter : Blanks after.toList) :
    relation.Spelled (before ++ text ++ after) := by
  obtain ⟨front, word, back, htext, hfront, hback, hmem⟩ := h
  refine ⟨before.toList ++ front, word, back ++ after.toList, ?_,
    List.forall_mem_append.mpr ⟨hbefore, hfront⟩, List.forall_mem_append.mpr ⟨hback, hafter⟩, hmem⟩
  simp [htext]

theorem Spelled.of_toAsciiLower_eq (h : relation.Spelled text) {other : String}
    (hcase : toAsciiLower other.toList = toAsciiLower text.toList) : relation.Spelled other := by
  obtain ⟨before, word, after, htext, hbefore, hafter, hmem⟩ := h
  -- the other text is cut where this one is
  rw [htext, toAsciiLower, toAsciiLower, List.map_append, List.map_append] at hcase
  obtain ⟨front, back, hother, hfront, hback⟩ := List.map_eq_append_iff.mp hcase
  obtain ⟨padding, middle, rfl, hpadding, hmiddle⟩ := List.map_eq_append_iff.mp hfront
  refine ⟨padding, middle, back, hother, ?_, ?_, ?_⟩
  · rw [Blanks, ← forall_isBlank_toAsciiLower, toAsciiLower, hpadding]
    exact (forall_isBlank_toAsciiLower true before).mpr hbefore
  · rw [Blanks, ← forall_isBlank_toAsciiLower, toAsciiLower, hback]
    exact (forall_isBlank_toAsciiLower true after).mpr hafter
  · rw [toAsciiLower, hmiddle]
    exact hmem

theorem spelled_text (relation : Relation) : relation.Spelled relation.text :=
  ⟨[], relation.text.toList, [], by simp, nofun, nofun, by cases relation <;> decide⟩

/-- **The relations are read from their spellings and from nothing else.** A text is read as a
relation exactly if it spells it. Every other text is answered with an error that shows the text as
it was given. So a text that is read can be written in letters of another case and with blanks
around it, and is read as the same relation; and the text of a relation, with blanks around it, is
read as the relation. -/
theorem reads_spellings :
    (∀ text relation, ofText text = .ok relation ↔ relation.Spelled text)
      ∧ (∀ text error, ofText text = .error error
        ↔ (∀ relation : Relation, ¬ relation.Spelled text) ∧ error = .unknownRelation text)
      ∧ (∀ text relation, ofText text = .ok relation →
        ∀ other, toAsciiLower other.toList = toAsciiLower text.toList →
          ∀ before after, Blanks before.toList → Blanks after.toList →
            ofText (before ++ other ++ after) = .ok relation)
      ∧ ∀ (relation : Relation) before after, Blanks before.toList → Blanks after.toList →
        ofText (before ++ relation.text ++ after) = .ok relation := by
  refine ⟨fun _ _ => ofText_eq_ok_iff, fun _ _ => ofText_eq_error_iff, ?_, ?_⟩
  · intro text relation h other hcase before after hbefore hafter
    have hspelled := (ofText_eq_ok_iff.mp h).of_toAsciiLower_eq hcase
    exact ofText_eq_ok_iff.mpr (hspelled.padded hbefore hafter)
  · intro relation before after hbefore hafter
    exact ofText_eq_ok_iff.mpr (relation.spelled_text.padded hbefore hafter)

-- a no-break space in front, letters of both cases, a tab behind; `=>` is no spelling
example : ofText "\u00a0GeQ\t" = .ok .ge ∧ ofText "=>" = .error (.unknownRelation "=>") := by cbv

end Relation

end LinearModel
