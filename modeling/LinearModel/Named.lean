/-!
# Values under names

A list of named values that keeps the order in which the names first came. A name that comes again
takes the new value at its old place.
-/

namespace LinearModel

/-- Values under names, in the order in which the names first came. -/
abbrev Named (α : Type) := List (String × α)

namespace Named

variable {α : Type}

def get? : Named α → String → Option α
  | [], _ => none
  | (name, value) :: rest, wanted => if name = wanted then some value else get? rest wanted

/-- The value under `name`, at the place where the name stands or else at the end. -/
def insert : Named α → String → α → Named α
  | [], name, value => [(name, value)]
  | (old, held) :: rest, name, value =>
    if old = name then (old, value) :: rest else (old, held) :: insert rest name value

/-- The pairs in order, a repeated name at its first place with its last value. -/
def ofPairs (pairs : List (String × α)) : Named α :=
  pairs.foldl (fun held pair => insert held pair.1 pair.2) []

def names (entries : Named α) : List String := entries.map Prod.fst

theorem get?_insert_self (entries : Named α) (name : String) (value : α) :
    get? (insert entries name value) name = some value := by
  induction entries with
  | nil => simp [insert, get?]
  | cons head rest ih =>
    rw [insert]
    split
    · next h => simp [get?, h]
    · next h => simp [get?, h, ih]

theorem get?_insert_of_ne (entries : Named α) {name other : String} (value : α)
    (h : other ≠ name) : get? (insert entries name value) other = get? entries other := by
  induction entries with
  | nil => simp [insert, get?, Ne.symm h]
  | cons head rest ih =>
    rw [insert]
    split
    · next he => simp [get?, he, Ne.symm h]
    · next he => simp [get?, ih]

/-! ## Entries -/

theorem get?_of_mem {entries : Named α} (hnd : (names entries).Nodup) {name : String} {value : α}
    (h : (name, value) ∈ entries) : get? entries name = some value := by
  induction entries with
  | nil => cases h
  | cons head rest ih =>
    rw [names, List.map_cons, List.nodup_cons] at hnd
    rw [get?]
    rcases List.mem_cons.mp h with he | ht
    · rw [← he, if_pos rfl]
    · have hne : head.1 ≠ name := fun he => hnd.1 (List.mem_map.mpr ⟨_, ht, he.symm⟩)
      rw [if_neg hne]
      exact ih hnd.2 ht

theorem exists_get?_iff {entries : Named α} {name : String} :
    (∃ value, get? entries name = some value) ↔ name ∈ names entries := by
  induction entries with
  | nil => simp [get?, names]
  | cons head rest ih =>
    rw [get?, names, List.map_cons, List.mem_cons]
    split
    · next hn => simp [hn]
    · next hn => exact ih.trans (or_iff_right (Ne.symm hn)).symm

/-- What is seen of the values stays, if the new value is seen like the old one. -/
theorem map_insert {β : Type} (view : α → β) {entries : Named α} {name : String} {old value : α}
    (h : get? entries name = some old) (hview : view value = view old) :
    (insert entries name value).map (fun entry => (entry.1, view entry.2))
      = entries.map fun entry => (entry.1, view entry.2) := by
  induction entries with
  | nil => cases h
  | cons head rest ih =>
    rw [get?] at h
    rw [insert]
    split at h
    · next hn =>
      rw [if_pos hn, List.map_cons, List.map_cons, hview, ← Option.some.inj h]
    · next hn =>
      rw [if_neg hn, List.map_cons, List.map_cons, ih h]

theorem insert_eq_map {entries : Named α} (hnd : (names entries).Nodup) {name : String} {old : α}
    (h : get? entries name = some old) (f : α → α) :
    insert entries name (f old)
      = entries.map fun entry => if entry.1 = name then (entry.1, f entry.2) else entry := by
  induction entries with
  | nil => cases h
  | cons head rest ih =>
    rw [names, List.map_cons, List.nodup_cons] at hnd
    rw [get?] at h
    rw [insert, List.map_cons]
    split at h
    · next hn =>
      rw [if_pos hn, if_pos hn, ← Option.some.inj h]
      -- the name does not come again in the rest
      have hrest : ∀ entry ∈ rest, (if entry.1 = name then (entry.1, f entry.2) else entry)
          = entry := by
        intro entry hentry
        exact if_neg fun he => hnd.1 (List.mem_map.mpr ⟨entry, hentry, he.trans hn.symm⟩)
      rw [List.map_congr_left hrest, List.map_id']
    · next hn => rw [if_neg hn, if_neg hn, ih hnd.2 h]

end Named

end LinearModel
