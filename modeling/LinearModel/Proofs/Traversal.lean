/-!
# Traversals that may fail

What `mapM` and `foldlM` give in `Except`: all results in order, or the first error that is met.

* `exists_mapM_ok` — where every step succeeds, so does the traversal, and what is seen of the
  results is what is seen of the elements
* `mapM_eq_error_iff` — the error of a traversal is that of its first failing step
* `map_flatten_mapM` — a traversal can be made piece by piece
* `foldlM_eq_error_iff` — the error of a run is that of the first refused element, where refusing
  does not depend on what has been reached
* `foldlM_eq_error_iff_exists` — in any case it is that of the step behind those that succeed
* `SameOutcome.foldlM` — two runs whose steps have the same outcome have the same outcome

The last section has two lemmas on lists that are given by the numbers of their elements.
-/

namespace LinearModel

variable {α β γ ε : Type}

/-! ## One step after another -/

theorem bind_eq_ok_iff {x : Except ε α} {f : α → Except ε β} {b : β} :
    x.bind f = .ok b ↔ ∃ a, x = .ok a ∧ f a = .ok b := by
  cases x <;> simp [Except.bind]

theorem bind_eq_error_iff {x : Except ε α} {f : α → Except ε β} {e : ε} :
    x.bind f = .error e ↔ x = .error e ∨ ∃ a, x = .ok a ∧ f a = .error e := by
  cases x <;> simp [Except.bind]

/-! ## The first refusal -/

/-- Of the elements of the list this error is given for the first that is refused. -/
def FirstRefused (Refused : α → ε → Prop) (xs : List α) (e : ε) : Prop :=
  ∃ before x after, xs = before ++ x :: after ∧ (∀ y ∈ before, ∀ other, ¬ Refused y other)
    ∧ Refused x e

variable {Refused : α → ε → Prop}

theorem not_firstRefused_nil {e : ε} : ¬ FirstRefused Refused [] e := by
  rintro ⟨before, x, after, h, -, -⟩
  cases before <;> cases h

theorem firstRefused_cons_iff {x : α} {xs : List α} {e : ε} :
    FirstRefused Refused (x :: xs) e
      ↔ Refused x e ∨ (∀ other, ¬ Refused x other) ∧ FirstRefused Refused xs e := by
  constructor
  · rintro ⟨before, y, after, hxs, hbefore, hy⟩
    cases before with
    | nil =>
      obtain ⟨rfl, -⟩ := List.cons.inj hxs
      exact Or.inl hy
    | cons first rest =>
      obtain ⟨rfl, hrest⟩ := List.cons.inj hxs
      exact Or.inr ⟨hbefore x List.mem_cons_self, rest, y, after, hrest,
        fun z hz => hbefore z (List.mem_cons_of_mem _ hz), hy⟩
  · rintro (hx | ⟨hx, before, y, after, rfl, hbefore, hy⟩)
    · exact ⟨[], x, xs, rfl, by simp, hx⟩
    · refine ⟨x :: before, y, after, rfl, ?_, hy⟩
      intro z hz
      rcases List.mem_cons.mp hz with rfl | hz
      · exact hx
      · exact hbefore z hz

/-- Where any element is refused, one is the first. -/
theorem exists_firstRefused_iff {xs : List α} :
    (∃ e, FirstRefused Refused xs e) ↔ ∃ x ∈ xs, ∃ e, Refused x e := by
  induction xs with
  | nil => simp [not_firstRefused_nil]
  | cons x xs ih =>
    simp only [firstRefused_cons_iff, exists_or, exists_and_left, ih, List.mem_cons,
      exists_eq_or_imp]
    by_cases hx : ∃ e, Refused x e
    · exact ⟨fun _ => Or.inl hx, fun _ => Or.inl hx⟩
    · exact or_congr_right (and_iff_right (not_exists.mp hx))

theorem firstRefused_append_iff {xs ys : List α} {e : ε} :
    FirstRefused Refused (xs ++ ys) e
      ↔ FirstRefused Refused xs e
        ∨ (∀ x ∈ xs, ∀ other, ¬ Refused x other) ∧ FirstRefused Refused ys e := by
  induction xs with
  | nil => simp [not_firstRefused_nil]
  | cons x xs ih =>
    rw [List.cons_append, firstRefused_cons_iff, firstRefused_cons_iff, ih, List.forall_mem_cons,
      and_assoc]
    by_cases hx : ∀ other, ¬ Refused x other
    · simp [hx]
    · simp [hx]

theorem firstRefused_map_iff {Refused : β → ε → Prop} {f : α → β} {xs : List α} {e : ε} :
    FirstRefused Refused (xs.map f) e ↔ FirstRefused (fun x => Refused (f x)) xs e := by
  induction xs with
  | nil => exact iff_of_false not_firstRefused_nil not_firstRefused_nil
  | cons x xs ih => rw [List.map_cons, firstRefused_cons_iff, firstRefused_cons_iff, ih]

/-- The first refusal in lists behind one another is the first of the first list that has one. -/
theorem firstRefused_flatMap_iff {Refused : β → ε → Prop} {f : α → List β} {xs : List α} {e : ε} :
    FirstRefused Refused (xs.flatMap f) e
      ↔ FirstRefused (fun x => FirstRefused Refused (f x)) xs e := by
  induction xs with
  | nil => exact iff_of_false not_firstRefused_nil not_firstRefused_nil
  | cons x xs ih =>
    have hnone : (∀ other, ¬ FirstRefused Refused (f x) other)
        ↔ ∀ y ∈ f x, ∀ other, ¬ Refused y other := by
      rw [← not_exists, exists_firstRefused_iff]
      simp
    rw [List.flatMap_cons, firstRefused_append_iff, firstRefused_cons_iff, ih, hnone]

/-- A check in front of others is the first of them to fail. -/
theorem ite_error_eq_error_iff {p : Prop} [Decidable p] {fault e : ε} {rest : Except ε α}
    {others : List (ε → Prop)}
    (hrest : ¬ p → (rest = .error e ↔ FirstRefused (fun objection e => objection e) others e)) :
    (if p then .error fault else rest) = .error e
      ↔ FirstRefused (fun objection e => objection e) ((fun e => p ∧ e = fault) :: others) e := by
  rw [firstRefused_cons_iff]
  by_cases hp : p
  · simp [hp, eq_comm]
  · simp [hp, hrest hp]

/-! ## Traversals -/

theorem mapM_cons_ok {f : α → Except ε β} {x : α} {y : β} (h : f x = .ok y) (xs : List α) :
    (x :: xs).mapM f = (xs.mapM f).map (y :: ·) := by
  rw [List.mapM_cons, h]
  cases xs.mapM f <;> rfl

theorem mapM_cons_error {f : α → Except ε β} {x : α} {e : ε} (h : f x = .error e) (xs : List α) :
    (x :: xs).mapM f = .error e := by
  rw [List.mapM_cons, h]
  rfl

/-- **Every step succeeds, and so does the traversal.** The results are described by whatever `view`
shows of them. -/
theorem exists_mapM_ok {f : α → Except ε β} (view : β → γ) (expected : α → γ) {xs : List α}
    (h : ∀ x ∈ xs, ∃ y, f x = .ok y ∧ view y = expected x) :
    ∃ ys, xs.mapM f = .ok ys ∧ ys.map view = xs.map expected := by
  induction xs with
  | nil => exact ⟨[], rfl, rfl⟩
  | cons x xs ih =>
    obtain ⟨y, hy, hview⟩ := h x List.mem_cons_self
    obtain ⟨ys, hys, hviews⟩ := ih fun z hz => h z (List.mem_cons_of_mem _ hz)
    refine ⟨y :: ys, by rw [mapM_cons_ok hy, hys]; rfl, ?_⟩
    rw [List.map_cons, List.map_cons, hview, hviews]

theorem mapM_eq_ok_map {f : α → Except ε β} (g : α → β) {xs : List α}
    (h : ∀ x ∈ xs, f x = .ok (g x)) : xs.mapM f = .ok (xs.map g) := by
  obtain ⟨ys, hys, heq⟩ := exists_mapM_ok id g fun x hx => ⟨g x, h x hx, rfl⟩
  rw [hys, ← heq, List.map_id]

theorem mapM_eq_ok_filterMap {f : α → Except ε β} (g : α → Option β) {xs : List α}
    (h : ∀ x ∈ xs, ∃ y, f x = .ok y ∧ g x = some y) : xs.mapM f = .ok (xs.filterMap g) := by
  obtain ⟨ys, hys, heq⟩ := exists_mapM_ok some g fun x hx =>
    (h x hx).imp fun _ hy => ⟨hy.1, hy.2.symm⟩
  have hsome : ys = (ys.map some).filterMap id := by simp
  rw [hys, hsome, heq, List.filterMap_map, Function.id_comp]

theorem forall_of_mapM_ok {f : α → Except ε β} {xs : List α} {ys : List β}
    (h : xs.mapM f = .ok ys) : ∀ x ∈ xs, ∃ y, f x = .ok y := by
  induction xs generalizing ys with
  | nil => simp
  | cons x xs ih =>
    cases hx : f x with
    | error e => rw [mapM_cons_error hx] at h; cases h
    | ok y =>
      rw [mapM_cons_ok hx] at h
      cases hrest : xs.mapM f with
      | error e => rw [hrest] at h; cases h
      | ok zs =>
        intro z hz
        rcases List.mem_cons.mp hz with rfl | hz
        · exact ⟨y, hx⟩
        · exact ih hrest z hz

theorem mapM_eq_error_iff_firstRefused {f : α → Except ε β} {xs : List α} {e : ε} :
    xs.mapM f = .error e ↔ FirstRefused (fun x e => f x = .error e) xs e := by
  induction xs with
  | nil => exact ⟨nofun, fun h => absurd h not_firstRefused_nil⟩
  | cons x xs ih =>
    rw [firstRefused_cons_iff, ← ih]
    cases hx : f x with
    | error other =>
      rw [mapM_cons_error hx]
      simp only [Except.error.injEq]
      exact ⟨Or.inl, fun h => h.resolve_right fun hrest => hrest.1 other rfl⟩
    | ok value =>
      rw [mapM_cons_ok hx]
      cases xs.mapM f <;> simp [Except.map]

/-- **The error of a traversal is that of its first failing step.** -/
theorem mapM_eq_error_iff {f : α → Except ε β} {xs : List α} {e : ε} :
    xs.mapM f = .error e ↔ ∃ before x after, xs = before ++ x :: after
      ∧ (∀ y ∈ before, ∃ z, f y = .ok z) ∧ f x = .error e := by
  have hok : ∀ y, (∀ other, ¬ f y = .error other) ↔ ∃ z, f y = .ok z := by
    intro y
    cases f y <;> simp
  simp only [mapM_eq_error_iff_firstRefused, FirstRefused, hok]

/-- **A traversal can be made piece by piece.** -/
theorem map_flatten_mapM {f : α → Except ε β} {g : γ → Except ε (List β)} {piece : γ → List α}
    {xs : List γ} (h : ∀ x ∈ xs, g x = (piece x).mapM f) :
    (xs.mapM g).map List.flatten = (xs.flatMap piece).mapM f := by
  induction xs with
  | nil => rfl
  | cons x xs ih =>
    rw [List.flatMap_cons, List.mapM_append, ← h x List.mem_cons_self,
      ← ih fun y hy => h y (List.mem_cons_of_mem _ hy), List.mapM_cons]
    cases g x with
    | error e => rfl
    | ok first => cases xs.mapM g <;> rfl

/-! ## Runs of steps -/

variable {σ : Type}

theorem foldlM_cons_ok {step : σ → α → Except ε σ} {s next : σ} {x : α}
    (h : step s x = .ok next) (xs : List α) : (x :: xs).foldlM step s = xs.foldlM step next := by
  rw [List.foldlM_cons, h]
  rfl

theorem foldlM_cons_error {step : σ → α → Except ε σ} {s : σ} {x : α} {e : ε}
    (h : step s x = .error e) (xs : List α) : (x :: xs).foldlM step s = .error e := by
  rw [List.foldlM_cons, h]
  rfl

/-- **The error of a run is that of the first refused element.** Which elements are refused must not
depend on what has been reached. -/
theorem foldlM_eq_error_iff {step : σ → α → Except ε σ} {P : σ → Prop}
    (hkeep : ∀ s x next, P s → step s x = .ok next → P next)
    (hrefused : ∀ s x e, P s → (step s x = .error e ↔ Refused x e)) {xs : List α} {s : σ}
    (hs : P s) {e : ε} : xs.foldlM step s = .error e ↔ FirstRefused Refused xs e := by
  induction xs generalizing s with
  | nil => exact ⟨nofun, fun h => absurd h not_firstRefused_nil⟩
  | cons x xs ih =>
    rw [firstRefused_cons_iff]
    cases hx : step s x with
    | error other =>
      have hother : Refused x other := (hrefused s x other hs).mp hx
      rw [foldlM_cons_error hx, ← hx, hrefused s x e hs]
      exact ⟨Or.inl, fun h => h.resolve_right fun hrest => hrest.1 other hother⟩
    | ok next =>
      have hnone : ∀ other, ¬ Refused x other := by
        intro other hother
        rw [(hrefused s x other hs).mpr hother] at hx
        cases hx
      rw [foldlM_cons_ok hx, ih (hkeep s x next hs hx)]
      exact ⟨fun h => Or.inr ⟨hnone, h⟩, fun h => (h.resolve_left (hnone e)).2⟩

/-- A run fails with the error of the step that fails where all in front of it have succeeded. -/
theorem foldlM_eq_error_iff_exists {step : σ → α → Except ε σ} {xs : List α} {s : σ} {e : ε} :
    xs.foldlM step s = .error e ↔ ∃ before x after reached, xs = before ++ x :: after
      ∧ before.foldlM step s = .ok reached ∧ step reached x = .error e := by
  induction xs generalizing s with
  | nil =>
    refine iff_of_false (by rintro ⟨⟩) ?_
    rintro ⟨before, x, after, reached, hxs, -, -⟩
    cases before <;> cases hxs
  | cons x xs ih =>
    constructor
    · intro h
      cases hx : step s x with
      | error other =>
        rw [foldlM_cons_error hx] at h
        exact ⟨[], x, xs, s, rfl, rfl, hx.trans h⟩
      | ok next =>
        rw [foldlM_cons_ok hx] at h
        obtain ⟨before, y, after, reached, rfl, hbefore, hy⟩ := ih.mp h
        exact ⟨x :: before, y, after, reached, rfl, (foldlM_cons_ok hx before).trans hbefore, hy⟩
    · rintro ⟨before, y, after, reached, hxs, hbefore, hy⟩
      cases before with
      | nil =>
        obtain ⟨rfl, -⟩ := List.cons.inj hxs
        obtain rfl : s = reached := Except.ok.inj hbefore
        exact foldlM_cons_error hy xs
      | cons first rest =>
        obtain ⟨rfl, hrest⟩ := List.cons.inj hxs
        cases hx : step s x with
        | error other =>
          rw [foldlM_cons_error hx] at hbefore
          cases hbefore
        | ok next =>
          rw [foldlM_cons_ok hx] at hbefore ⊢
          exact ih.mpr ⟨rest, y, after, reached, hrest, hbefore, hy⟩

/-! ## Two runs side by side -/

/-- Both fail with the same error, or both succeed and their results are related. -/
inductive SameOutcome (R : α → β → Prop) : Except ε α → Except ε β → Prop
  | error (e : ε) : SameOutcome R (.error e) (.error e)
  | ok {a : α} {b : β} (h : R a b) : SameOutcome R (.ok a) (.ok b)

theorem SameOutcome.exists_eq {R : α → β → Prop} {x : Except ε α} {y : Except ε β}
    (h : SameOutcome R x y) :
    (∃ e, x = .error e ∧ y = .error e) ∨ ∃ a b, x = .ok a ∧ y = .ok b ∧ R a b := by
  cases h with
  | error e => exact Or.inl ⟨e, rfl, rfl⟩
  | ok h => exact Or.inr ⟨_, _, rfl, rfl, h⟩

/-- **Steps with the same outcome make runs with the same outcome.** -/
theorem SameOutcome.foldlM {τ : Type} {R : σ → τ → Prop} {step : σ → α → Except ε σ}
    {other : τ → α → Except ε τ} (hstep : ∀ s t x, R s t → SameOutcome R (step s x) (other t x))
    {s : σ} {t : τ} (h : R s t) (xs : List α) :
    SameOutcome R (xs.foldlM step s) (xs.foldlM other t) := by
  induction xs generalizing s t with
  | nil => exact .ok h
  | cons x xs ih =>
    rcases (hstep s t x h).exists_eq with ⟨e, hs, ht⟩ | ⟨next, next', hs, ht, hnext⟩
    · rw [foldlM_cons_error hs, foldlM_cons_error ht]
      exact .error e
    · rw [foldlM_cons_ok hs, foldlM_cons_ok ht]
      exact ih hnext

/-! ## Lists by the numbers of their elements -/

theorem map_range_getD (entries : List α) (default : α) :
    (List.range entries.length).map (fun i => entries.getD i default) = entries := by
  refine List.ext_getElem (by simp) fun i hi hi' => ?_
  simp [hi']

theorem set_map_range (f : Nat → α) (n k : Nat) (value : α) :
    ((List.range n).map f).set k value
      = (List.range n).map fun i => if i = k then value else f i := by
  refine List.ext_getElem (by simp) fun i hi hi' => ?_
  by_cases h : i = k
  · simp [h]
  · simp [h, Ne.symm h]

end LinearModel
