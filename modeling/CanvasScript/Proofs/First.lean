import Mathlib.Data.List.Forall2
/-!
Work on a list from left to right that stops at the first failure.

It gives a result for every element, or the failure of the first element that fails, and then all
elements in front of that one are good.
-/
namespace CanvasScript

variable {α β ε : Type}

/-- `x` stands at position `i` of a list, and nothing in front of it has the property that it has. -/
structure First (P : α → Prop) (xs : List α) (i : Nat) (x : α) : Prop where
  stands : xs[i]? = some x
  holds : P x
  least : ∀ j < i, ∀ y, xs[j]? = some y → ¬ P y

theorem not_first_nil (P : α → Prop) (i : Nat) (x : α) : ¬ First P [] i x := by
  intro h
  have := h.stands
  simp at this

theorem first_cons_iff {P : α → Prop} {x : α} {xs : List α} {i : Nat} {y : α} :
    First P (x :: xs) i y ↔
      (i = 0 ∧ y = x ∧ P x) ∨ ∃ j, i = j + 1 ∧ ¬ P x ∧ First P xs j y := by
  constructor
  · intro h
    cases i with
    | zero =>
        have hx : x = y := by simpa using h.stands
        subst hx
        exact .inl ⟨rfl, rfl, h.holds⟩
    | succ j =>
        have hx : ¬ P x := h.least 0 (Nat.succ_pos j) x rfl
        refine .inr ⟨j, rfl, hx, by simpa using h.stands, h.holds, ?_⟩
        intro k hk z hz
        exact h.least (k + 1) (Nat.succ_lt_succ hk) z (by simpa using hz)
  · rintro (⟨rfl, rfl, hy⟩ | ⟨j, rfl, hx, h⟩)
    · exact ⟨rfl, hy, fun j hj => absurd hj (Nat.not_lt_zero j)⟩
    · refine ⟨by simpa using h.stands, h.holds, ?_⟩
      intro k hk z hz
      cases k with
      | zero =>
          have hz : x = z := by simpa using hz
          exact hz ▸ hx
      | succ k => exact h.least k (Nat.lt_of_succ_lt_succ hk) z (by simpa using hz)

theorem First.mem {P : α → Prop} {xs : List α} {i : Nat} {x : α} (h : First P xs i x) : x ∈ xs :=
  List.mem_of_getElem? h.stands

theorem exists_first {P : α → Prop} {xs : List α} {x : α} (hx : x ∈ xs) (h : P x) :
    ∃ i y, First P xs i y := by
  induction xs with
  | nil => cases hx
  | cons z xs ih =>
      by_cases hz : P z
      · exact ⟨0, z, first_cons_iff.2 (.inl ⟨rfl, rfl, hz⟩)⟩
      · rcases List.mem_cons.1 hx with rfl | hx
        · exact absurd h hz
        · obtain ⟨i, y, hy⟩ := ih hx
          exact ⟨i + 1, y, first_cons_iff.2 (.inr ⟨i, rfl, hz, hy⟩)⟩

/-- The first of a list stands where the first of a list of its counterparts stands. -/
theorem First.of_forall₂ {R : α → β → Prop} {P : α → Prop} {Q : β → Prop} {xs : List α}
    {ys : List β} (hxy : List.Forall₂ R xs ys) (hPQ : ∀ x y, R x y → (P x ↔ Q y)) {i : Nat} {y : β}
    (h : First Q ys i y) : ∃ x, First P xs i x ∧ R x y := by
  induction hxy generalizing i with
  | nil => exact absurd h (not_first_nil Q i y)
  | @cons x z xs zs hR _ ih =>
      rcases first_cons_iff.1 h with ⟨rfl, rfl, hy⟩ | ⟨j, rfl, hz, hj⟩
      · exact ⟨x, first_cons_iff.2 (.inl ⟨rfl, rfl, (hPQ x y hR).2 hy⟩), hR⟩
      · obtain ⟨w, hw, hRw⟩ := ih hj
        have hx : ¬ P x := fun hx => hz ((hPQ x z hR).1 hx)
        exact ⟨w, first_cons_iff.2 (.inr ⟨j, rfl, hx, hw⟩), hRw⟩

theorem first_zipIdx_iff {P : α → Prop} {xs : List α} {n i k : Nat} {x : α} :
    First (fun p => P p.1) (xs.zipIdx n) i (x, k) ↔ First P xs i x ∧ k = n + i := by
  constructor
  · intro h
    have hstands := h.stands
    rw [List.getElem?_zipIdx] at hstands
    obtain ⟨y, hy, hpair⟩ := Option.map_eq_some_iff.1 hstands
    cases hpair
    refine ⟨⟨hy, h.holds, ?_⟩, rfl⟩
    intro j hj z hz
    exact h.least j hj (z, n + j) (by rw [List.getElem?_zipIdx, hz]; rfl)
  · rintro ⟨h, rfl⟩
    refine ⟨by rw [List.getElem?_zipIdx, h.stands]; rfl, h.holds, ?_⟩
    intro j hj p hp
    rw [List.getElem?_zipIdx] at hp
    obtain ⟨z, hz, rfl⟩ := Option.map_eq_some_iff.1 hp
    exact h.least j hj z hz

theorem mapError_eq_ok_iff {ε' : Type} {f : ε → ε'} {r : Except ε α} {x : α} :
    r.mapError f = .ok x ↔ r = .ok x := by
  cases r <;> simp [Except.mapError]

theorem mapError_eq_error_iff {ε' : Type} {f : ε → ε'} {r : Except ε α} {e' : ε'} :
    r.mapError f = .error e' ↔ ∃ e, r = .error e ∧ f e = e' := by
  cases r <;> simp [Except.mapError]

theorem mapM_cons_of_ok {f : α → Except ε β} {x : α} {y : β} (h : f x = .ok y) (xs : List α) :
    (x :: xs).mapM f = (xs.mapM f).map (y :: ·) := by
  rw [List.mapM_cons, h]
  cases xs.mapM f <;> rfl

theorem mapM_cons_of_error {f : α → Except ε β} {x : α} {e : ε} (h : f x = .error e)
    (xs : List α) : (x :: xs).mapM f = .error e := by
  rw [List.mapM_cons, h]
  rfl

theorem mapM_eq_ok_iff {f : α → Except ε β} {xs : List α} {ys : List β} :
    xs.mapM f = .ok ys ↔ List.Forall₂ (fun x y => f x = .ok y) xs ys := by
  constructor
  · intro h
    induction xs generalizing ys with
    | nil =>
        cases h
        exact .nil
    | cons x xs ih =>
        cases hx : f x with
        | error e =>
            rw [mapM_cons_of_error hx] at h
            cases h
        | ok y =>
            rw [mapM_cons_of_ok hx] at h
            cases hxs : xs.mapM f with
            | error e =>
                rw [hxs] at h
                cases h
            | ok zs =>
                rw [hxs] at h
                cases h
                exact .cons hx (ih hxs)
  · intro h
    induction h with
    | nil => rfl
    | cons hx _ ih =>
        rw [mapM_cons_of_ok hx, ih]
        rfl

theorem mapM_eq_error_iff {f : α → Except ε β} {xs : List α} {e : ε} :
    xs.mapM f = .error e ↔
      ∃ i x, First (fun x => ∃ e, f x = .error e) xs i x ∧ f x = .error e := by
  constructor
  · intro h
    induction xs with
    | nil => cases h
    | cons x xs ih =>
        cases hx : f x with
        | error e' =>
            rw [mapM_cons_of_error hx] at h
            cases h
            exact ⟨0, x, first_cons_iff.2 (.inl ⟨rfl, rfl, e, hx⟩), hx⟩
        | ok y =>
            have hgood : ¬ ∃ e, f x = .error e := by simp [hx]
            rw [mapM_cons_of_ok hx] at h
            cases hxs : xs.mapM f with
            | ok ys =>
                rw [hxs] at h
                cases h
            | error e' =>
                rw [hxs] at h
                cases h
                obtain ⟨i, z, hz, hfail⟩ := ih hxs
                exact ⟨i + 1, z, first_cons_iff.2 (.inr ⟨i, rfl, hgood, hz⟩), hfail⟩
  · rintro ⟨i, z, hz, hfail⟩
    induction xs generalizing i with
    | nil => exact absurd hz (not_first_nil _ i z)
    | cons x xs ih =>
        rcases first_cons_iff.1 hz with ⟨-, rfl, -⟩ | ⟨j, -, hgood, hj⟩
        · exact mapM_cons_of_error hfail xs
        · cases hx : f x with
          | error e' => exact absurd ⟨e', hx⟩ hgood
          | ok y =>
              rw [mapM_cons_of_ok hx, ih j hj]
              rfl

end CanvasScript
