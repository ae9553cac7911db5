import Mathlib.Logic.Function.Basic

/-!
# Inverted indexes

Rows, and an index that has them under their terms.

* `Inverts` — the index has every row under each of its terms, and nothing else.
* `Inverts.update` — one row changes; `Inverts.map` — all of them do.
* `Inverts.finds` — **a lookup under a term that all hits have is a scan**.
* `Apart` — no two rows clash; `Apart.checked` — **a new row that clashes with none of those under its terms clashes with
  none at all**.
-/

set_option autoImplicit false

namespace ChiffonDB

variable {ι κ R : Type} {terms : R → κ → Prop} {rows rows' : ι → Option R} {has has' : κ → ι → Prop} {i : ι} {k : κ}
  {clash : R → R → Prop}

/-- A row of a table with one row changed. -/
theorem update_eq_some [DecidableEq ι] {row : Option R} {j : ι} {r : R} (h : Function.update rows i row j = some r) :
    j = i ∧ row = some r ∨ j ≠ i ∧ rows j = some r := by
  by_cases hj : j = i
  · rw [hj, Function.update_self] at h
    exact .inl ⟨hj, h⟩
  · rw [Function.update_of_ne hj] at h
    exact .inr ⟨hj, h⟩

/-- The index has a row under each of its terms, and nothing else. -/
def Inverts (terms : R → κ → Prop) (rows : ι → Option R) (has : κ → ι → Prop) : Prop :=
  ∀ k i, has k i ↔ ∃ r, rows i = some r ∧ terms r k

namespace Inverts

theorem live (h : Inverts terms rows has) (hk : has k i) : ∃ r, rows i = some r ∧ terms r k := (h k i).1 hk

theorem not_has (h : Inverts terms rows has) (hi : rows i = none) : ¬ has k i := fun hk => by
  obtain ⟨r, hr, -⟩ := h.live hk
  rw [hi] at hr
  cases hr

/-- The terms of a row that is there. -/
theorem has_iff (h : Inverts terms rows has) {r : R} (hr : rows i = some r) : has k i ↔ terms r k := by
  rw [h k i, hr]
  exact ⟨fun ⟨r', hr', ht⟩ => by cases hr'; exact ht, fun ht => ⟨r, rfl, ht⟩⟩

/-- **One row changes, comes or goes.** -/
theorem update [DecidableEq ι] (h : Inverts terms rows has) {row : Option R}
    (hself : ∀ k, has' k i ↔ ∃ r, row = some r ∧ terms r k) (hother : ∀ k j, j ≠ i → (has' k j ↔ has k j)) :
    Inverts terms (Function.update rows i row) has' := by
  intro k j
  by_cases hj : j = i
  · rw [hj, Function.update_self]
    exact hself k
  · rw [Function.update_of_ne hj, hother k j hj]
    exact h k j

/-- **Every row changes**, and so may what its terms are. -/
theorem map (f : ι → R → R) (hrows : ∀ i, rows' i = (rows i).map (f i)) (hdead : ∀ k i, rows i = none → ¬ has k i)
    (hlive : ∀ k i r, rows i = some r → (has k i ↔ terms (f i r) k)) : Inverts terms rows' has := by
  intro k i
  rw [hrows]
  cases hr : rows i with
  | none => exact ⟨fun hk => absurd hk (hdead k i hr), fun ⟨r, hr', _⟩ => by cases hr'⟩
  | some r =>
    rw [hlive k i r hr]
    exact ⟨fun ht => ⟨f i r, rfl, ht⟩, fun ⟨r', hr', ht⟩ => by cases hr'; exact ht⟩

/-- **What is looked up under a term that all hits have is what a scan finds.** -/
theorem finds (h : Inverts terms rows has) {hit : R → Prop} (hall : ∀ r, hit r → terms r k) :
    (has k i ∧ ∃ r, rows i = some r ∧ hit r) ↔ ∃ r, rows i = some r ∧ hit r := by
  refine ⟨And.right, fun ⟨r, hr, hr'⟩ => ⟨(h.has_iff hr).2 (hall r hr'), r, hr, hr'⟩⟩

end Inverts

/-! ## Rows that do not clash -/

/-- The index has every row under each of its terms, and maybe more. -/
def HasAll (terms : R → κ → Prop) (rows : ι → Option R) (has : κ → ι → Prop) : Prop :=
  ∀ i r k, rows i = some r → terms r k → has k i

theorem Inverts.hasAll (h : Inverts terms rows has) : HasAll terms rows has := fun _ _ _ hr ht => (h.has_iff hr).2 ht

/-- No two rows clash. -/
def Apart (clash : R → R → Prop) (rows : ι → Option R) : Prop :=
  ∀ i j r s, rows i = some r → rows j = some s → clash r s → i = j

namespace Apart

/-- Rows that clash with no more than the old ones did. -/
theorem of_rows (h : Apart clash rows) {clash' : R → R → Prop}
    (hrows : ∀ i j r' s', rows' i = some r' → rows' j = some s' → clash' r' s' →
      ∃ r s, rows i = some r ∧ rows j = some s ∧ clash r s) : Apart clash' rows' := by
  intro i j r' s' hr hs hclash
  obtain ⟨r, s, hr, hs, hclash⟩ := hrows i j r' s' hr hs hclash
  exact h i j r s hr hs hclash

/-- **One row changes**, to one that clashes with no other. -/
theorem update [DecidableEq ι] (h : Apart clash rows) (hsymm : ∀ r s, clash r s → clash s r) {row : Option R}
    (hnew : ∀ r, row = some r → ∀ j s, rows j = some s → clash r s → j = i) : Apart clash (Function.update rows i row) := by
  intro j j' r s hr hs hclash
  rcases update_eq_some hr with ⟨hj, hrow⟩ | ⟨-, hold⟩
  · rcases update_eq_some hs with ⟨hj', -⟩ | ⟨-, hold'⟩
    · rw [hj, hj']
    · rw [hj, hnew r hrow j' s hold' hclash]
  · rcases update_eq_some hs with ⟨hj', hrow⟩ | ⟨-, hold'⟩
    · rw [hj', hnew s hrow j r hold (hsymm r s hclash)]
    · exact h j j' r s hold hold' hclash

/-- **The index tells all rows that could clash** with one, when rows that clash share a term. -/
theorem checked [DecidableEq ι] (h : Apart clash rows) (hsymm : ∀ r s, clash r s → clash s r)
    (hterm : ∀ r s, clash r s → ∃ k, terms r k ∧ terms s k) (hall : HasAll terms rows has) {row : Option R}
    (hcheck : ∀ r, row = some r → ∀ k, terms r k → ∀ j s, has k j → rows j = some s → clash r s → j = i) :
    Apart clash (Function.update rows i row) := by
  refine h.update hsymm fun r hr j s hs hclash => ?_
  obtain ⟨k, hkr, hks⟩ := hterm r s hclash
  exact hcheck r hr k hkr j s (hall j s k hs hks) hs hclash

end Apart

end ChiffonDB
