import Mathlib.Data.Finset.Prod
import Mathlib.Order.Bounds.Basic

/-!
# Slabs

Pages with the same number of slots, and a page where the search for a free slot starts.

* `Slab.Step` — a free slot of the first page with room is taken, a page is added where no page has room, and a
  slot is given back; the search starts no later than at the page that has room again.
* `Slab.Tight` — the pages before the start of the search are full, and the pages are as few as can hold the most
  slots that were in use together.
* `Slab.Tight.step` — **every step keeps a slab tight**.
-/

set_option autoImplicit false

namespace ChiffonDB

/-- The slots in use on each page, and the page where a search starts. -/
structure Slab where
  pages : List (Finset ℕ)
  hint : ℕ

inductive SlabCall where
  | alloc (page slot : ℕ)
  | free (page slot : ℕ)

/-- The slots in use, and the most of them that were in use together. -/
structure SlabUse where
  live : List (ℕ × ℕ)
  peak : ℕ

def SlabUse.call (u : SlabUse) : SlabCall → SlabUse
  | .alloc page slot => ⟨(page, slot) :: u.live, max u.peak (u.live.length + 1)⟩
  | .free page slot => ⟨u.live.erase (page, slot), u.peak⟩

namespace Slab

variable {n : ℕ} {s s' : Slab} {u : SlabUse}

/-- Page `i` has `n` slots, all of them in use. -/
def Full (n : ℕ) (s : Slab) (i : ℕ) : Prop := s.pages[i]? = some (Finset.range n)

inductive Step (n : ℕ) (s : Slab) : SlabCall → Slab → Prop
  | fill {i j : ℕ} {p : Finset ℕ} (start : s.hint ≤ i) (skipped : ∀ k, s.hint ≤ k → k < i → s.Full n k)
      (page : s.pages[i]? = some p) (fresh : j ∉ p) (fits : j < n) :
      Step n s (.alloc i j) ⟨s.pages.set i (insert j p), i⟩
  | grow {j : ℕ} (skipped : ∀ k, s.hint ≤ k → k < s.pages.length → s.Full n k) (fits : j < n) :
      Step n s (.alloc s.pages.length j) ⟨s.pages ++ [{j}], s.pages.length⟩
  | free {i j : ℕ} {p : Finset ℕ} (page : s.pages[i]? = some p) (used : j ∈ p) :
      Step n s (.free i j) ⟨s.pages.set i (p.erase j), min i s.hint⟩

/-- Slot `j` of page `i` is in use. -/
def Used (s : Slab) (x : ℕ × ℕ) : Prop := ∃ p, s.pages[x.1]? = some p ∧ x.2 ∈ p

/-- `live` lists the slots in use. -/
structure Occupied (n : ℕ) (s : Slab) (live : List (ℕ × ℕ)) : Prop where
  fits : ∀ p ∈ s.pages, p ⊆ Finset.range n
  nodup : live.Nodup
  mem : ∀ x, x ∈ live ↔ s.Used x

structure Tight (n : ℕ) (s : Slab) (u : SlabUse) : Prop extends Occupied n s u.live where
  full : ∀ k < s.hint, s.Full n k
  peak : u.live.length ≤ u.peak
  least : IsLeast {k | u.peak ≤ k * n} s.pages.length

/-! ## Counting the slots in use -/

namespace Occupied

variable {live : List (ℕ × ℕ)}

theorem subset (h : Occupied n s live) :
    live.toFinset ⊆ Finset.range s.pages.length ×ˢ Finset.range n := by
  intro x hx
  obtain ⟨p, hp, hj⟩ := (h.mem x).1 (List.mem_toFinset.1 hx)
  obtain ⟨hlt, -⟩ := List.getElem?_eq_some_iff.1 hp
  exact Finset.mem_product.2 ⟨Finset.mem_range.2 hlt, h.fits p (List.mem_of_getElem? hp) hj⟩

theorem length_le (h : Occupied n s live) : live.length ≤ s.pages.length * n := by
  have hcard := Finset.card_le_card h.subset
  rwa [List.toFinset_card_of_nodup h.nodup, Finset.card_product, Finset.card_range, Finset.card_range] at hcard

/-- Where every page is full, every slot is in use. -/
theorem length_eq (h : Occupied n s live) (hfull : ∀ k < s.pages.length, s.Full n k) :
    live.length = s.pages.length * n := by
  have heq : live.toFinset = Finset.range s.pages.length ×ˢ Finset.range n := by
    refine h.subset.antisymm fun x hx => ?_
    obtain ⟨hi, hj⟩ := Finset.mem_product.1 hx
    exact List.mem_toFinset.2 ((h.mem x).2 ⟨_, hfull _ (Finset.mem_range.1 hi), hj⟩)
  have hcard := congrArg Finset.card heq
  rwa [List.toFinset_card_of_nodup h.nodup, Finset.card_product, Finset.card_range, Finset.card_range] at hcard

end Occupied

/-! ## What a step does to the slots in use -/

theorem used_set {i : ℕ} {p : Finset ℕ} (hi : i < s.pages.length) (hint : ℕ) (x : ℕ × ℕ) :
    Used ⟨s.pages.set i p, hint⟩ x ↔ (x.1 = i ∧ x.2 ∈ p) ∨ (x.1 ≠ i ∧ s.Used x) := by
  unfold Used
  dsimp only
  rw [List.getElem?_set]
  by_cases hx : i = x.1
  · simp [← hx, hi]
  · simp [hx, Ne.symm hx]

theorem used_append (p : Finset ℕ) (hint : ℕ) (x : ℕ × ℕ) :
    Used ⟨s.pages ++ [p], hint⟩ x ↔ (x.1 = s.pages.length ∧ x.2 ∈ p) ∨ s.Used x := by
  unfold Used
  dsimp only
  rcases Nat.lt_trichotomy x.1 s.pages.length with hx | hx | hx
  · rw [List.getElem?_append_left hx]
    simp [Nat.ne_of_lt hx]
  · rw [hx, List.getElem?_append_right (Nat.le_refl _)]
    simp
  · rw [List.getElem?_eq_none (by simp; omega), List.getElem?_eq_none (Nat.le_of_lt hx)]
    simp [Nat.ne_of_gt hx]

theorem fits_set {i : ℕ} {p : Finset ℕ} (h : ∀ q ∈ s.pages, q ⊆ Finset.range n) (hp : p ⊆ Finset.range n) :
    ∀ q ∈ s.pages.set i p, q ⊆ Finset.range n := by
  intro q hq
  rcases List.mem_or_eq_of_mem_set hq with hq | rfl
  · exact h q hq
  · exact hp

/-- A slot that is allocated was free. -/
theorem Step.fresh {i j : ℕ} (h : Step n s (.alloc i j) s') : ¬ s.Used (i, j) := by
  rintro ⟨p, hp, hj⟩
  cases h with
  | fill hi hskip hpage hfresh hn =>
    rw [hpage] at hp
    cases hp
    exact hfresh hj
  | grow hskip hn =>
    rw [List.getElem?_eq_none (Nat.le_refl _)] at hp
    cases hp

/-- A slot that is allocated is there. -/
theorem Step.bounds {i j : ℕ} (h : Step n s (.alloc i j) s') : i < s'.pages.length ∧ j < n := by
  cases h with
  | fill hi hskip hpage hfresh hn =>
    rw [List.length_set]
    exact ⟨(List.getElem?_eq_some_iff.1 hpage).1, hn⟩
  | grow hskip hn =>
    rw [List.length_append]
    exact ⟨Nat.lt_succ_self _, hn⟩

/-- A page is added only where every page from the hint on is full. -/
theorem Step.grown {i j : ℕ} (h : Step n s (.alloc i j) s') : s'.pages.length = s.pages.length ∨
    s'.pages.length = s.pages.length + 1 ∧ ∀ k, s.hint ≤ k → k < s.pages.length → s.Full n k := by
  cases h with
  | fill hi hskip hpage hfresh hn => exact .inl List.length_set
  | grow hskip hn => exact .inr ⟨List.length_append, hskip⟩

theorem Occupied.step {c : SlabCall} (h : Occupied n s u.live) (hs : Step n s c s') :
    Occupied n s' (u.call c).live := by
  cases hs with
  | @fill i j p hi hskip hpage hfresh hn =>
    obtain ⟨hlt, -⟩ := List.getElem?_eq_some_iff.1 hpage
    have hunused : (i, j) ∉ u.live := fun hmem => (Step.fill hi hskip hpage hfresh hn).fresh ((h.mem _).1 hmem)
    refine ⟨fits_set h.fits ?_, List.nodup_cons.2 ⟨hunused, h.nodup⟩, fun x => ?_⟩
    · exact Finset.insert_subset (Finset.mem_range.2 hn) (h.fits p (List.mem_of_getElem? hpage))
    · obtain ⟨a, b⟩ := x
      rw [used_set hlt, SlabUse.call, List.mem_cons, h.mem, Prod.mk.injEq]
      by_cases ha : a = i
      · subst ha
        simp [Used, hpage]
      · simp [ha]
  | @grow j hskip hn =>
    have hunused : (s.pages.length, j) ∉ u.live := fun hmem => (Step.grow hskip hn).fresh ((h.mem _).1 hmem)
    refine ⟨fun q hq => ?_, List.nodup_cons.2 ⟨hunused, h.nodup⟩, fun x => ?_⟩
    · rcases List.mem_append.1 hq with hq | hq
      · exact h.fits q hq
      · rw [List.mem_singleton.1 hq]
        exact Finset.singleton_subset_iff.2 (Finset.mem_range.2 hn)
    · obtain ⟨a, b⟩ := x
      rw [used_append, SlabUse.call, List.mem_cons, h.mem, Prod.mk.injEq, Finset.mem_singleton]
  | @free i j p hpage hused =>
    obtain ⟨hlt, -⟩ := List.getElem?_eq_some_iff.1 hpage
    refine ⟨fits_set h.fits ?_, h.nodup.erase _, fun x => ?_⟩
    · exact (Finset.erase_subset _ _).trans (h.fits p (List.mem_of_getElem? hpage))
    · obtain ⟨a, b⟩ := x
      rw [used_set hlt, SlabUse.call, h.nodup.mem_erase_iff, h.mem, ne_eq, Prod.mk.injEq]
      by_cases ha : a = i
      · subst ha
        simp [Used, hpage]
      · simp [ha]

/-! ## What a step does to a tight slab -/

theorem Tight.new (n : ℕ) : Tight n ⟨[], 0⟩ ⟨[], 0⟩ where
  fits := by simp
  nodup := List.nodup_nil
  mem x := by simp [Used]
  full k hk := absurd hk (Nat.not_lt_zero k)
  peak := Nat.le_refl _
  least := ⟨Nat.zero_le _, fun k _ => Nat.zero_le k⟩

/-- No page has room when the search comes to nothing. -/
theorem Tight.all_full (h : Tight n s u) (hskip : ∀ k, s.hint ≤ k → k < s.pages.length → s.Full n k) :
    ∀ k < s.pages.length, s.Full n k := by
  intro k hk
  by_cases hh : k < s.hint
  · exact h.full k hh
  · exact hskip k (Nat.le_of_not_lt hh) hk

/-- A page that is changed behind the full ones leaves them full. -/
theorem full_set {i k : ℕ} {p : Finset ℕ} {hint : ℕ} (hk : k < i) (h : s.Full n k) :
    Full n ⟨s.pages.set i p, hint⟩ k := by
  unfold Full
  rw [List.getElem?_set_ne (Nat.ne_of_gt hk)]
  exact h

theorem Tight.step {c : SlabCall} (h : Tight n s u) (hs : Step n s c s') : Tight n s' (u.call c) := by
  have hocc := h.toOccupied.step hs
  refine ⟨hocc, ?_, ?_, ?_⟩
  · cases hs with
    | fill hi hskip hpage hfresh hn =>
      intro k hk
      refine full_set hk ?_
      by_cases hh : k < s.hint
      · exact h.full k hh
      · exact hskip k (Nat.le_of_not_lt hh) hk
    | grow hskip hn =>
      intro k hk
      unfold Full
      rw [List.getElem?_append_left hk]
      exact h.all_full hskip k hk
    | free hpage hused =>
      intro k hk
      exact full_set (Nat.lt_of_lt_of_le hk (Nat.min_le_left _ _))
        (h.full k (Nat.lt_of_lt_of_le hk (Nat.min_le_right _ _)))
  · cases hs with
    | fill | grow => exact Nat.le_max_right _ _
    | free => exact Nat.le_trans List.length_erase_le h.peak
  · obtain ⟨hcan, hleast⟩ := h.least
    have hroom := hocc.length_le
    cases hs with
    | fill =>
      rw [List.length_set] at hroom ⊢
      exact ⟨max_le hcan hroom, fun k hk => hleast (Nat.le_trans (Nat.le_max_left _ _) hk)⟩
    | @grow j hskip hn =>
      -- the slots in use are all the slots there were, so no fewer pages hold one more
      have hall := h.toOccupied.length_eq (h.all_full hskip)
      have hpeak : u.peak = s.pages.length * n := Nat.le_antisymm hcan (hall ▸ h.peak)
      have hmax : (u.call (.alloc s.pages.length j)).peak = s.pages.length * n + 1 := by
        show max u.peak (u.live.length + 1) = _
        rw [hpeak, hall]
        exact Nat.max_eq_right (Nat.le_succ _)
      refine ⟨?_, fun k hk => ?_⟩
      · show (u.call _).peak ≤ _
        rw [hmax, List.length_append, List.length_singleton, Nat.add_mul, Nat.one_mul]
        omega
      · change (u.call _).peak ≤ k * n at hk
        rw [hmax] at hk
        rw [List.length_append, List.length_singleton]
        exact Nat.lt_of_mul_lt_mul_right (Nat.lt_of_succ_le hk)
    | free =>
      rw [List.length_set]
      exact ⟨hcan, hleast⟩

end Slab

end ChiffonDB
