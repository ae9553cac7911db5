import Mathlib.Data.List.Nodup
import ChiffonDB.Lib.StableSort

/-!
# Sorting by several keys

* `sortBy_stable` — **a sort by a total preorder keeps the order of elements that tie**.
* `sortBy_sortBy` — a sort by a second key and then by a first one is a sort by both.
* `foldr_sortBy` — **one stable sort per key, the last key first, sorts lexicographically**.
-/

set_option autoImplicit false

namespace ChiffonDB

variable {α β : Type} {cmp c₁ c₂ : α → α → Ordering} {l : List α}

/-! ## Stability -/

theorem pair_sublist_or {a b : α} (hne : a ≠ b) (ha : a ∈ l) (hb : b ∈ l) :
    [a, b].Sublist l ∨ [b, a].Sublist l := by
  induction l with
  | nil => cases ha
  | cons c l ih =>
    rcases List.mem_cons.1 ha with rfl | ha'
    · exact Or.inl ((List.singleton_sublist.2 ((List.mem_cons.1 hb).resolve_left hne.symm)).cons_cons a)
    · rcases List.mem_cons.1 hb with rfl | hb'
      · exact Or.inr ((List.singleton_sublist.2 ha').cons_cons b)
      · exact (ih ha' hb').imp (·.cons c) (·.cons c)

theorem pair_sublist_asymm {a b : α} (hl : l.Nodup) (hab : [a, b].Sublist l) (hba : [b, a].Sublist l) : False := by
  induction l with
  | nil => cases hab
  | cons c l ih =>
    obtain ⟨hc, hl⟩ := List.nodup_cons.1 hl
    cases hab with
    | cons _ hab =>
      cases hba with
      | cons _ hba => exact ih hl hab hba
      | cons_cons _ hba => exact hc (hab.subset (by simp))
    | cons_cons _ hab =>
      cases hba with
      | cons _ hba => exact hc (hba.subset (by simp))
      | cons_cons _ hba => exact hc (hab.subset (by simp))

/-- **A sort keeps what holds between an element and every later one that ties with it.** -/
theorem sortBy_stable (h : PreorderOn cmp l) (hl : l.Nodup) {S : α → α → Prop} (hS : l.Pairwise S) :
    (sortBy cmp l).Pairwise fun a b => cmp a b = .lt ∨ cmp a b = .eq ∧ S a b := by
  obtain ⟨le, htrans, htotal, hle, hsort⟩ := h.exists_le
  rw [hsort, List.pairwise_iff_forall_sublist]
  intro a b hab
  have hout : (l.mergeSort le).Nodup := (List.mergeSort_perm l le).nodup_iff.2 hl
  have ha : a ∈ l := List.mem_mergeSort.1 (hab.subset (by simp))
  have hb : b ∈ l := List.mem_mergeSort.1 (hab.subset (by simp))
  have hne : a ≠ b := List.pairwise_iff_forall_sublist.1 hout hab
  have hsorted := List.pairwise_iff_forall_sublist.1 (List.pairwise_mergeSort htrans htotal l) hab
  rw [hle a ha b hb] at hsorted
  cases hcmp : cmp a b with
  | lt => exact Or.inl rfl
  | gt => simp [hcmp] at hsorted
  | eq =>
    refine Or.inr ⟨rfl, ?_⟩
    rcases pair_sublist_or hne ha hb with hsub | hsub
    · exact List.pairwise_iff_forall_sublist.1 hS hsub
    · have hba : le b a = true := by
        rw [hle b hb a ha, h.swap a ha b hb, hcmp]
        rfl
      exact absurd (List.pair_sublist_mergeSort htrans htotal hba hsub) fun hsub' => pair_sublist_asymm hout hab hsub'

/-! ## Two keys -/

theorem then_ne_gt {o p : Ordering} : o.then p ≠ .gt ↔ o ≠ .gt ∧ (o = .eq → p ≠ .gt) := by
  cases o <;> simp

theorem PreorderOn.then (h₁ : PreorderOn c₁ l) (h₂ : PreorderOn c₂ l) :
    PreorderOn (fun a b => (c₁ a b).then (c₂ a b)) l where
  swap a ha b hb := by
    rw [h₁.swap a ha b hb, h₂.swap a ha b hb, Ordering.swap_then]
  trans a ha b hb c hc hab hbc := by
    obtain ⟨hab₁, hab₂⟩ := then_ne_gt.1 hab
    obtain ⟨hbc₁, hbc₂⟩ := then_ne_gt.1 hbc
    refine then_ne_gt.2 ⟨h₁.trans a ha b hb c hc hab₁ hbc₁, fun hac => ?_⟩
    have hca : c₁ c a = .eq := by
      rw [h₁.swap a ha c hc, hac]
      rfl
    have hba := h₁.trans b hb c hc a ha hbc₁ (by rw [hca]; decide)
    have hcb := h₁.trans c hc a ha b hb (by rw [hca]; decide) hab₁
    rw [h₁.swap a ha b hb] at hba
    rw [h₁.swap b hb c hc] at hcb
    have htie : ∀ o : Ordering, o ≠ .gt → o.swap ≠ .gt → o = .eq := by decide
    exact h₂.trans a ha b hb c hc (hab₂ (htie _ hab₁ hba)) (hbc₂ (htie _ hbc₁ hcb))

/-- The elements of a list with their positions. -/
theorem sortBy_zipIdx (cmp : α → α → Ordering) (l : List α) :
    (sortBy (fun a b : α × ℕ => cmp a.1 b.1) l.zipIdx).map Prod.fst = sortBy cmp l := by
  rw [map_sortBy (d := cmp) fun _ _ _ _ => rfl, List.zipIdx_map_fst]

theorem PreorderOn.zipIdx (h : PreorderOn cmp l) : PreorderOn (fun a b : α × ℕ => cmp a.1 b.1) l.zipIdx where
  swap _ ha _ hb := h.swap _ (List.fst_mem_of_mem_zipIdx ha) _ (List.fst_mem_of_mem_zipIdx hb)
  trans _ ha _ hb _ hc := h.trans _ (List.fst_mem_of_mem_zipIdx ha) _ (List.fst_mem_of_mem_zipIdx hb) _
    (List.fst_mem_of_mem_zipIdx hc)

theorem zipIdx_ordered (l : List α) : l.zipIdx.Nodup ∧ l.zipIdx.Pairwise fun a b => a.2 < b.2 := by
  have hlt : l.zipIdx.Pairwise fun a b => a.2 < b.2 := by
    rw [← List.pairwise_map, List.zipIdx_map_snd]
    exact List.pairwise_lt_range'
  exact ⟨hlt.imp fun h he => absurd (congrArg Prod.snd he) (Nat.ne_of_lt h), hlt⟩

/-- A sort by two keys where equal elements are told apart. -/
theorem sortBy_sortBy_of_order (h₁ : PreorderOn c₁ l) (h₂ : PreorderOn c₂ l) (hl : l.Nodup) {S : α → α → Prop}
    (hS : l.Pairwise S) (hasymm : ∀ a b, S a b → ¬ S b a) :
    sortBy c₁ (sortBy c₂ l) = sortBy (fun a b => (c₁ a b).then (c₂ a b)) l := by
  have hmem : ∀ {c : α → α → Ordering} {l : List α} {a : α}, a ∈ sortBy c l ↔ a ∈ l := (sortBy_perm _ _).mem_iff
  have hperm₂ := sortBy_perm c₂ l
  have hboth := sortBy_stable (h₁.mono fun a ha => hmem.1 ha) (hperm₂.nodup_iff.2 hl) (sortBy_stable h₂ hl hS)
  have hthen := sortBy_stable (h₁.then h₂) hl hS
  -- both are in the order of the keys, and of the list where these tie
  have hthen' : (sortBy (fun a b => (c₁ a b).then (c₂ a b)) l).Pairwise fun a b =>
      c₁ a b = .lt ∨ c₁ a b = .eq ∧ (c₂ a b = .lt ∨ c₂ a b = .eq ∧ S a b) := by
    refine hthen.imp fun {a b} hab => ?_
    cases h : c₁ a b <;> simp [h] at hab ⊢
    exact hab
  refine List.Perm.eq_of_pairwise (fun a b ha hb hab hba => ?_) hboth hthen'
    (((sortBy_perm _ _).trans hperm₂).trans (sortBy_perm _ l).symm)
  have ha' : a ∈ l := hmem.1 (hmem.1 ha)
  have hb' : b ∈ l := hmem.1 hb
  rw [h₁.swap a ha' b hb', h₂.swap a ha' b hb'] at hba
  exfalso
  cases h : c₁ a b <;> cases h' : c₂ a b <;> simp [h, h'] at hab hba
  exact hasymm a b hab hba

/-- **A sort by a second key and then by a first one is a sort by both.** -/
theorem sortBy_sortBy (h₁ : PreorderOn c₁ l) (h₂ : PreorderOn c₂ l) :
    sortBy c₁ (sortBy c₂ l) = sortBy (fun a b => (c₁ a b).then (c₂ a b)) l := by
  obtain ⟨hnodup, hlt⟩ := zipIdx_ordered l
  have htagged := sortBy_sortBy_of_order h₁.zipIdx h₂.zipIdx hnodup hlt fun a b => Nat.lt_asymm
  have hfst := congrArg (List.map Prod.fst) htagged
  rw [map_sortBy (d := c₁) fun _ _ _ _ => rfl, sortBy_zipIdx] at hfst
  rw [hfst, map_sortBy (d := fun a b => (c₁ a b).then (c₂ a b)) fun _ _ _ _ => rfl, List.zipIdx_map_fst]

/-! ## Any number of keys -/

/-- The first comparator that does not tie decides. -/
def lexicographic (cmps : List (α → α → Ordering)) (a b : α) : Ordering :=
  cmps.foldr (fun cmp o => (cmp a b).then o) .eq

theorem PreorderOn.lexicographic {cmps : List (α → α → Ordering)} (h : ∀ cmp ∈ cmps, PreorderOn cmp l) :
    PreorderOn (lexicographic cmps) l := by
  induction cmps with
  | nil => exact ⟨fun _ _ _ _ => rfl, fun _ _ _ _ _ _ _ _ => nofun⟩
  | cons cmp cmps ih =>
    obtain ⟨hc, hcs⟩ := List.forall_mem_cons.1 h
    exact hc.then (ih hcs)

/-- **One stable sort per key, the last key first, sorts lexicographically.** -/
theorem foldr_sortBy {cmps : List (α → α → Ordering)} (h : ∀ cmp ∈ cmps, PreorderOn cmp l) :
    cmps.foldr (fun cmp l => sortBy cmp l) l = sortBy (lexicographic cmps) l := by
  induction cmps with
  | nil => exact (List.mergeSort_of_pairwise (List.pairwise_of_forall fun _ _ => rfl)).symm
  | cons cmp cmps ih =>
    obtain ⟨hc, hcs⟩ := List.forall_mem_cons.1 h
    rw [List.foldr_cons, ih hcs, sortBy_sortBy hc (PreorderOn.lexicographic hcs)]
    rfl

end ChiffonDB
