import Mathlib.Data.List.Basic
import Mathlib.Data.List.ReduceOption
import Mathlib.Order.Basic

/-!
# Sorting by a comparator

* `PreorderOn` — a comparator that is a total preorder of the elements of a list, which is what a sort relies on.
* `sortBy` — the stable sort; `PreorderOn.sorted` — **it leaves no element in front of a smaller one**.
* `Sorts` — both at once.
* `noneFirst` — a comparator with missing elements in front.
* `byKind` — a comparator that orders the elements of each kind and ties all others.
* `preorderOn_byKind` — **it is a total preorder exactly of a list of one kind, or without two elements of one kind
  that differ**.
-/

set_option autoImplicit false

namespace ChiffonDB

variable {α β κ : Type}

/-- The comparator is a total preorder of the elements of the list. -/
structure PreorderOn (cmp : α → α → Ordering) (l : List α) : Prop where
  swap : ∀ a ∈ l, ∀ b ∈ l, cmp b a = (cmp a b).swap
  trans : ∀ a ∈ l, ∀ b ∈ l, ∀ c ∈ l, cmp a b ≠ .gt → cmp b c ≠ .gt → cmp a c ≠ .gt

/-- The stable sort of a list by a comparator. -/
def sortBy (cmp : α → α → Ordering) (l : List α) : List α := l.mergeSort fun a b => cmp a b != .gt

theorem sortBy_perm (cmp : α → α → Ordering) (l : List α) : (sortBy cmp l).Perm l := List.mergeSort_perm l _

/-- A sort looks at its elements only through the comparator. -/
theorem map_sortBy {c : α → α → Ordering} {d : β → β → Ordering} {f : α → β} {l : List α}
    (h : ∀ a ∈ l, ∀ b ∈ l, c a b = d (f a) (f b)) : (sortBy c l).map f = sortBy d (l.map f) :=
  List.map_mergeSort fun a ha b hb => by rw [h a ha b hb]

namespace PreorderOn

variable {cmp cmp' : α → α → Ordering} {l l' : List α}

theorem refl (h : PreorderOn cmp l) {a : α} (ha : a ∈ l) : cmp a a = .eq := by
  have := h.swap a ha a ha
  cases hc : cmp a a with
  | lt => rw [hc] at this; cases this
  | eq => rfl
  | gt => rw [hc] at this; cases this

/-- Ties are transitive. -/
theorem tie_trans (h : PreorderOn cmp l) {a b c : α} (ha : a ∈ l) (hb : b ∈ l) (hc : c ∈ l) (hab : cmp a b = .eq)
    (hbc : cmp b c = .eq) : cmp a c = .eq := by
  have hac := h.trans a ha b hb c hc (by rw [hab]; decide) (by rw [hbc]; decide)
  have hba : cmp b a = .eq := by rw [h.swap a ha b hb, hab]; rfl
  have hcb : cmp c b = .eq := by rw [h.swap b hb c hc, hbc]; rfl
  have hca := h.trans c hc b hb a ha (by rw [hcb]; decide) (by rw [hba]; decide)
  rw [h.swap a ha c hc] at hca
  cases hcmp : cmp a c with
  | lt => rw [hcmp] at hca; exact absurd rfl hca
  | eq => rfl
  | gt => exact absurd hcmp hac

theorem lt_trans (h : PreorderOn cmp l) {a b c : α} (ha : a ∈ l) (hb : b ∈ l) (hc : c ∈ l) (hab : cmp a b = .lt)
    (hbc : cmp b c = .lt) : cmp a c = .lt := by
  have hac := h.trans a ha b hb c hc (by rw [hab]; decide) (by rw [hbc]; decide)
  have hba : cmp b a = .gt := by rw [h.swap a ha b hb, hab]; rfl
  have hcb : cmp c b = .gt := by rw [h.swap b hb c hc, hbc]; rfl
  cases hcmp : cmp a c with
  | lt => rfl
  | eq =>
    have hca : cmp c a = .eq := by rw [h.swap a ha c hc, hcmp]; rfl
    exact absurd hcb (h.trans c hc a ha b hb (by rw [hca]; decide) (by rw [hab]; decide))
  | gt => exact absurd hcmp hac

theorem congr (h : PreorderOn cmp l) (hc : ∀ a ∈ l, ∀ b ∈ l, cmp' a b = cmp a b) : PreorderOn cmp' l where
  swap a ha b hb := by rw [hc b hb a ha, hc a ha b hb, h.swap a ha b hb]
  trans a ha b hb c hc' := by
    rw [hc a ha b hb, hc b hb c hc', hc a ha c hc']
    exact h.trans a ha b hb c hc'

theorem mono (h : PreorderOn cmp l) (hl : ∀ a ∈ l', a ∈ l) : PreorderOn cmp l' where
  swap a ha b hb := h.swap a (hl a ha) b (hl b hb)
  trans a ha b hb c hc := h.trans a (hl a ha) b (hl b hb) c (hl c hc)

/-- The images of the elements of a list. -/
theorem image {cmp : β → β → Ordering} {f : α → β} {l : List α} {l' : List β}
    (h : PreorderOn (fun a b => cmp (f a) (f b)) l) (hl : ∀ b ∈ l', ∃ a ∈ l, f a = b) : PreorderOn cmp l' where
  swap a ha b hb := by
    obtain ⟨x, hx, rfl⟩ := hl a ha
    obtain ⟨y, hy, rfl⟩ := hl b hb
    exact h.swap x hx y hy
  trans a ha b hb c hc := by
    obtain ⟨x, hx, rfl⟩ := hl a ha
    obtain ⟨y, hy, rfl⟩ := hl b hb
    obtain ⟨z, hz, rfl⟩ := hl c hc
    exact h.trans x hx y hy z hz

/-- The other direction. -/
theorem reverse (h : PreorderOn cmp l) : PreorderOn (fun a b => (cmp a b).swap) l where
  swap a ha b hb := by rw [h.swap a ha b hb]
  trans a ha b hb c hc hab hbc := by
    rw [← h.swap a ha b hb] at hab
    rw [← h.swap b hb c hc] at hbc
    rw [← h.swap a ha c hc]
    exact h.trans c hc b hb a ha hbc hab

theorem reverse_iff : PreorderOn (fun a b => (cmp a b).swap) l ↔ PreorderOn cmp l :=
  ⟨fun h => h.reverse.congr fun _ _ _ _ => Ordering.swap_swap.symm, reverse⟩

/-- A total preorder of the elements of a list is one of all elements, those outside of it last. -/
theorem exists_le (h : PreorderOn cmp l) : ∃ le : α → α → Bool,
    (∀ a b c, le a b = true → le b c = true → le a c = true) ∧ (∀ a b, (le a b || le b a) = true) ∧
      (∀ a ∈ l, ∀ b ∈ l, le a b = (cmp a b != .gt)) ∧ sortBy cmp l = l.mergeSort le := by
  classical
  let le : α → α → Bool := fun a b => if a ∈ l then (if b ∈ l then cmp a b != .gt else true) else decide (b ∉ l)
  have hle : ∀ a ∈ l, ∀ b ∈ l, le a b = (cmp a b != .gt) := by
    intro a ha b hb
    simp only [le, ha, hb, if_true]
  refine ⟨le, ?_, ?_, hle, ?_⟩
  · intro a b c
    dsimp only [le]
    by_cases ha : a ∈ l <;> by_cases hb : b ∈ l <;> by_cases hc : c ∈ l <;> simp only [ha, hb, hc] <;> simp
    exact h.trans a ha b hb c hc
  · intro a b
    dsimp only [le]
    by_cases ha : a ∈ l <;> by_cases hb : b ∈ l <;> simp only [ha, hb] <;> simp
    rw [h.swap a ha b hb]
    cases cmp a b <;> simp
  · have hid := List.map_mergeSort (f := id) (l := l) fun a ha b hb => (hle a ha b hb).symm
    rw [List.map_id, List.map_id] at hid
    exact hid

/-- **Behind a sort no element stands in front of a smaller one.** -/
theorem sorted (h : PreorderOn cmp l) : (sortBy cmp l).Pairwise fun a b => cmp b a ≠ .lt := by
  obtain ⟨le, htrans, htotal, hle, hsort⟩ := h.exists_le
  rw [hsort]
  refine (List.pairwise_mergeSort htrans htotal l).imp_of_mem fun {a b} ha hb hab => ?_
  have ha' := List.mem_mergeSort.1 ha
  have hb' := List.mem_mergeSort.1 hb
  rw [hle a ha' b hb'] at hab
  rw [h.swap a ha' b hb']
  cases hcmp : cmp a b with
  | gt => simp [hcmp] at hab
  | lt => nofun
  | eq => nofun

end PreorderOn

/-- What a sort promises: the comparator is a total preorder of the elements, and the outcome is a permutation of
    them in which no element stands in front of a smaller one, at any distance. -/
structure Sorts (cmp : α → α → Ordering) (l : List α) : Prop where
  preorder : PreorderOn cmp l
  perm : (sortBy cmp l).Perm l
  sorted : (sortBy cmp l).Pairwise fun a b => cmp b a ≠ .lt

theorem sorts_iff {cmp : α → α → Ordering} {l : List α} : Sorts cmp l ↔ PreorderOn cmp l :=
  ⟨Sorts.preorder, fun h => ⟨h, sortBy_perm cmp l, h.sorted⟩⟩

theorem preorderOn_compare [Ord β] [Std.TransOrd β] (f : α → β) (l : List α) :
    PreorderOn (fun a b => compare (f a) (f b)) l where
  swap _ _ _ _ := Std.OrientedCmp.eq_swap
  trans _ _ _ _ _ _ hab hbc := Ordering.isLE_iff_ne_gt.1
    (Std.TransCmp.isLE_trans (Ordering.isLE_iff_ne_gt.2 hab) (Ordering.isLE_iff_ne_gt.2 hbc))

/-! ## Missing elements -/

/-- A missing element is less than every other. -/
def noneFirst (cmp : α → α → Ordering) : Option α → Option α → Ordering
  | none, none => .eq
  | none, some _ => .lt
  | some _, none => .gt
  | some a, some b => cmp a b

theorem preorderOn_noneFirst {cmp : α → α → Ordering} {l : List (Option α)} :
    PreorderOn (noneFirst cmp) l ↔ PreorderOn cmp l.reduceOption := by
  constructor
  · intro h
    have hmem : ∀ a ∈ l.reduceOption, some a ∈ l := fun a ha => List.reduceOption_mem_iff.1 ha
    exact ⟨fun a ha b hb => h.swap _ (hmem a ha) _ (hmem b hb), fun a ha b hb c hc =>
      h.trans _ (hmem a ha) _ (hmem b hb) _ (hmem c hc)⟩
  · intro h
    have hmem : ∀ a, some a ∈ l → a ∈ l.reduceOption := fun a ha => List.reduceOption_mem_iff.2 ha
    refine ⟨fun a ha b hb => ?_, fun a ha b hb c hc hab hbc => ?_⟩
    · cases a with
      | none => cases b <;> rfl
      | some a =>
        cases b with
        | none => rfl
        | some b => exact h.swap a (hmem a ha) b (hmem b hb)
    · cases a with
      | none => cases c <;> simp [noneFirst]
      | some a =>
        cases b with
        | none => exact absurd rfl hab
        | some b =>
          cases c with
          | none => exact absurd rfl hbc
          | some c => exact h.trans a (hmem a ha) b (hmem b hb) c (hmem c hc) hab hbc

/-! ## Comparators by kind -/

variable [DecidableEq κ]

/-- Elements of one kind are ordered; all others tie. -/
def byKind (kind : α → Option κ) (ord : α → α → Ordering) (a b : α) : Ordering :=
  if kind a = kind b ∧ kind a ≠ none then ord a b else .eq

variable {kind : α → Option κ} {ord : α → α → Ordering} {l : List α}

/-- **A third element that ties with two of one kind makes them tie.** -/
theorem preorderOn_byKind (hord : ∀ k, PreorderOn ord (l.filter fun a => kind a = some k)) :
    PreorderOn (byKind kind ord) l ↔ (∃ k, ∀ a ∈ l, kind a = some k) ∨
      ∀ a ∈ l, ∀ b ∈ l, kind a = kind b → kind a ≠ none → ord a b = .eq := by
  constructor
  · intro h
    by_contra hnot
    push Not at hnot
    obtain ⟨hkinds, a, ha, b, hb, hab, hsome, hne⟩ := hnot
    obtain ⟨k, hk⟩ := Option.ne_none_iff_exists'.1 hsome
    obtain ⟨c, hc, hck⟩ := hkinds k
    have hac : byKind kind ord a c = .eq := if_neg fun hac => hck (hac.1.symm.trans hk)
    have hcb : byKind kind ord c b = .eq := if_neg fun hcb => hck (hcb.1.trans (hab.symm.trans hk))
    have htie := h.tie_trans ha hc hb hac hcb
    rw [byKind, if_pos ⟨hab, hsome⟩] at htie
    exact hne htie
  · rintro (⟨k, hk⟩ | hflat)
    · have hall : ∀ a ∈ l, a ∈ l.filter fun a => kind a = some k := fun a ha =>
        List.mem_filter.2 ⟨ha, decide_eq_true (hk a ha)⟩
      refine ((hord k).mono hall).congr fun a ha b hb => if_pos ⟨?_, ?_⟩
      · rw [hk a ha, hk b hb]
      · rw [hk a ha]
        exact Option.some_ne_none k
    · have heq : ∀ a ∈ l, ∀ b ∈ l, byKind kind ord a b = .eq := by
        intro a ha b hb
        unfold byKind
        split
        · rename_i h
          exact hflat a ha b hb h.1 h.2
        · rfl
      exact ⟨fun a ha b hb => by rw [heq b hb a ha, heq a ha b hb]; rfl,
        fun a ha b hb c hc _ _ => by rw [heq a ha c hc]; decide⟩

end ChiffonDB
