import Mathlib.Data.List.Count
import Mathlib.Data.List.Perm.Basic

/-!
# Products of lists

* `product` — one element of each list, in lexicographic order.
* `product_filter` — the product of filtered lists is a filtered product.
* `foldl_join` — **joining list after list enumerates the product**.
* `filter_map_perm_iff` — when two filters of a list map to the same multiset.
-/

set_option autoImplicit false

namespace ChiffonDB

variable {α β γ : Type}

/-- One element of each list. -/
def product : List (List α) → List (List α)
  | [] => [[]]
  | l :: ls => l.flatMap fun a => (product ls).map (a :: ·)

theorem mem_product {ls : List (List α)} {c : List α} :
    c ∈ product ls ↔ List.Forall₂ (· ∈ ·) c ls := by
  induction ls generalizing c with
  | nil => simp [product]
  | cons l ls ih =>
    cases c with
    | nil => simp [product]
    | cons a c => simp [product, ih]

/-- **The product of filtered lists is a filtered product.** -/
theorem product_filter (p : α → Bool) (ls : List (List α)) :
    product (ls.map (List.filter p)) = (product ls).filter (List.all · p) := by
  induction ls with
  | nil => rfl
  | cons l ls ih =>
    rw [List.map_cons, product, product, ih]
    induction l with
    | nil => rfl
    | cons a l ihl =>
      rw [List.flatMap_cons, List.filter_append, ← ihl, List.filter_map]
      cases ha : p a with
      | true =>
        rw [List.filter_cons_of_pos ha, List.flatMap_cons]
        have hfun : (fun c : List α => c.all p) ∘ (a :: ·) = fun c => c.all p := by
          funext c
          simp [ha]
        rw [hfun]
      | false =>
        have hnone : (product ls).filter ((fun c : List α => c.all p) ∘ (a :: ·)) = [] := by
          rw [List.filter_eq_nil_iff]
          intro c _
          simp [ha]
        rw [List.filter_cons_of_neg (by simp [ha]), hnone, List.map_nil, List.nil_append]

theorem product_map (f : α → β) (ls : List (List α)) :
    product (ls.map (List.map f)) = (product ls).map (List.map f) := by
  induction ls with
  | nil => rfl
  | cons l ls ih =>
    rw [List.map_cons, product, product, ih, List.flatMap_map, List.map_flatMap]
    congr 1
    funext a
    rw [List.map_map, List.map_map]
    rfl

/-- **Joining list after list enumerates the product.** -/
theorem foldl_join (f : γ → α → γ) (ls : List (List α)) (rows : List γ) :
    ls.foldl (fun rows l => rows.flatMap fun r => l.map (f r)) rows =
      rows.flatMap fun r => (product ls).map (List.foldl f r) := by
  induction ls generalizing rows with
  | nil => simp [product]
  | cons l ls ih =>
    rw [List.foldl_cons, ih, List.flatMap_assoc]
    congr 1
    funext r
    rw [product, List.map_flatMap, List.flatMap_map]
    congr 1
    funext a
    rw [List.map_map]
    rfl

section Perm

variable [DecidableEq β]

theorem count_filter_map (f : α → β) (p : α → Bool) (l : List α) (b : β) :
    ((l.filter p).map f).count b = l.countP fun a => p a && f a == b := by
  rw [List.count, List.countP_map, List.countP_filter]
  congr 1
  funext a
  exact Bool.and_comm ..

end Perm

/-- **Two filters, one of them on the images, map to the same multiset exactly if they agree.** -/
theorem filter_map_perm_iff (f : α → β) (p : α → Bool) (q : β → Bool) (l : List α) :
    ((l.filter p).map f).Perm ((l.filter (q ∘ f)).map f) ↔ ∀ a ∈ l, p a = q (f a) := by
  classical
  constructor
  · intro h a ha
    have hcount := h.count_eq (f a)
    rw [count_filter_map, count_filter_map] at hcount
    cases hq : q (f a) with
    | false =>
      -- nothing with this image passes on the right
      have hzero : (l.countP fun x => (q ∘ f) x && f x == f a) = 0 := by
        rw [List.countP_eq_zero]
        intro x _ hx
        obtain ⟨hx₁, hx₂⟩ := Bool.and_eq_true_iff.1 hx
        rw [Function.comp_apply, eq_of_beq hx₂, hq] at hx₁
        cases hx₁
      rw [hzero, List.countP_eq_zero] at hcount
      simpa using hcount a ha
    | true =>
      -- everything with this image passes on the right
      have hall : (l.countP fun x => (q ∘ f) x && f x == f a) = l.countP fun x => f x == f a := by
        refine List.countP_congr fun x _ => ?_
        constructor
        · intro hx
          exact (Bool.and_eq_true_iff.1 hx).2
        · intro hx
          refine Bool.and_eq_true_iff.2 ⟨?_, hx⟩
          rw [Function.comp_apply, eq_of_beq hx, hq]
      rw [hall] at hcount
      by_contra hp
      have hsplit : (l.countP fun x => f x == f a) =
          (l.countP fun x => p x && f x == f a) + l.countP fun x => !p x && f x == f a := by
        clear hcount hall h ha
        induction l with
        | nil => rfl
        | cons x l ih =>
          simp only [List.countP_cons, ih]
          cases p x <;> cases f x == f a <;> simp <;> omega
      have hpos : 0 < l.countP fun x => !p x && f x == f a :=
        List.countP_pos_iff.2 ⟨a, ha, by simp [Bool.eq_false_iff.2 hp]⟩
      omega
  · intro h
    rw [List.filter_congr (q := q ∘ f) h]

end ChiffonDB
