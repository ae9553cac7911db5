import Mathlib.Data.List.Basic

/-!
# Intrusive doubly linked lists

`DLinked prev next l` says that the pointer maps `prev` and `next` thread exactly the nodes of
`l`, in that order.  A node's pointers are read off every way of cutting `l` at it, so unlinking
and appending need no induction.

* `DLinked.unlink` — joining the neighbours of a node removes it.
* `DLinked.pushBack` — a fresh node behind the last one.
-/

set_option autoImplicit false

variable {ν : Type}

/-- The pointer maps thread the nodes of `l` in order; `none` ends the list on either side. -/
structure DLinked (prev next : ν → Option ν) (l : List ν) : Prop where
  prev : ∀ a x b, l = a ++ x :: b → prev x = a.getLast?
  next : ∀ a x b, l = a ++ x :: b → next x = b.head?

namespace DLinked

theorem nil (prev next : ν → Option ν) : DLinked prev next [] where
  prev a x b h := by simp at h
  next a x b h := by simp at h

/-- A node with a successor is not the last one. -/
theorem getLast?_ne {a c : List ν} {y : ν} (hnd : (a ++ y :: c).Nodup) (hc : c ≠ []) :
    (a ++ y :: c).getLast? ≠ some y := by
  rw [List.getLast?_append_of_ne_nil _ (by simp), List.getLast?_cons_of_ne_nil hc]
  intro hl
  exact (List.nodup_cons.1 (List.nodup_append.1 hnd).2.1).1 (List.mem_of_mem_getLast? hl)

variable [DecidableEq ν]

/-- Unlinking `x`: its predecessor now points at its successor and the other way round. -/
theorem unlink {prev next prev' next' : ν → Option ν} {a b : List ν} {x : ν}
    (h : DLinked prev next (a ++ x :: b)) (hnd : (a ++ x :: b).Nodup)
    (hp : ∀ y ∈ a ++ b, prev' y = if b.head? = some y then a.getLast? else prev y)
    (hn : ∀ y ∈ a ++ b, next' y = if a.getLast? = some y then b.head? else next y) :
    DLinked prev' next' (a ++ b) := by
  have hdisj : ∀ y ∈ a, y ∉ b := fun y ha hb =>
    (List.nodup_append.1 hnd).2.2 y ha y (List.mem_cons_of_mem _ hb) rfl
  have hnda : a.Nodup := (List.nodup_append.1 hnd).1
  have hndb : b.Nodup := (List.nodup_cons.1 (List.nodup_append.1 hnd).2.1).2
  constructor
  · intro a' y b' he
    rw [hp y (by rw [he]; simp)]
    rcases List.append_eq_append_iff.1 he with ⟨c, ha', hb⟩ | ⟨c, ha, hb'⟩
    · -- `y` lies behind the cut: `b = c ++ y :: b'`
      cases c with
      | nil => simp [hb, ha']
      | cons z c =>
        have hzy : z ≠ y := by
          rintro rfl
          rw [hb] at hndb
          exact (List.nodup_cons.1 hndb).1 (by simp)
        rw [if_neg (by simp [hb, hzy]), h.prev (a ++ x :: z :: c) y b' (by simp [hb]), ha']
        simp [List.getLast?_append]
    · cases c with
      | nil =>
        simp only [List.nil_append] at hb'
        simp [← hb', ha]
      | cons z c =>
        obtain ⟨rfl, hb''⟩ : y = z ∧ b' = c ++ b := by simpa using hb'
        rw [if_neg, h.prev a' y (c ++ x :: b) (by simp [ha])]
        intro hy
        exact hdisj y (by simp [ha]) (List.mem_of_mem_head? hy)
  · intro a' y b' he
    rw [hn y (by rw [he]; simp)]
    rcases List.append_eq_append_iff.1 he with ⟨c, ha', hb⟩ | ⟨c, ha, hb'⟩
    · rw [if_neg, h.next (a ++ x :: c) y b' (by simp [hb])]
      intro hy
      exact hdisj y (List.mem_of_mem_getLast? hy) (by simp [hb])
    · cases c with
      | nil =>
        have hy : y ∉ a := fun hya => hdisj y hya (by simp at hb'; simp [← hb'])
        have hlast : a.getLast? ≠ some y := fun hl => hy (List.mem_of_mem_getLast? hl)
        rw [if_neg hlast]
        simp only [List.nil_append] at hb'
        rw [h.next (a ++ [x]) y b' (by simp [← hb'])]
      | cons z c =>
        obtain ⟨rfl, hb''⟩ : y = z ∧ b' = c ++ b := by simpa using hb'
        subst hb''
        by_cases hc : c = []
        · subst hc; simp [ha]
        · have hlast : a.getLast? ≠ some y := by
            rw [ha] at hnda ⊢
            exact getLast?_ne hnda hc
          rw [if_neg hlast, h.next a' y (c ++ x :: b) (by simp [ha])]
          cases c with
          | nil => exact absurd rfl hc
          | cons w c => rfl

/-- Appending `x`: the old last node points at it, and it points back. -/
theorem pushBack {prev next prev' next' : ν → Option ν} {l : List ν} {x : ν}
    (h : DLinked prev next l) (hx : x ∉ l) (hnd : l.Nodup)
    (hp : ∀ y ∈ l, prev' y = prev y)
    (hn : ∀ y ∈ l, next' y = if l.getLast? = some y then some x else next y)
    (hpx : prev' x = l.getLast?) (hnx : next' x = none) : DLinked prev' next' (l ++ [x]) := by
  constructor
  · intro a y b he
    rcases List.append_eq_append_iff.1 he with ⟨c, ha, hb⟩ | ⟨c, ha, hb⟩
    · cases c with
      | nil =>
        obtain ⟨rfl, _⟩ : x = y ∧ b = [] := by simpa using hb
        rw [hpx, ha, List.append_nil]
      | cons z c => simp at hb
    · cases c with
      | nil =>
        obtain ⟨rfl, _⟩ : y = x ∧ b = [] := by simpa using hb
        rw [hpx, ha, List.append_nil]
      | cons z c =>
        obtain ⟨rfl, hb'⟩ : y = z ∧ b = c ++ [x] := by simpa using hb
        rw [hp y (by simp [ha]), h.prev a y c ha]
  · intro a y b he
    rcases List.append_eq_append_iff.1 he with ⟨c, ha, hb⟩ | ⟨c, ha, hb⟩
    · cases c with
      | nil =>
        obtain ⟨rfl, rfl⟩ : x = y ∧ b = [] := by simpa using hb
        exact hnx
      | cons z c => simp at hb
    · cases c with
      | nil =>
        obtain ⟨rfl, rfl⟩ : y = x ∧ b = [] := by simpa using hb
        exact hnx
      | cons z c =>
        obtain ⟨rfl, hb'⟩ : y = z ∧ b = c ++ [x] := by simpa using hb
        subst hb'
        rw [hn y (by simp [ha])]
        cases c with
        | nil => simp [ha]
        | cons w c =>
          have hlast : l.getLast? ≠ some y := by
            rw [ha] at hnd ⊢
            exact getLast?_ne hnd (by simp)
          rw [if_neg hlast, h.next a y (w :: c) ha]
          rfl

end DLinked
