import Mathlib.Data.List.Basic
import Mathlib.Order.Nat

/-!
# Distinct elements and windows

* `distinctBy` — the elements of a list that are like no earlier one; `mem_distinctBy`, `nodup_distinctBy` — those of
  equality.
* `WindowSafe`, `window_distinctBy` — **when the distinct elements of a window are the window of the distinct
  elements**.
-/

set_option autoImplicit false

namespace ChiffonDB

variable {α : Type} {same : α → α → Bool} {seen l m : List α}

/-- The loop that keeps every element unless it has seen one like it. -/
def distinctBy (same : α → α → Bool) (l : List α) : List α :=
  l.foldl (fun seen a => if seen.any (same · a) then seen else seen ++ [a]) []

/-- What the loop adds to what it has seen. -/
def newBy (same : α → α → Bool) (seen : List α) : List α → List α
  | [] => []
  | a :: l => if seen.any (same · a) then newBy same seen l else a :: newBy same (seen ++ [a]) l

theorem foldl_eq_newBy : l.foldl (fun seen a => if seen.any (same · a) then seen else seen ++ [a]) seen =
    seen ++ newBy same seen l := by
  induction l generalizing seen with
  | nil => simp [newBy]
  | cons a l ih =>
    rw [List.foldl_cons, ih, newBy]
    split <;> simp

theorem distinctBy_eq : distinctBy same l = newBy same [] l := foldl_eq_newBy

theorem newBy_append : newBy same seen (l ++ m) = newBy same seen l ++ newBy same (seen ++ newBy same seen l) m := by
  induction l generalizing seen with
  | nil => simp [newBy]
  | cons a l ih =>
    rw [List.cons_append, newBy, newBy]
    split
    · exact ih
    · rw [ih]
      simp

theorem distinctBy_append : distinctBy same (l ++ m) = distinctBy same l ++ newBy same (distinctBy same l) m := by
  rw [distinctBy_eq, distinctBy_eq, newBy_append, List.nil_append]

theorem length_newBy_le : (newBy same seen l).length ≤ l.length := by
  induction l generalizing seen with
  | nil => exact le_rfl
  | cons a l ih =>
    rw [newBy]
    split
    · exact ih.trans (Nat.le_succ _)
    · exact Nat.succ_le_succ ih

/-- Elements that are like none seen before do not see them. -/
theorem newBy_of_apart {apart : List α} (h : ∀ t ∈ apart, ∀ a ∈ l, same t a = false) :
    newBy same (apart ++ seen) l = newBy same seen l := by
  induction l generalizing seen with
  | nil => rfl
  | cons a l ih =>
    have ha : apart.any (same · a) = false := List.any_eq_false.2 fun t ht => by
      rw [h t ht a List.mem_cons_self]
      exact Bool.false_ne_true
    have hl : ∀ t ∈ apart, ∀ b ∈ l, same t b = false := fun t ht b hb => h t ht b (List.mem_cons_of_mem a hb)
    rw [newBy, newBy, List.any_append, ha, Bool.false_or, ih hl, List.append_assoc, ih hl]

theorem newBy_eq_nil (h : ∀ a ∈ l, seen.any (same · a) = true) : newBy same seen l = [] := by
  induction l with
  | nil => rfl
  | cons a l ih =>
    obtain ⟨ha, hl⟩ := List.forall_mem_cons.1 h
    rw [newBy, if_pos ha, ih hl]

/-- Elements that differ are all kept. -/
theorem distinctBy_eq_self (h : l.Pairwise fun a b => same a b = false) : distinctBy same l = l := by
  rw [distinctBy_eq]
  induction l with
  | nil => rfl
  | cons a l ih =>
    obtain ⟨ha, hl⟩ := List.pairwise_cons.1 h
    have happart : newBy same ([a] ++ []) l = newBy same [] l := newBy_of_apart fun t ht b hb => by
      rw [List.mem_singleton.1 ht]
      exact ha b hb
    rw [newBy, if_neg (by simp), List.nil_append]
    rw [List.append_nil] at happart
    rw [happart, ih hl]

/-! ## Equality -/

section Equal

variable [BEq α] [LawfulBEq α] {b : α}

theorem mem_newBy : b ∈ newBy (· == ·) seen l ↔ b ∈ l ∧ b ∉ seen := by
  induction l generalizing seen with
  | nil => simp [newBy]
  | cons a l ih =>
    have hany : seen.any (· == a) = true ↔ a ∈ seen := by simp
    rw [newBy]
    split
    · rename_i ha
      rw [hany] at ha
      rw [ih, List.mem_cons]
      exact ⟨fun h => ⟨.inr h.1, h.2⟩, fun h => ⟨h.1.resolve_left fun hb => h.2 (hb ▸ ha), h.2⟩⟩
    · rename_i ha
      rw [hany] at ha
      rw [List.mem_cons, List.mem_cons, ih, List.mem_append, List.mem_singleton]
      constructor
      · rintro (rfl | ⟨hb, hseen⟩)
        · exact ⟨.inl rfl, ha⟩
        · exact ⟨.inr hb, fun h => hseen (.inl h)⟩
      · rintro ⟨rfl | hb, hseen⟩
        · exact .inl rfl
        · by_cases hba : b = a
          · exact .inl hba
          · exact .inr ⟨hb, fun h => h.elim hseen hba⟩

theorem mem_distinctBy : b ∈ distinctBy (· == ·) l ↔ b ∈ l := by
  rw [distinctBy_eq, mem_newBy]
  exact and_iff_left List.not_mem_nil

theorem nodup_newBy : (newBy (· == ·) seen l).Nodup := by
  induction l generalizing seen with
  | nil => exact List.nodup_nil
  | cons a l ih =>
    rw [newBy]
    split
    · exact ih
    · exact List.nodup_cons.2 ⟨fun h => (mem_newBy.1 h).2 (List.mem_append_right _ (List.mem_singleton_self a)), ih⟩

theorem nodup_distinctBy : (distinctBy (· == ·) l).Nodup := distinctBy_eq (α := α) ▸ nodup_newBy

end Equal

/-! ## Windows -/

/-- The window behind `m` elements, of at most `n`, is empty; or no element up to its end is like an earlier one; or
    the elements in front of it differ from each other and from those in it, and every one behind it is like one up
    to its end. -/
def WindowSafe (same : α → α → Bool) (m n : ℕ) (l : List α) : Prop :=
  n = 0 ∨ l.length ≤ m ∨ ((l.take (m + n)).Pairwise fun a b => same a b = false) ∨
    (((l.take m).Pairwise fun a b => same a b = false) ∧
      (∀ a ∈ l.take m, ∀ b ∈ (l.drop m).take n, same a b = false) ∧
      ∀ b ∈ l.drop (m + n), (distinctBy same (l.take (m + n))).any (same · b) = true)

/-- **The distinct elements of such a window are the window of the distinct elements.** -/
theorem window_distinctBy {m n : ℕ} (h : WindowSafe same m n l) :
    ((distinctBy same l).drop m).take n = distinctBy same ((l.drop m).take n) := by
  have hsplit : l = l.take (m + n) ++ l.drop (m + n) := (List.take_append_drop _ l).symm
  have htake : l.take (m + n) = l.take m ++ (l.drop m).take n := by rw [List.take_add]
  have hlen : (distinctBy same l).length ≤ l.length := by
    rw [distinctBy_eq]
    exact length_newBy_le
  rcases h with rfl | hm | hdiffer | ⟨hfront, hapart, hbehind⟩
  · simp [distinctBy]
  · rw [List.drop_of_length_le hm, List.drop_of_length_le (hlen.trans hm)]
    simp [distinctBy]
  · have hwindow : ((l.drop m).take n).Pairwise fun a b => same a b = false := by
      rw [htake] at hdiffer
      exact (List.pairwise_append.1 hdiffer).2.1
    have hall : distinctBy same l = l.take (m + n) ++ newBy same (l.take (m + n)) (l.drop (m + n)) := by
      conv_lhs => rw [hsplit]
      rw [distinctBy_append, distinctBy_eq_self hdiffer]
    rw [distinctBy_eq_self hwindow, hall]
    by_cases hshort : l.length ≤ m + n
    · rw [List.drop_of_length_le hshort, newBy, List.append_nil, List.take_of_length_le hshort]
    · have hpre : (l.take (m + n)).length = m + n := by rw [List.length_take]; omega
      rw [List.take_drop, List.take_append_of_le_length (by omega), List.take_of_length_le (by omega), htake]
      rw [List.drop_append_of_le_length (by rw [List.length_take]; omega), List.drop_take_self, List.nil_append]
  · by_cases hshort : l.length ≤ m
    · rw [List.drop_of_length_le hshort, List.drop_of_length_le (hlen.trans hshort)]
      simp [distinctBy]
    · have hfull : (l.take m).length = m := by rw [List.length_take]; omega
      have hpre : distinctBy same (l.take (m + n)) = l.take m ++ distinctBy same ((l.drop m).take n) := by
        rw [htake, distinctBy_append, distinctBy_eq_self hfront, distinctBy_eq (l := (l.drop m).take n)]
        have hback : newBy same (l.take m ++ []) ((l.drop m).take n) = newBy same [] ((l.drop m).take n) :=
          newBy_of_apart hapart
        rw [List.append_nil] at hback
        rw [hback]
      have hall : distinctBy same l = distinctBy same (l.take (m + n)) := by
        conv_lhs => rw [hsplit]
        rw [distinctBy_append, newBy_eq_nil hbehind, List.append_nil]
      rw [hall, hpre, List.drop_append_of_le_length (by omega), List.drop_of_length_le (by omega), List.nil_append]
      refine List.take_of_length_le (le_trans ?_ (List.length_take_le n (l.drop m)))
      rw [distinctBy_eq]
      exact length_newBy_le

end ChiffonDB
