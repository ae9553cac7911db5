import Mathlib.Algebra.BigOperators.Group.List.Basic
import Mathlib.Data.List.Perm.Basic
import Mathlib.Tactic.Ring

/-!
# Lists with multiplicities

* `repeated` — the image of every element of a list, as often as its multiplicity says.
* `flatten_repeated` — multiplicities multiply.
* `repeated_perm_map_iff` — **multiplicities that do not both drop and add elements are all one if they keep the
  multiset**.
-/

set_option autoImplicit false

namespace ChiffonDB

variable {α β γ : Type} {n : α → ℕ} {f : α → β} {l : List α}

/-- Every element, as often as its multiplicity says. -/
def repeated (n : α → ℕ) (f : α → β) (l : List α) : List β := l.flatMap fun a => List.replicate (n a) (f a)

@[simp] theorem repeated_nil : repeated n f [] = [] := rfl

@[simp] theorem repeated_cons (a : α) : repeated n f (a :: l) = List.replicate (n a) (f a) ++ repeated n f l := rfl

theorem repeated_eq_map (h : ∀ a ∈ l, n a = 1) : repeated n f l = l.map f := by
  induction l with
  | nil => rfl
  | cons a l ih =>
    rw [repeated_cons, h a List.mem_cons_self, ih fun b hb => h b (List.mem_cons_of_mem a hb)]
    rfl

theorem length_repeated : (repeated n f l).length = (l.map n).sum := by
  induction l with
  | nil => rfl
  | cons a l ih => simp [ih]

theorem repeated_map (g : γ → α) (m : List γ) :
    repeated n f (m.map g) = repeated (fun c => n (g c)) (fun c => f (g c)) m := List.flatMap_map g _ m

theorem repeated_flatMap (g : γ → List α) (m : List γ) :
    repeated n f (m.flatMap g) = m.flatMap fun c => repeated n f (g c) := List.flatMap_assoc

theorem repeated_congr {n' : α → ℕ} {f' : α → β} (hn : ∀ a ∈ l, n a = n' a) (hf : ∀ a ∈ l, f a = f' a) :
    repeated n f l = repeated n' f' l := List.flatMap_congr fun a ha => by rw [hn a ha, hf a ha]

theorem repeated_append (m : List α) : repeated n f (l ++ m) = repeated n f l ++ repeated n f m :=
  List.flatMap_append

/-- Some elements twice, all others once. -/
theorem repeated_twice (p : α → Bool) :
    (repeated (fun a => if p a then 2 else 1) id l).Perm (l ++ l.filter p) := by
  induction l with
  | nil => exact List.Perm.nil
  | cons a l ih =>
    rw [repeated_cons, List.filter_cons]
    cases p a with
    | false => exact ih.cons a
    | true => exact ((ih.cons a).trans List.perm_middle.symm).cons a

/-- Multiplicities of multiplicities multiply. -/
theorem flatten_repeated (k : ℕ) :
    (List.replicate k (repeated n f l)).flatten.Perm (repeated (fun a => k * n a) f l) := by
  induction k with
  | zero => simp [repeated]
  | succ k ih =>
    rw [List.replicate_succ, List.flatten_cons]
    refine (ih.append_left _).trans ((List.flatMap_append_perm l _ _).trans (List.Perm.of_eq ?_))
    refine List.flatMap_congr fun a _ => ?_
    rw [List.replicate_append_replicate]
    exact congrArg (List.replicate · (f a)) (by ring)

/-- One list after another, each element of the first as often as its multiplicity says. -/
theorem flatMap_repeated (g : β → List γ) :
    (repeated n f l).flatMap g = l.flatMap fun a => (List.replicate (n a) (g (f a))).flatten := by
  unfold repeated
  rw [List.flatMap_assoc]
  exact List.flatMap_congr fun a _ => List.flatMap_replicate

theorem sum_le_length (h : ∀ a ∈ l, n a ≤ 1) : (l.map n).sum ≤ l.length := by
  induction l with
  | nil => exact le_rfl
  | cons a l ih =>
    obtain ⟨ha, hl⟩ := List.forall_mem_cons.1 h
    have := ih hl
    rw [List.map_cons, List.sum_cons, List.length_cons]
    omega

theorem length_le_sum (h : ∀ a ∈ l, 1 ≤ n a) : l.length ≤ (l.map n).sum := by
  induction l with
  | nil => exact le_rfl
  | cons a l ih =>
    obtain ⟨ha, hl⟩ := List.forall_mem_cons.1 h
    have := ih hl
    rw [List.map_cons, List.sum_cons, List.length_cons]
    omega

/-- **Multiplicities that do not both drop and add elements are all one if they keep the multiset.** -/
theorem repeated_perm_map_iff (h : (∀ a ∈ l, n a ≤ 1) ∨ ∀ a ∈ l, 1 ≤ n a) :
    (repeated n f l).Perm (l.map f) ↔ ∀ a ∈ l, n a = 1 := by
  constructor
  · intro hperm
    have hsum : (l.map n).sum = l.length := by
      rw [← length_repeated (f := f), hperm.length_eq, List.length_map]
    clear hperm
    induction l with
    | nil => simp
    | cons a l ih =>
      rw [List.map_cons, List.sum_cons, List.length_cons] at hsum
      rcases h with h | h
      · obtain ⟨ha, hl⟩ := List.forall_mem_cons.1 h
        have := sum_le_length hl
        exact List.forall_mem_cons.2 ⟨by omega, ih (Or.inl hl) (by omega)⟩
      · obtain ⟨ha, hl⟩ := List.forall_mem_cons.1 h
        have := length_le_sum hl
        exact List.forall_mem_cons.2 ⟨by omega, ih (Or.inr hl) (by omega)⟩
  · intro hone
    rw [repeated_eq_map hone]

end ChiffonDB
