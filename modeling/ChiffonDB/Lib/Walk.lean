import Mathlib.Data.Fintype.EquivFin
import Mathlib.Data.Fintype.Card

/-!
# Walks along links

A walk along a partial function: from a start, the next element as long as there is one.

* `walkAt` — where the walk stands after `n` links.
* `Ends`, `Simple` — the walk ends; the walk comes to no element twice.
* `ends_iff_simple` — **over a finite type a walk ends exactly if it comes to no element twice**.
-/

set_option autoImplicit false

namespace ChiffonDB

variable {α : Type} (next : α → Option α) (start : Option α)

/-- Where the walk stands after `n` links. -/
def walkAt : Nat → Option α
  | 0 => start
  | n + 1 => (walkAt n).bind next

/-- The walk comes to an end. -/
def Ends : Prop := ∃ n, walkAt next start n = none

/-- The walk comes to no element twice. -/
def Simple : Prop := ∀ i j a, walkAt next start i = some a → walkAt next start j = some a → i = j

variable {next start}

theorem walkAt_succ (a : α) (n : Nat) : walkAt next (some a) (n + 1) = walkAt next (next a) n := by
  induction n with
  | zero => rfl
  | succ n ih =>
    rw [walkAt, ih]
    rfl

/-- Once the walk has ended it stays so. -/
theorem walkAt_none {i j : Nat} (h : walkAt next start i = none) (hij : i ≤ j) :
    walkAt next start j = none := by
  induction hij with
  | refl => exact h
  | step _ ih => rw [walkAt, ih, Option.bind_none]

/-- The rest of the walk depends on where it stands only. -/
theorem walkAt_add_eq {i j : Nat} (h : walkAt next start i = walkAt next start j) (n : Nat) :
    walkAt next start (i + n) = walkAt next start (j + n) := by
  induction n with
  | zero => exact h
  | succ n ih => rw [← Nat.add_assoc, ← Nat.add_assoc, walkAt, walkAt, ih]

theorem walkAt_add {i : Nat} {a : α} (h : walkAt next start i = some a) (n : Nat) :
    walkAt next start (i + n) = walkAt next (some a) n := by
  induction n with
  | zero => exact h
  | succ n ih => rw [← Nat.add_assoc, walkAt, ih, walkAt]

/-- A walk that comes to an element again comes to it over and over. -/
theorem walkAt_period {i d : Nat} {a : α} (hi : walkAt next start i = some a)
    (hd : walkAt next start (i + d) = some a) (k : Nat) : walkAt next start (i + k * d) = some a := by
  induction k with
  | zero => rwa [Nat.zero_mul]
  | succ k ih =>
    rw [Nat.succ_mul, ← Nat.add_assoc, walkAt_add_eq (ih.trans hi.symm) d]
    exact hd

theorem Ends.simple (h : Ends next start) : Simple next start := by
  have key : ∀ i d a, walkAt next start i = some a → walkAt next start (i + d) = some a → d = 0 := by
    intro i d a hi hd
    by_contra hne
    obtain ⟨n, hn⟩ := h
    have hle : n ≤ i + n * d := by
      have := Nat.le_mul_of_pos_right n (Nat.pos_of_ne_zero hne)
      omega
    have hnone := walkAt_none hn hle
    rw [walkAt_period hi hd n] at hnone
    cases hnone
  intro i j a hi hj
  rcases Nat.le_total i j with hij | hij
  · obtain ⟨d, rfl⟩ := Nat.exists_eq_add_of_le hij
    rw [key i d a hi hj, Nat.add_zero]
  · obtain ⟨d, rfl⟩ := Nat.exists_eq_add_of_le hij
    rw [key j d a hj hi, Nat.add_zero]

theorem Simple.ends [Finite α] (h : Simple next start) : Ends next start := by
  by_contra hends
  have hsome : ∀ n, ∃ a, walkAt next start n = some a := fun n =>
    Option.ne_none_iff_exists'.1 fun hn => hends ⟨n, hn⟩
  choose f hf using hsome
  have hinj : Function.Injective f := fun i j hij => h i j (f i) (hf i) (hij ▸ hf j)
  exact not_injective_infinite_finite f hinj

/-- **Over a finite type a walk ends exactly if it comes to no element twice.** -/
theorem ends_iff_simple [Finite α] : Ends next start ↔ Simple next start := ⟨Ends.simple, Simple.ends⟩

end ChiffonDB
