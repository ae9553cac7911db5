import Mathlib.Data.Option.Basic
import Mathlib.Logic.Function.Basic

/-!
# Owners and rows

Slots that own values, and partial maps whose entries belong together.

* `Exclusive` — no value has two owners; `Exclusive.update` — a slot takes a value that nobody owns.
* `Rows` — two partial maps, row by row; `Rows.update` — **one row at a time**.
-/

set_option autoImplicit false

namespace ChiffonDB

section Owners

variable {ι ν : Type} {f : ι → Option ν} {s : ι} {v : ν} {x : Option ν}

/-- No value has two owners. -/
def Exclusive (f : ι → Option ν) : Prop := ∀ s s' v, f s = some v → f s' = some v → s = s'

/-- Nobody owns the value. -/
def Unowned (f : ι → Option ν) (v : ν) : Prop := ∀ s, f s ≠ some v

variable [DecidableEq ι]

/-- A slot takes a value that nobody owns, or none. -/
theorem Exclusive.update (h : Exclusive f) (s : ι) (hx : ∀ v, x = some v → Unowned f v) :
    Exclusive (Function.update f s x) := by
  intro a b v ha hb
  by_cases has : a = s <;> by_cases hbs : b = s
  · rw [has, hbs]
  · rw [has, Function.update_self] at ha
    rw [Function.update_of_ne hbs] at hb
    exact absurd hb (hx v ha b)
  · rw [hbs, Function.update_self] at hb
    rw [Function.update_of_ne has] at ha
    exact absurd ha (hx v hb a)
  · rw [Function.update_of_ne has] at ha
    rw [Function.update_of_ne hbs] at hb
    exact h a b v ha hb

/-- The value that a slot gives up. -/
theorem Exclusive.unowned (h : Exclusive f) (hs : f s = some v) (hx : x ≠ some v) : Unowned (Function.update f s x) v := by
  intro a ha
  by_cases has : a = s
  · rw [has, Function.update_self] at ha
    exact hx ha
  · rw [Function.update_of_ne has] at ha
    exact has (h a s v ha hs)

theorem Unowned.update (h : Unowned f v) (s : ι) (hx : x ≠ some v) : Unowned (Function.update f s x) v := by
  intro a ha
  by_cases has : a = s
  · rw [has, Function.update_self] at ha
    exact hx ha
  · rw [Function.update_of_ne has] at ha
    exact h a ha

end Owners

section Rows

variable {κ α β : Type} {R R' : α → β → Prop} {f : κ → Option α} {g : κ → Option β} {k : κ}

/-- Two partial maps with the same keys, and rows that belong together. -/
def Rows (R : α → β → Prop) (f : κ → Option α) (g : κ → Option β) : Prop := ∀ k, Option.Rel R (f k) (g k)

namespace Rows

theorem left {a : α} (h : Rows R f g) (hk : f k = some a) : ∃ b, g k = some b ∧ R a b := by
  have hr := h k
  rw [hk] at hr
  cases hg : g k with
  | none => rw [hg] at hr; cases hr
  | some b =>
    rw [hg] at hr
    cases hr with
    | some hab => exact ⟨b, rfl, hab⟩

theorem right {b : β} (h : Rows R f g) (hk : g k = some b) : ∃ a, f k = some a ∧ R a b := by
  have hr := h k
  rw [hk] at hr
  cases hf : f k with
  | none => rw [hf] at hr; cases hr
  | some a =>
    rw [hf] at hr
    cases hr with
    | some hab => exact ⟨a, rfl, hab⟩

theorem none_iff (h : Rows R f g) : f k = none ↔ g k = none := by
  have hr := h k
  cases hf : f k <;> cases hg : g k <;> rw [hf, hg] at hr
  · simp
  · cases hr
  · cases hr
  · simp

theorem mono (h : Rows R f g) (hR : ∀ k a b, f k = some a → R a b → R' a b) : Rows R' f g := by
  intro k
  have hr := h k
  cases hf : f k <;> cases hg : g k <;> rw [hf, hg] at hr
  · exact .none
  · cases hr
  · cases hr
  · cases hr with
    | some hab => exact .some (hR k _ _ hf hab)

/-- Rows that belong to the same rows are the same, where no row belongs to two. -/
theorem eq {g' : κ → Option β} (hR : Relator.RightUnique R) (h : Rows R f g) (h' : Rows R f g') : g = g' := by
  funext k
  cases hg : g k with
  | none => exact (h'.none_iff.1 (h.none_iff.2 hg)).symm
  | some b =>
    obtain ⟨a, ha, hab⟩ := h.right hg
    obtain ⟨b', hb', hab'⟩ := h'.left ha
    rw [hb', hR hab hab']

variable [DecidableEq κ]

/-- One row changes. -/
theorem update (h : Rows R f g) (k : κ) {a : Option α} {b : Option β} (hab : Option.Rel R a b) :
    Rows R (Function.update f k a) (Function.update g k b) := by
  intro k'
  by_cases hk : k' = k
  · rw [hk, Function.update_self, Function.update_self]
    exact hab
  · rw [Function.update_of_ne hk, Function.update_of_ne hk]
    exact h k'

end Rows

end Rows

end ChiffonDB
