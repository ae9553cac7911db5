import Mathlib.Data.List.Induction

/-!
# Maps collected from lists of pairs

* `lastOf` — the value of a key in the map collected from a list: a later pair replaces an earlier
  one.
* `lastOf_append`, `lastOf_filter` — how it follows the list operations.
-/

set_option autoImplicit false

namespace ChiffonDB.AssocList

variable {α β : Type} [DecidableEq α]

/-- The map collected from the pairs. -/
def lastOf (l : List (α × β)) (a : α) : Option β := (l.reverse.find? fun p => p.1 = a).map Prod.snd

@[simp] theorem lastOf_nil (a : α) : lastOf ([] : List (α × β)) a = none := rfl

theorem lastOf_append (l l' : List (α × β)) (a : α) :
    lastOf (l ++ l') a = (lastOf l' a).or (lastOf l a) := by
  unfold lastOf
  rw [List.reverse_append, List.find?_append]
  cases l'.reverse.find? fun p => p.1 = a <;> simp

@[simp] theorem lastOf_singleton (p : α × β) (a : α) :
    lastOf [p] a = if p.1 = a then some p.2 else none := by
  unfold lastOf
  by_cases h : p.1 = a <;> simp [h]

theorem lastOf_concat (l : List (α × β)) (p : α × β) (a : α) :
    lastOf (l ++ [p]) a = if p.1 = a then some p.2 else lastOf l a := by
  rw [lastOf_append, lastOf_singleton]
  split <;> simp

theorem mem_of_lastOf {l : List (α × β)} {a : α} {b : β} (h : lastOf l a = some b) : (a, b) ∈ l := by
  unfold lastOf at h
  obtain ⟨p, hp, rfl⟩ := Option.map_eq_some_iff.1 h
  have hkey : p.1 = a := by simpa using List.find?_some hp
  rw [← hkey]
  simpa using List.mem_of_find?_eq_some hp

theorem lastOf_eq_none {l : List (α × β)} {a : α} : lastOf l a = none ↔ ∀ p ∈ l, p.1 ≠ a := by
  unfold lastOf
  simp

theorem lastOf_isSome {l : List (α × β)} {a : α} : (lastOf l a).isSome ↔ ∃ p ∈ l, p.1 = a := by
  unfold lastOf
  simp

/-- Dropping the pairs of some keys hides these keys. -/
theorem lastOf_filter (l : List (α × β)) (q : α → Bool) (a : α) :
    lastOf (l.filter fun p => q p.1) a = if q a then lastOf l a else none := by
  induction l using List.reverseRecOn with
  | nil => simp
  | append_singleton l p ih =>
    rw [List.filter_append, lastOf_append, ih, lastOf_concat]
    by_cases hp : q p.1
    · rw [List.filter_cons_of_pos (by simpa using hp), List.filter_nil, lastOf_singleton]
      by_cases ha : p.1 = a
      · rw [← ha]
        simp [hp]
      · simp [ha]
    · rw [List.filter_cons_of_neg (by simpa using hp), List.filter_nil, lastOf_nil, Option.none_or]
      by_cases ha : p.1 = a
      · rw [← ha]
        simp [hp]
      · simp [ha]

/-- Pairs whose values follow from their keys. -/
theorem lastOf_filterMap_self (l : List α) (v : α → Option β) (a : α) :
    lastOf (l.filterMap fun x => (v x).map fun b => (x, b)) a = if a ∈ l then v a else none := by
  induction l using List.reverseRecOn with
  | nil => simp
  | append_singleton l x ih =>
    rw [List.filterMap_append, lastOf_append, ih, List.filterMap_cons, List.filterMap_nil]
    by_cases hx : x = a
    · subst hx
      cases hv : v x <;> simp
    · have hne : a ≠ x := fun he => hx he.symm
      cases hv : v x <;> simp [hx, hne]

/-- Other keys that tell the same elements apart. -/
theorem lastOf_filterMap {γ δ : Type} [DecidableEq β] (l : List γ) (key : γ → α) (key' : γ → Option β)
    (value : γ → δ) {a : α} {b : β} (h : ∀ x ∈ l, key' x = some b ↔ key x = a) :
    lastOf (l.filterMap fun x => (key' x).map fun k => (k, value x)) b = lastOf (l.map fun x => (key x, value x)) a := by
  induction l using List.reverseRecOn with
  | nil => rfl
  | append_singleton l x ih =>
    have hx := h x (by simp)
    rw [List.filterMap_append, List.map_append, lastOf_append, lastOf_append,
      ih fun y hy => h y (List.mem_append_left _ hy)]
    congr 1
    rw [List.map_singleton, lastOf_singleton]
    by_cases hk : key x = a
    · rw [if_pos hk]
      simp [hx.2 hk]
    · rw [if_neg hk]
      cases hk' : key' x with
      | none => simp [hk']
      | some b' =>
        have hne : b' ≠ b := fun he => hk (hx.1 (by rw [hk', he]))
        simp [hk', hne]

end ChiffonDB.AssocList
