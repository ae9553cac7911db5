import Mathlib.Data.List.Basic
import Mathlib.Data.List.Perm.Basic
import Std.Data.ExtTreeMap.Lemmas

/-!
# Groups

The elements of a list by their keys, in a tree map.

* `Groups.into` — the loop that adds every element to the group of its key.
* `Groups.mem_of` — **a group holds the elements of its key**.
* `Groups.perm_of` — **every element is in the groups as often as it is in the list**.
-/

set_option autoImplicit false

namespace ChiffonDB.Groups

variable {α κ : Type} [Ord κ] [Std.TransOrd κ] [Std.LawfulEqOrd κ] [DecidableEq κ]

/-- The loop over the elements. -/
def into (key : α → κ) : List α → Std.ExtTreeMap κ (List α) → Std.ExtTreeMap κ (List α)
  | [], groups => groups
  | a :: l, groups => into key l (groups.insert (key a) (groups[key a]?.getD [] ++ [a]))

/-- The groups of a list, in the order of their keys. -/
def of (key : α → κ) (l : List α) : List (κ × List α) := (into key l ∅).toList

variable {key : α → κ} {l : List α} {k : κ}

theorem getElem?_into (groups : Std.ExtTreeMap κ (List α)) : (into key l groups)[k]? =
    if (l.filter fun a => key a = k).isEmpty then groups[k]?
    else some (groups[k]?.getD [] ++ l.filter fun a => key a = k) := by
  induction l generalizing groups with
  | nil => rfl
  | cons a l ih =>
    rw [into, ih, Std.ExtTreeMap.getElem?_insert]
    by_cases hk : key a = k
    · subst hk
      simp only [Std.compare_self, if_true, List.filter_cons, decide_true, Option.getD_some]
      by_cases hrest : (l.filter fun b => key b = key a).isEmpty = true
      · rw [if_pos hrest, List.isEmpty_iff.1 hrest]
        rfl
      · rw [if_neg hrest]
        simp
    · have hcmp : compare (key a) k ≠ .eq := fun h => hk (Std.LawfulEqOrd.compare_eq_iff_eq.1 h)
      rw [if_neg hcmp, List.filter_cons_of_neg (by simpa using hk)]

/-- **A group holds the elements of its key.** -/
theorem mem_of {m : List α} : (k, m) ∈ of key l ↔ m ≠ [] ∧ m = l.filter fun a => key a = k := by
  rw [of, Std.ExtTreeMap.mem_toList_iff_getElem?_eq_some, getElem?_into]
  by_cases hempty : (l.filter fun a => key a = k).isEmpty = true
  · rw [if_pos hempty, List.isEmpty_iff.1 hempty]
    simp
  · rw [if_neg hempty]
    have hne : (l.filter fun a => key a = k) ≠ [] := fun h => hempty (List.isEmpty_iff.2 h)
    simp only [Std.ExtTreeMap.getElem?_empty, Option.getD_none, List.nil_append, Option.some.injEq]
    exact ⟨fun h => h ▸ ⟨hne, rfl⟩, fun h => h.2.symm⟩

omit [DecidableEq κ] in
theorem nodup_keys : ((of key l).map Prod.fst).Nodup := by
  rw [List.Nodup, List.pairwise_map]
  refine Std.ExtTreeMap.distinct_keys_toList.imp fun {g g'} h he => h ?_
  rw [he]
  exact Std.compare_self

omit [Ord κ] [Std.TransOrd κ] [Std.LawfulEqOrd κ] in
/-- Fibers of distinct keys that cover a list. -/
theorem perm_fibers {keys : List κ} (hnodup : keys.Nodup) (hcover : ∀ a ∈ l, key a ∈ keys) :
    (keys.flatMap fun k => l.filter fun a => key a = k).Perm l := by
  induction keys generalizing l with
  | nil =>
    obtain rfl : l = [] := List.eq_nil_iff_forall_not_mem.2 fun a ha => List.not_mem_nil (hcover a ha)
    rfl
  | cons k keys ih =>
    obtain ⟨hk, hnodup⟩ := List.nodup_cons.1 hnodup
    -- the other fibers are those of what is not in the first one
    have hrest : (keys.flatMap fun k' => l.filter fun a => key a = k') =
        keys.flatMap fun k' => (l.filter fun a => !decide (key a = k)).filter fun a => key a = k' := by
      refine List.flatMap_congr fun k' hk' => ?_
      rw [List.filter_filter]
      refine List.filter_congr fun a _ => ?_
      have hne : k' ≠ k := fun h => hk (h ▸ hk')
      by_cases ha : key a = k'
      · simp [ha, hne]
      · simp [ha]
    rw [List.flatMap_cons, hrest]
    refine (List.Perm.append_left _ (ih hnodup fun a ha => ?_)).trans
      (List.filter_append_perm (fun a => decide (key a = k)) l)
    obtain ⟨ha, hne⟩ := List.mem_filter.1 ha
    exact (List.mem_cons.1 (hcover a ha)).resolve_left (by simpa using hne)

/-- **Every element is in the groups as often as it is in the list.** -/
theorem perm_of : ((of key l).flatMap Prod.snd).Perm l := by
  have hfibers : (of key l).flatMap Prod.snd = ((of key l).map Prod.fst).flatMap fun k => l.filter fun a => key a = k := by
    rw [List.flatMap_map]
    exact List.flatMap_congr fun g hg => (mem_of.1 hg).2
  rw [hfibers]
  refine perm_fibers nodup_keys fun a ha => ?_
  have hin : a ∈ l.filter fun b => key b = key a := List.mem_filter.2 ⟨ha, by simp⟩
  exact List.mem_map_of_mem (f := Prod.fst) (mem_of.2 ⟨List.ne_nil_of_mem hin, rfl⟩)

end ChiffonDB.Groups
