import Mathlib.Data.List.AList
import Mathlib.Data.List.Induction

/-!
# Append-only journals

A journal is a list of `(key, value)` writes, oldest first.  `latest` is the last value a
journal binds to a key; `overlay` reads a key through the journal down to a base map.

* `latest_append`, `latest_concat` — the newest suffix wins.
* `overlay_append` — a journal in two parts is an overlay on an overlay.
* `mem_of_latest`, `latest_eq_none_iff` — `latest` invents nothing and forgets nothing.
-/

set_option autoImplicit false

namespace Journal

variable {κ α : Type}

section Latest

variable [DecidableEq κ]

/-- The last value bound to `k`. -/
def latest : List (κ × α) → κ → Option α
  | [], _ => none
  | (q, a) :: es, k => (latest es k).or (if q = k then some a else none)

/-- Read `k` through the journal, then from `base`. -/
def overlay (es : List (κ × α)) (base : κ → Option α) (k : κ) : Option α :=
  (latest es k).or (base k)

@[simp] theorem latest_nil (k : κ) : latest ([] : List (κ × α)) k = none := rfl

theorem latest_append (es fs : List (κ × α)) (k : κ) :
    latest (es ++ fs) k = (latest fs k).or (latest es k) := by
  induction es with
  | nil => simp
  | cons e es ih =>
    obtain ⟨q, a⟩ := e
    rw [List.cons_append, latest, latest, ih, Option.or_assoc]

theorem latest_concat (es : List (κ × α)) (q : κ) (a : α) (k : κ) :
    latest (es ++ [(q, a)]) k = if q = k then some a else latest es k := by
  rw [latest_append]
  by_cases h : q = k <;> simp [latest, h]

theorem latest_eq_none_iff {es : List (κ × α)} {k : κ} :
    latest es k = none ↔ ∀ e ∈ es, e.1 ≠ k := by
  induction es with
  | nil => simp
  | cons e es ih =>
    obtain ⟨q, a⟩ := e
    rw [latest, Option.or_eq_none_iff, ih]
    by_cases h : q = k <;> simp [h]

theorem mem_of_latest {es : List (κ × α)} {k : κ} {a : α} (h : latest es k = some a) :
    (k, a) ∈ es := by
  induction es with
  | nil => simp at h
  | cons e es ih =>
    obtain ⟨q, b⟩ := e
    rw [latest, Option.or_eq_some_iff] at h
    rcases h with h | ⟨_, h⟩
    · exact List.mem_cons_of_mem _ (ih h)
    · split at h
      · rename_i hq; subst hq; cases h; exact List.mem_cons_self
      · cases h

theorem latest_isSome_iff {es : List (κ × α)} {k : κ} :
    (latest es k).isSome ↔ ∃ e ∈ es, e.1 = k := by
  rw [← not_iff_not, Option.not_isSome_iff_eq_none, latest_eq_none_iff]
  push Not
  rfl

@[simp] theorem overlay_nil (base : κ → Option α) (k : κ) : overlay [] base k = base k := by
  simp [overlay]

theorem overlay_append (es fs : List (κ × α)) (base : κ → Option α) (k : κ) :
    overlay (es ++ fs) base k = overlay fs (overlay es base) k := by
  simp only [overlay, latest_append, Option.or_assoc]

theorem overlay_concat (es : List (κ × α)) (q : κ) (a : α) (base : κ → Option α) (k : κ) :
    overlay (es ++ [(q, a)]) base k = if q = k then some a else overlay es base k := by
  unfold overlay
  rw [latest_concat]
  split <;> simp

end Latest

end Journal
