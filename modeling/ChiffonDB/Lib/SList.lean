import Mathlib.Data.List.Basic
import Mathlib.Data.List.Nodup
import Mathlib.Logic.Function.Basic

/-!
# Intrusive singly linked lists

`Threads next a l b` says that the links `next`, followed from `a`, visit exactly the nodes of `l` and
then lead to `b`.  A whole list ends with `b = none`.

* `threads_append` — a walk over two parts is a walk over each.
* `Threads.redirect` — writing the last link of a part changes where it leads, and nothing else.
* `Threads.rotate`, `Threads.pullFront` — moving the first node behind some others, and a later node
  to the front.
* `comesBack` — a walk that marks the nodes it has been at; `comesBack_eq_false_iff` — **it comes to an
  end exactly along a list without a repetition**.
-/

set_option autoImplicit false

variable {ν : Type}

/-- From `a` the links visit the nodes of `l` and lead to `b`. -/
def Threads (next : ν → Option ν) : Option ν → List ν → Option ν → Prop
  | a, [], b => a = b
  | a, x :: l, b => a = some x ∧ Threads next (next x) l b

namespace Threads

variable {next next' : ν → Option ν} {a b c : Option ν} {l l₁ l₂ : List ν} {x : ν}

@[simp] theorem threads_nil : Threads next a [] b ↔ a = b := Iff.rfl

@[simp] theorem threads_cons : Threads next a (x :: l) b ↔ a = some x ∧ Threads next (next x) l b := Iff.rfl

theorem threads_append : Threads next a (l₁ ++ l₂) b ↔ ∃ c, Threads next a l₁ c ∧ Threads next c l₂ b := by
  induction l₁ generalizing a with
  | nil => simp
  | cons x l₁ ih => simp [ih, and_assoc]

theorem append (h₁ : Threads next a l₁ c) (h₂ : Threads next c l₂ b) : Threads next a (l₁ ++ l₂) b :=
  threads_append.2 ⟨c, h₁, h₂⟩

theorem congr (h : Threads next a l b) (hn : ∀ x ∈ l, next' x = next x) : Threads next' a l b := by
  induction l generalizing a with
  | nil => exact h
  | cons x l ih =>
    refine ⟨h.1, ?_⟩
    rw [hn x (by simp)]
    exact ih h.2 fun y hy => hn y (by simp [hy])

/-- Where a walk starts. -/
theorem start_eq (h : Threads next a l none) : a = l.head? := by
  cases l with
  | nil => exact h
  | cons x l => exact h.1

theorem eq_of_start (h : Threads next a l none) (h' : Threads next a l₂ none) : l = l₂ := by
  induction l generalizing a l₂ with
  | nil =>
    cases l₂ with
    | nil => rfl
    | cons y l₂ =>
      rw [threads_nil.1 h] at h'
      cases h'.1
  | cons x l ih =>
    cases l₂ with
    | nil =>
      rw [threads_nil.1 h'] at h
      cases h.1
    | cons y l₂ =>
      have hxy : x = y := Option.some.inj (h.1.symm.trans h'.1)
      subst hxy
      rw [ih h.2 h'.2]

/-- The link of a node leads to the node behind it. -/
theorem next_eq (h : Threads next a (l₁ ++ x :: l₂) none) : next x = l₂.head? := by
  obtain ⟨c, -, -, h₂⟩ := threads_append.1 h
  exact h₂.start_eq

/-- In front of a node the links stay in front of it, or lead to it. -/
theorem next_mem (h : Threads next a (l₁ ++ x :: l₂) none) {y : ν} (hy : y ∈ l₁) :
    ∃ z ∈ l₁ ++ [x], next y = some z := by
  obtain ⟨u, v, rfl⟩ := List.append_of_mem hy
  have hnext := next_eq (show Threads next a (u ++ y :: (v ++ x :: l₂)) none by simpa using h)
  cases v with
  | nil => exact ⟨x, by simp, hnext⟩
  | cons z v => exact ⟨z, by simp, hnext⟩

variable [DecidableEq ν]

theorem update_of_notMem (h : Threads next a l b) (hx : x ∉ l) (v : Option ν) :
    Threads (Function.update next x v) a l b := by
  refine h.congr fun y hy => ?_
  have hyx : y ≠ x := by
    rintro rfl
    exact hx hy
  exact Function.update_of_ne hyx _ _

/-- Writing the last link of a part. -/
theorem redirect (h : Threads next a (l ++ [x]) b) (hnd : (l ++ [x]).Nodup) (c : Option ν) :
    Threads (Function.update next x c) a (l ++ [x]) c := by
  obtain ⟨d, h₁, hd, -⟩ := threads_append.1 h
  have hx : x ∉ l := fun hx => (List.nodup_append.1 hnd).2.2 x hx x (by simp) rfl
  refine (h₁.update_of_notMem hx c).append ⟨hd, ?_⟩
  rw [Function.update_self]
  exact threads_nil.2 rfl

/-- The first node moves behind the part `l ++ [x]` that follows it. -/
theorem rotate {h : ν} (ht : Threads next a (h :: (l ++ [x] ++ l₂)) none)
    (hnd : (h :: (l ++ [x] ++ l₂)).Nodup) :
    Threads (Function.update (Function.update next h (next x)) x (some h)) (next h)
      (l ++ [x] ++ h :: l₂) none := by
  obtain ⟨hh, hnd'⟩ := List.nodup_cons.1 hnd
  obtain ⟨hndx, hnd₂, hdisj⟩ := List.nodup_append.1 hnd'
  obtain ⟨c, h₁, h₂⟩ := threads_append.1 ht.2
  have hxh : h ≠ x := fun he => hh (by simp [he])
  have hc : c = next x := by
    obtain ⟨d, -, -, hd⟩ := threads_append.1 h₁
    exact (threads_nil.1 hd).symm
  subst hc
  have hh₁ : h ∉ l ++ [x] := fun hm => hh (List.mem_append_left _ hm)
  have hh₂ : h ∉ l₂ := fun hm => hh (List.mem_append_right _ hm)
  have hx₂ : x ∉ l₂ := fun hm => hdisj x (by simp) x hm rfl
  refine ((h₁.update_of_notMem hh₁ _).redirect hndx _).append ⟨rfl, ?_⟩
  rw [Function.update_of_ne hxh, Function.update_self]
  exact (h₂.update_of_notMem hh₂ _).update_of_notMem hx₂ _

/-- The node `d` moves from behind the part `l ++ [x]` to its front. -/
theorem pullFront {d h : ν} (ht : Threads next (some h) (l ++ [x] ++ d :: l₂) none)
    (hnd : (l ++ [x] ++ d :: l₂).Nodup) :
    Threads (Function.update (Function.update next d (some h)) x (next d)) (some d)
      (d :: (l ++ [x] ++ l₂)) none := by
  obtain ⟨hndx, hnd', hdisj⟩ := List.nodup_append.1 hnd
  obtain ⟨hd₂, hnd₂⟩ := List.nodup_cons.1 hnd'
  obtain ⟨c, h₁, hc, h₂⟩ := threads_append.1 ht
  have hd₁ : d ∉ l ++ [x] := fun hm => hdisj d hm d (by simp) rfl
  have hdx : d ≠ x := fun he => hd₁ (by simp [he])
  have hx₂ : x ∉ l₂ := fun hm => hdisj x (by simp) x (by simp [hm]) rfl
  refine ⟨rfl, ?_⟩
  rw [Function.update_of_ne hdx, Function.update_self]
  refine ((h₁.update_of_notMem hd₁ _).redirect hndx _).append ?_
  exact (h₂.update_of_notMem hd₂ _).update_of_notMem hx₂ _

end Threads

/-! ## Walks that mark the nodes -/

section Marks

variable [DecidableEq ν]

/-- A walk that marks the nodes it has been at: whether it comes back to one; nothing, if it is still on its way. -/
def comesBack (next : ν → Option ν) : Nat → List ν → Option ν → Option Bool
  | _, _, none => some false
  | 0, _, some _ => none
  | fuel + 1, marked, some x => if x ∈ marked then some true else comesBack next fuel (x :: marked) (next x)

variable {next : ν → Option ν} {a : Option ν} {marked : List ν} {fuel : Nat}

/-- Along such a list no walk comes back. -/
theorem comesBack_ne_true {l : List ν} (h : Threads next a l none) (hnd : l.Nodup) (hnew : ∀ x ∈ l, x ∉ marked) :
    comesBack next fuel marked a ≠ some true := by
  induction l generalizing a marked fuel with
  | nil =>
    obtain rfl := Threads.threads_nil.1 h
    cases fuel <;> exact fun he => (by cases he)
  | cons x l ih =>
    obtain ⟨rfl, hrest⟩ := h
    obtain ⟨hx, hnd⟩ := List.nodup_cons.1 hnd
    cases fuel with
    | zero => exact fun he => (by cases he)
    | succ fuel =>
      rw [comesBack, if_neg (hnew x List.mem_cons_self)]
      refine ih hrest hnd fun y hy hm => ?_
      rcases List.mem_cons.1 hm with rfl | hm
      · exact hx hy
      · exact hnew y (List.mem_cons_of_mem _ hy) hm

/-- A walk that comes to an end has been along such a list. -/
theorem threads_of_comesBack (h : comesBack next fuel marked a = some false) :
    ∃ l, Threads next a l none ∧ l.Nodup ∧ ∀ x ∈ l, x ∉ marked := by
  induction fuel generalizing a marked with
  | zero =>
    cases a with
    | none => exact ⟨[], rfl, List.nodup_nil, fun x hx => (by cases hx)⟩
    | some x => cases h
  | succ fuel ih =>
    cases a with
    | none => exact ⟨[], rfl, List.nodup_nil, fun x hx => (by cases hx)⟩
    | some x =>
      rw [comesBack] at h
      split at h
      · cases h
      · rename_i hx
        obtain ⟨l, hl, hnd, hnew⟩ := ih h
        have hxl : x ∉ l := fun hm => hnew x hm List.mem_cons_self
        refine ⟨x :: l, ⟨rfl, hl⟩, List.nodup_cons.2 ⟨hxl, hnd⟩, fun y hy => ?_⟩
        rcases List.mem_cons.1 hy with rfl | hy
        · exact hx
        · exact fun hm => hnew y hy (List.mem_cons_of_mem _ hm)

/-- **Every walk comes to an end, or back**, when no more than `n` nodes lead on. -/
theorem isSome_comesBack {n : Nat} (hbound : ∀ l : List ν, l.Nodup → (∀ x ∈ l, (next x).isSome) → l.length ≤ n)
    (hnd : marked.Nodup) (hmarked : ∀ x ∈ marked, (next x).isSome) (hfuel : n + 2 ≤ fuel + marked.length) :
    (comesBack next fuel marked a).isSome := by
  have hle := hbound marked hnd hmarked
  induction fuel generalizing a marked with
  | zero => omega
  | succ fuel ih =>
    cases a with
    | none => rfl
    | some x =>
      rw [comesBack]
      split
      · rfl
      · rename_i hx
        cases hnext : next x with
        | none => cases fuel <;> rfl
        | some y =>
          have hsome : (next x).isSome := hnext ▸ rfl
          have hall : ∀ z ∈ x :: marked, (next z).isSome := by
            intro z hz
            rcases List.mem_cons.1 hz with rfl | hz
            · exact hsome
            · exact hmarked z hz
          refine ih (List.nodup_cons.2 ⟨hx, hnd⟩) hall ?_ (hbound _ (List.nodup_cons.2 ⟨hx, hnd⟩) hall)
          rw [List.length_cons]
          omega

/-- **A walk comes to an end exactly along a list without a repetition.** -/
theorem comesBack_eq_false_iff {n : Nat} (hbound : ∀ l : List ν, l.Nodup → (∀ x ∈ l, (next x).isSome) → l.length ≤ n)
    (hfuel : n + 2 ≤ fuel) : comesBack next fuel [] a = some false ↔ ∃ l, Threads next a l none ∧ l.Nodup := by
  constructor
  · intro h
    obtain ⟨l, hl, hnd, -⟩ := threads_of_comesBack h
    exact ⟨l, hl, hnd⟩
  · rintro ⟨l, hl, hnd⟩
    obtain ⟨r, hr⟩ := Option.isSome_iff_exists.1 (isSome_comesBack (a := a) hbound List.nodup_nil
      (fun x hx => absurd hx List.not_mem_nil) (show n + 2 ≤ fuel + ([] : List ν).length from hfuel))
    cases r with
    | false => exact hr
    | true => exact absurd hr (comesBack_ne_true hl hnd fun x _ => List.not_mem_nil)

end Marks
