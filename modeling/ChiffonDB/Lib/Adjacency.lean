import ChiffonDB.Lib.SList

/-!
# Families of intrusive lists

Every node of a graph heads a singly linked list, threaded through the edges it owns.

* `Adjacency` — the list of each live node holds the edges it owns, each of them once.
* `Adjacency.prepend`, `Adjacency.unlinkFirst`, `Adjacency.unlinkAfter` — **linking and unlinking an
  edge**.
* `Adjacency.addNode`, `Adjacency.restrict` — nodes that come and go.
-/

set_option autoImplicit false

variable {ν ε : Type}

/-- The lists `lists` of the live nodes, whose links are `first` and `next`, hold the edges that each
    node owns. -/
structure Adjacency (live : ν → Prop) (first : ν → Option ε) (next : ε → Option ε) (owner : ε → Option ν)
    (lists : ν → List ε) : Prop where
  threads : ∀ n, live n → Threads next (first n) (lists n) none
  nodup : ∀ n, live n → (lists n).Nodup
  mem : ∀ n, live n → ∀ e, e ∈ lists n ↔ owner e = some n

namespace Threads

variable {next : ε → Option ε} {a : Option ε} {l₁ l₂ : List ε} {x e : ε} [DecidableEq ε]

/-- Writing a link past the next node takes that node out. -/
theorem unlinkAfter (h : Threads next a (l₁ ++ x :: e :: l₂) none) (hnd : (l₁ ++ x :: e :: l₂).Nodup) :
    Threads (Function.update next x (next e)) a (l₁ ++ x :: l₂) none := by
  have hsplit : l₁ ++ x :: e :: l₂ = (l₁ ++ [x]) ++ e :: l₂ := by simp
  rw [hsplit] at h hnd
  obtain ⟨c, hfront, -, hback⟩ := threads_append.1 h
  have hx : x ∉ l₂ := fun hx => (List.nodup_append.1 hnd).2.2 x (by simp) x (by simp [hx]) rfl
  have hjoin := (hfront.redirect (List.nodup_append.1 hnd).1 (next e)).append
    (hback.update_of_notMem hx (next e))
  simpa using hjoin

end Threads

namespace Adjacency

variable {live live' : ν → Prop} {first first' : ν → Option ε} {next next' : ε → Option ε}
  {owner owner' : ε → Option ν} {lists : ν → List ε} {n : ν} {e x : ε} {l₁ l₂ : List ε}

/-- The links that matter are those of the live nodes and of the edges they own. -/
theorem congr (h : Adjacency live first next owner lists) (hlive : ∀ m, live' m → live m)
    (hfirst : ∀ m, live' m → first' m = first m) (hnext : ∀ d m, live' m → owner d = some m → next' d = next d)
    (howner : ∀ d m, live' m → (owner' d = some m ↔ owner d = some m)) :
    Adjacency live' first' next' owner' lists where
  threads m hm := by
    rw [hfirst m hm]
    exact (h.threads m (hlive m hm)).congr fun d hd => hnext d m hm ((h.mem m (hlive m hm) d).1 hd)
  nodup m hm := h.nodup m (hlive m hm)
  mem m hm d := (h.mem m (hlive m hm) d).trans (howner d m hm).symm

/-- An edge is on one list only. -/
theorem eq_of_mem (h : Adjacency live first next owner lists) {m : ν} (hn : live n) (hm : live m)
    (hen : e ∈ lists n) (hem : e ∈ lists m) : m = n :=
  Option.some.inj (((h.mem m hm e).1 hem).symm.trans ((h.mem n hn e).1 hen))

/-- A node that owns no edge has an empty list. -/
theorem lists_eq_nil (h : Adjacency live first next owner lists) (hn : live n)
    (hown : ∀ d, owner d ≠ some n) : lists n = [] :=
  List.eq_nil_iff_forall_not_mem.2 fun d hd => hown d ((h.mem n hn d).1 hd)

variable [DecidableEq ν] [DecidableEq ε]

/-- **Linking an edge at the head of a list.** -/
theorem prepend (h : Adjacency live first next owner lists) (hn : live n) (he : owner e = none) :
    Adjacency live (Function.update first n (some e)) (Function.update next e (first n))
      (Function.update owner e (some n)) (Function.update lists n (e :: lists n)) := by
  have hout : ∀ m, live m → e ∉ lists m := fun m hm hin => by
    rw [(h.mem m hm e).1 hin] at he
    cases he
  refine ⟨fun m hm => ?_, fun m hm => ?_, fun m hm d => ?_⟩
  · by_cases hmn : m = n
    · subst hmn
      rw [Function.update_self, Function.update_self]
      refine ⟨rfl, ?_⟩
      rw [Function.update_self]
      exact (h.threads m hm).update_of_notMem (hout m hm) _
    · rw [Function.update_of_ne hmn, Function.update_of_ne hmn]
      exact (h.threads m hm).update_of_notMem (hout m hm) _
  · by_cases hmn : m = n
    · subst hmn
      rw [Function.update_self]
      exact List.nodup_cons.2 ⟨hout m hm, h.nodup m hm⟩
    · rw [Function.update_of_ne hmn]
      exact h.nodup m hm
  · by_cases hde : d = e
    · subst hde
      rw [Function.update_self]
      by_cases hmn : m = n
      · simp [hmn]
      · rw [Function.update_of_ne hmn]
        exact iff_of_false (hout m hm) fun heq => hmn (Option.some.inj heq).symm
    · rw [Function.update_of_ne hde, ← h.mem m hm d]
      by_cases hmn : m = n
      · rw [hmn, Function.update_self, List.mem_cons]
        exact or_iff_right hde
      · rw [Function.update_of_ne hmn]

/-- The edges that are owned behind an unlinking. -/
theorem mem_unlink (h : Adjacency live first next owner lists) (hn : live n) {l : List ε}
    (hl : lists n = l₁ ++ e :: l) {m : ν} (hm : live m) (d : ε) :
    d ∈ Function.update lists n (l₁ ++ l) m ↔ Function.update owner e none d = some m := by
  have hnd := h.nodup n hn
  rw [hl] at hnd
  have hout : e ∉ l₁ ++ l := (List.nodup_middle.1 hnd).notMem
  by_cases hde : d = e
  · subst hde
    rw [Function.update_self]
    refine iff_of_false ?_ (by simp)
    by_cases hmn : m = n
    · rw [hmn, Function.update_self]
      exact hout
    · rw [Function.update_of_ne hmn]
      exact fun hin => hmn (h.eq_of_mem hn hm (by rw [hl]; simp) hin)
  · rw [Function.update_of_ne hde, ← h.mem m hm d]
    by_cases hmn : m = n
    · rw [hmn, Function.update_self, hl]
      simp [hde]
    · rw [Function.update_of_ne hmn]

omit [DecidableEq ε] in
theorem nodup_unlink (h : Adjacency live first next owner lists) (hn : live n) {l : List ε}
    (hl : lists n = l₁ ++ e :: l) {m : ν} (hm : live m) : (Function.update lists n (l₁ ++ l) m).Nodup := by
  by_cases hmn : m = n
  · rw [hmn, Function.update_self]
    have hnd := h.nodup n hn
    rw [hl] at hnd
    exact (List.nodup_middle.1 hnd).of_cons
  · rw [Function.update_of_ne hmn]
    exact h.nodup m hm

/-- **Unlinking the first edge of a list.** -/
theorem unlinkFirst (h : Adjacency live first next owner lists) (hn : live n) (hl : lists n = e :: l₂) :
    Adjacency live (Function.update first n (next e)) next (Function.update owner e none)
      (Function.update lists n l₂) where
  threads m hm := by
    by_cases hmn : m = n
    · subst hmn
      rw [Function.update_self, Function.update_self]
      have ht := h.threads m hm
      rw [hl] at ht
      exact ht.2
    · rw [Function.update_of_ne hmn, Function.update_of_ne hmn]
      exact h.threads m hm
  nodup m hm := h.nodup_unlink hn (show lists n = [] ++ _ from hl) hm
  mem m hm := h.mem_unlink hn (show lists n = [] ++ _ from hl) hm

/-- **Unlinking an edge behind another one.** -/
theorem unlinkAfter (h : Adjacency live first next owner lists) (hn : live n)
    (hl : lists n = l₁ ++ x :: e :: l₂) :
    Adjacency live first (Function.update next x (next e)) (Function.update owner e none)
      (Function.update lists n (l₁ ++ x :: l₂)) := by
  have hsplit : lists n = (l₁ ++ [x]) ++ e :: l₂ := by rw [hl]; simp
  have hjoin : l₁ ++ x :: l₂ = (l₁ ++ [x]) ++ l₂ := by simp
  refine ⟨fun m hm => ?_, fun m hm => ?_, fun m hm => ?_⟩
  · by_cases hmn : m = n
    · subst hmn
      rw [Function.update_self]
      have ht := h.threads m hm
      have hnd := h.nodup m hm
      rw [hl] at ht hnd
      exact ht.unlinkAfter hnd
    · rw [Function.update_of_ne hmn]
      refine (h.threads m hm).update_of_notMem (fun hx => hmn ?_) _
      exact h.eq_of_mem hn hm (by rw [hl]; simp) hx
  · rw [hjoin]
    exact h.nodup_unlink hn hsplit hm
  · rw [hjoin]
    exact h.mem_unlink hn hsplit hm

omit [DecidableEq ε] in
/-- **A new node, which owns no edge.** -/
theorem addNode (h : Adjacency live first next owner lists) (hown : ∀ d, owner d ≠ some n)
    (hlive : ∀ m, live' m → m = n ∨ live m) (hfirst : first' n = none)
    (hsame : ∀ m, m ≠ n → first' m = first m) :
    Adjacency live' first' next owner (Function.update lists n []) where
  threads m hm := by
    by_cases hmn : m = n
    · rw [hmn, Function.update_self, hfirst]
      rfl
    · rw [Function.update_of_ne hmn, hsame m hmn]
      exact h.threads m ((hlive m hm).resolve_left hmn)
  nodup m hm := by
    by_cases hmn : m = n
    · rw [hmn, Function.update_self]
      exact List.nodup_nil
    · rw [Function.update_of_ne hmn]
      exact h.nodup m ((hlive m hm).resolve_left hmn)
  mem m hm d := by
    by_cases hmn : m = n
    · rw [hmn, Function.update_self]
      exact iff_of_false List.not_mem_nil (hown d)
    · rw [Function.update_of_ne hmn]
      exact h.mem m ((hlive m hm).resolve_left hmn) d

end Adjacency
