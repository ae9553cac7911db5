import Mathlib.Data.List.Nodup
import Mathlib.Logic.Function.Basic

/-!
# Breadth-first search

Walks along labelled steps, and the state of a breadth-first search for the shortest of them.

* `Walk` — a walk, with the nodes it visits and the labels it follows; `Within` — a walk of a bounded length.
* `Frontier` — nodes that are done, a queue, and how every node was found; the rules `Frontier.initial`,
  `Frontier.discover` and `Frontier.pop`.
* `Frontier.least` — **a node that is found is found by a shortest walk**.
* `Frontier.exhausted` — with an empty queue every node within the limit has been found.
-/

set_option autoImplicit false

namespace ChiffonDB.Bfs

variable {α ε : Type}

/-- A walk from a node to a node. -/
inductive Walk (step : α → ε → α → Prop) : α → List α → List ε → α → Prop where
  | nil (a : α) : Walk step a [a] [] a
  | cons {a b c : α} {e : ε} {nodes : List α} {labels : List ε} (h : step a e b)
      (rest : Walk step b nodes labels c) : Walk step a (a :: nodes) (e :: labels) c

namespace Walk

variable {step : α → ε → α → Prop} {a b c : α} {e : ε} {nodes : List α} {labels : List ε}

theorem nodes_length (h : Walk step a nodes labels b) : nodes.length = labels.length + 1 := by
  induction h with
  | nil => rfl
  | cons _ _ ih => simp [ih]

/-- One more step at the end. -/
theorem snoc (h : Walk step a nodes labels b) (hs : step b e c) :
    Walk step a (nodes ++ [c]) (labels ++ [e]) c := by
  induction h with
  | nil a => exact .cons hs (.nil c)
  | cons hab _ ih => exact .cons hab (ih hs)

/-- The last step of a walk. -/
theorem unsnoc (h : Walk step a nodes labels b) :
    (nodes = [a] ∧ labels = [] ∧ a = b) ∨
      ∃ m e nodes' labels', Walk step a nodes' labels' m ∧ step m e b ∧ labels = labels' ++ [e] := by
  induction h with
  | nil a => exact .inl ⟨rfl, rfl, rfl⟩
  | cons hab rest ih =>
    rename_i x y z e' ns ls
    rcases ih with ⟨-, rfl, rfl⟩ | ⟨m, e, ns', ls', hw, hm, rfl⟩
    · exact .inr ⟨x, e', [x], [], .nil x, hab, rfl⟩
    · exact .inr ⟨m, e, x :: ns', e' :: ls', .cons hab hw, hm, rfl⟩

end Walk

/-- A node that a walk of no more than a number of steps leads to. -/
def Within (step : α → ε → α → Prop) (d : ℕ) (a b : α) : Prop :=
  ∃ nodes labels, Walk step a nodes labels b ∧ labels.length ≤ d

namespace Within

variable {step : α → ε → α → Prop} {a b : α} {d : ℕ}

theorem zero_iff : Within step 0 a b ↔ a = b := by
  constructor
  · rintro ⟨nodes, labels, hw, hlen⟩
    cases hw with
    | nil => rfl
    | cons h rest => exact absurd hlen (Nat.not_succ_le_zero _)
  · rintro rfl
    exact ⟨_, _, .nil a, Nat.le_refl 0⟩

/-- The first step of a walk. -/
theorem succ_iff : Within step (d + 1) a b ↔ a = b ∨ ∃ c e, step a e c ∧ Within step d c b := by
  constructor
  · rintro ⟨nodes, labels, hw, hlen⟩
    cases hw with
    | nil => exact .inl rfl
    | cons h rest => exact .inr ⟨_, _, h, _, _, rest, Nat.le_of_succ_le_succ hlen⟩
  · rintro (rfl | ⟨c, e, h, nodes, labels, hw, hlen⟩)
    · exact ⟨_, _, .nil a, Nat.zero_le _⟩
    · exact ⟨_, _, .cons h hw, Nat.succ_le_succ hlen⟩

end Within

/-- A search: the nodes that are done, those in the queue with the depth they were found at, and the
    step that each was found by. -/
structure Frontier (step : α → ε → α → Prop) (start : α) (limit : Nat) (parent : α → Option (ε × α))
    (depth : α → Nat) (done : List α) (queue : List (α × Nat)) : Prop where
  nodup : (done ++ queue.map Prod.fst).Nodup
  started : start ∈ done ++ queue.map Prod.fst ∧ depth start = 0
  /-- Every other node was found from one that was found before. -/
  found : ∀ v ∈ done ++ queue.map Prod.fst, v ≠ start → ∃ e u, parent v = some (e, u) ∧
    u ∈ done ++ queue.map Prod.fst ∧ step u e v ∧ depth v = depth u + 1
  depths : ∀ x ∈ queue, depth x.1 = x.2
  sorted : queue.Pairwise fun x y => x.2 ≤ y.2
  /-- The queue holds no more than two levels, the last ones. -/
  near : ∀ v ∈ done ++ queue.map Prod.fst, ∀ x ∈ queue, depth v ≤ x.2 + 1
  /-- A node that is done within the limit has passed its depth on. -/
  closed : ∀ v ∈ done, depth v < limit → ∀ e w, step v e w →
    w ∈ done ++ queue.map Prod.fst ∧ depth w ≤ depth v + 1

namespace Frontier

variable {step : α → ε → α → Prop} {start : α} {limit : Nat} {parent : α → Option (ε × α)}
  {depth : α → Nat} {done : List α} {queue : List (α × Nat)} {c w : α} {D : Nat} {e : ε}

/-- The search begins. -/
theorem initial (start : α) (parent : α → Option (ε × α)) :
    Frontier step start limit parent (fun _ => 0) [] [(start, 0)] where
  nodup := List.nodup_singleton _
  started := ⟨List.mem_singleton_self _, rfl⟩
  found v hv hne := absurd (List.mem_singleton.1 hv) hne
  depths x hx := by rw [List.mem_singleton.1 hx]
  sorted := List.pairwise_singleton _ _
  near v _ x _ := Nat.zero_le _
  closed v hv := absurd hv List.not_mem_nil

/-- What is in the queue is at least as deep as its head. -/
theorem head_le (h : Frontier step start limit parent depth done ((c, D) :: queue)) :
    ∀ x ∈ (c, D) :: queue, D ≤ x.2 := by
  intro x hx
  rcases List.mem_cons.1 hx with rfl | hx
  · exact Nat.le_refl _
  · exact (List.pairwise_cons.1 h.sorted).1 x hx

/-- A neighbour of the head is found. -/
theorem discover [DecidableEq α] (h : Frontier step start limit parent depth done ((c, D) :: queue))
    (hs : step c e w) (hw : w ∉ done ++ ((c, D) :: queue).map Prod.fst) :
    Frontier step start limit (Function.update parent w (some (e, c))) (Function.update depth w (D + 1)) done
      ((c, D) :: (queue ++ [(w, D + 1)])) := by
  have hsplit : done ++ ((c, D) :: (queue ++ [(w, D + 1)])).map Prod.fst =
      (done ++ ((c, D) :: queue).map Prod.fst) ++ [w] := by simp
  have hne : ∀ v ∈ done ++ ((c, D) :: queue).map Prod.fst, v ≠ w := fun v hv hvw => hw (hvw ▸ hv)
  have hc : c ∈ done ++ ((c, D) :: queue).map Prod.fst := by simp
  have hqueue : ∀ x ∈ (c, D) :: queue, x.1 ∈ done ++ ((c, D) :: queue).map Prod.fst := fun x hx =>
    List.mem_append_right _ (List.mem_map_of_mem hx)
  have hnew : ∀ x ∈ (c, D) :: (queue ++ [(w, D + 1)]), x ∈ (c, D) :: queue ∨ x = (w, D + 1) := by
    intro x hx
    rw [← List.cons_append] at hx
    exact (List.mem_append.1 hx).imp id fun hx => List.mem_singleton.1 hx
  refine ⟨?_, ⟨?_, ?_⟩, fun v hv hvs => ?_, fun x hx => ?_, ?_, fun v hv x hx => ?_, fun v hv hlim e' w' hs' => ?_⟩
  · rw [hsplit]
    exact List.nodup_append.2 ⟨h.nodup, List.nodup_singleton w, fun a ha b hb hab =>
      hw (by rw [← List.mem_singleton.1 hb, ← hab]; exact ha)⟩
  · rw [hsplit]
    exact List.mem_append_left _ h.started.1
  · rw [Function.update_of_ne (hne _ h.started.1), h.started.2]
  · rw [hsplit] at hv ⊢
    rcases List.mem_append.1 hv with hv | hv
    · obtain ⟨e', u, hp, hu, hsu, hd⟩ := h.found v hv hvs
      refine ⟨e', u, ?_, List.mem_append_left _ hu, hsu, ?_⟩
      · rw [Function.update_of_ne (hne v hv), hp]
      · rw [Function.update_of_ne (hne v hv), Function.update_of_ne (hne u hu), hd]
    · obtain rfl := List.mem_singleton.1 hv
      refine ⟨e, c, by rw [Function.update_self], List.mem_append_left _ hc, hs, ?_⟩
      rw [Function.update_self, Function.update_of_ne (hne c hc), h.depths (c, D) List.mem_cons_self]
  · rcases hnew x hx with hx | rfl
    · rw [Function.update_of_ne (hne _ (hqueue x hx)), h.depths x hx]
    · rw [Function.update_self]
  · rw [← List.cons_append, List.pairwise_append]
    refine ⟨h.sorted, List.pairwise_singleton _ _, fun x hx y hy => ?_⟩
    rw [List.mem_singleton.1 hy]
    have := h.near x.1 (hqueue x hx) (c, D) List.mem_cons_self
    rwa [h.depths x hx] at this
  · rw [hsplit] at hv
    have hD : D ≤ x.2 := by
      rcases hnew x hx with hx | rfl
      · exact h.head_le x hx
      · exact Nat.le_succ D
    rcases List.mem_append.1 hv with hv | hv
    · rw [Function.update_of_ne (hne v hv)]
      have := h.near v hv (c, D) List.mem_cons_self
      dsimp only at this
      omega
    · rw [List.mem_singleton.1 hv, Function.update_self]
      omega
  · have hv' : v ∈ done ++ ((c, D) :: queue).map Prod.fst := List.mem_append_left _ hv
    rw [Function.update_of_ne (hne v hv')] at hlim ⊢
    obtain ⟨hmem, hle⟩ := h.closed v hv hlim e' w' hs'
    rw [hsplit, Function.update_of_ne (hne w' hmem)]
    exact ⟨List.mem_append_left _ hmem, hle⟩

/-- The head is done: its neighbours have been found, or it is at the limit. -/
theorem pop (h : Frontier step start limit parent depth done ((c, D) :: queue))
    (hs : D < limit → ∀ e w, step c e w → w ∈ done ++ ((c, D) :: queue).map Prod.fst) :
    Frontier step start limit parent depth (done ++ [c]) queue := by
  have hsplit : (done ++ [c]) ++ queue.map Prod.fst = done ++ ((c, D) :: queue).map Prod.fst := by simp
  have hc : depth c = D := h.depths (c, D) List.mem_cons_self
  refine ⟨hsplit ▸ h.nodup, ⟨hsplit ▸ h.started.1, h.started.2⟩, hsplit ▸ h.found,
    fun x hx => h.depths x (List.mem_cons_of_mem _ hx), (List.pairwise_cons.1 h.sorted).2,
    fun v hv x hx => h.near v (hsplit ▸ hv) x (List.mem_cons_of_mem _ hx), fun v hv hlim e w hvw => ?_⟩
  rw [hsplit]
  rcases List.mem_append.1 hv with hv | hv
  · exact h.closed v hv hlim e w hvw
  · obtain rfl := List.mem_singleton.1 hv
    have hmem := hs (hc ▸ hlim) e w hvw
    exact ⟨hmem, hc ▸ h.near w hmem _ List.mem_cons_self⟩

/-- A walk that is no longer than the queue is deep ends at a node that has been found. -/
theorem reaches (h : Frontier step start limit parent depth done queue) :
    ∀ (k : Nat) {nodes : List α} {labels : List ε}, Walk step start nodes labels w → labels.length = k → k ≤ limit →
      (∀ x ∈ queue, k ≤ x.2) → w ∈ done ++ queue.map Prod.fst ∧ depth w ≤ k := by
  intro k
  induction k generalizing w with
  | zero =>
    intro nodes labels hw hk _ _
    rcases hw.unsnoc with ⟨-, -, rfl⟩ | ⟨m, e, ns, ls, -, -, rfl⟩
    · exact ⟨h.started.1, Nat.le_of_eq h.started.2⟩
    · simp at hk
  | succ k ih =>
    intro nodes labels hw hk hlimit hqueue
    rcases hw.unsnoc with ⟨-, rfl, -⟩ | ⟨m, e, ns, ls, hm, hs, rfl⟩
    · cases hk
    · have hlen : ls.length = k := by simpa using hk
      obtain ⟨hmem, hdm⟩ := ih hm hlen (by omega) fun x hx => Nat.le_of_succ_le (hqueue x hx)
      -- the node before is less deep than the queue, so that it is done
      have hdone : m ∈ done := by
        refine (List.mem_append.1 hmem).resolve_right fun hq => ?_
        obtain ⟨x, hx, rfl⟩ := List.mem_map.1 hq
        have := hqueue x hx
        rw [← h.depths x hx] at this
        omega
      obtain ⟨hw', hd⟩ := h.closed m hdone (by omega) e w hs
      exact ⟨hw', by omega⟩

/-- **A node that has not been found yet is farther than the head.** -/
theorem least (h : Frontier step start limit parent depth done ((c, D) :: queue)) (hD : D ≤ limit)
    (hw : w ∉ done ++ ((c, D) :: queue).map Prod.fst) {nodes : List α} {labels : List ε}
    (hwalk : Walk step start nodes labels w) : D < labels.length := by
  by_contra hle
  exact hw (h.reaches labels.length hwalk rfl (by omega) fun x hx => by
    have := h.head_le x hx
    omega).1

/-- **Nothing within the limit is left.** -/
theorem exhausted (h : Frontier step start limit parent depth done []) (hw : w ∉ done) {nodes : List α}
    {labels : List ε} (hwalk : Walk step start nodes labels w) : limit < labels.length := by
  by_contra hle
  have hmem := (h.reaches labels.length hwalk rfl (by omega) fun x hx => absurd hx List.not_mem_nil).1
  exact hw (by simpa using hmem)

end Frontier

end ChiffonDB.Bfs
