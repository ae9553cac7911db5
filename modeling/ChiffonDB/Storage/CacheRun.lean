import ChiffonDB.Storage.PageCache

/-!
# Runs of the page cache

The calls of `PageCache` beside the same calls on a plain list of frames.

* `PlainCache` — the frames in the order of their last use, the least recently used one first.
* `PageCache.Matches` — the same capacity, frames, lookups and size, and no more frames than fit.
* `PageCache.runs_match` — **after any calls the cache has given the replies of the plain list, and matches it**.
-/

set_option autoImplicit false

namespace ChiffonDB

/-- What is cached of a page: its bytes, and whether they are dirty. -/
abbrev CachedPage : Type := PageData × Bool

inductive CacheCall where
  | get (pageId : UInt32)
  | put (pageId : UInt32) (data : PageData) (dirty : Bool)
  | remove (pageId : UInt32)
  | clear

inductive CacheReply where
  | page (data : Option PageData)
  | victim (v : Option DirtyVictim)
  | done

/-- A call of the cache. -/
def PageCache.call (c : PageCache) : CacheCall → CacheReply × PageCache
  | .get p => let (data, c) := c.get p; (.page data, c)
  | .put p data dirty => let (victim, c) := c.put p data dirty; (.victim victim, c)
  | .remove p => (.done, c.remove p)
  | .clear => (.done, c.clear)

/-! ## The plain list -/

/-- A cache that is a list of frames in the order of their last use. -/
structure PlainCache where
  capacity : Nat
  frames : List (UInt32 × CachedPage)

namespace PlainCache

def new (capacity : Nat) : PlainCache := ⟨max capacity 1, []⟩

/-- An evicted frame is given back when it is dirty. -/
def dirtyVictim : Option (UInt32 × CachedPage) → Option DirtyVictim
  | some (p, data, true) => some ⟨p, data⟩
  | _ => none

/-- A page that is dirty stays so. -/
def stillDirty (c : PlainCache) (p : UInt32) : Bool := ((Lru.find c.frames p).map Prod.snd).getD false

def call (c : PlainCache) : CacheCall → CacheReply × PlainCache
  | .get p => (.page ((Lru.find c.frames p).map Prod.fst), { c with frames := Lru.touch c.frames p })
  | .put p data dirty =>
    (.victim (dirtyVictim (Lru.victim c.capacity c.frames p)),
      { c with frames := Lru.insert c.capacity c.frames p (data, c.stillDirty p || dirty) })
  | .remove p => (.done, { c with frames := Lru.without c.frames p })
  | .clear => (.done, { c with frames := [] })

end PlainCache

/-- Calls one after another: their replies, and the cache behind them. -/
def replies {C : Type} (call : C → CacheCall → CacheReply × C) (c : C) : List CacheCall → List CacheReply × C
  | [] => ([], c)
  | op :: ops =>
    let (reply, c) := call c op
    let (rest, c) := replies call c ops
    (reply :: rest, c)

namespace PageCache

/-! ## One call -/

/-- The frame that a call gives back is the dirty one among those that the plain list drops. -/
theorem Refines.victim {c : PageCache} {l : List (UInt32 × CachedPage)} (h : Refines c l) (p : UInt32)
    (data : PageData) (dirty : Bool) :
    (c.put p data dirty).1 = PlainCache.dirtyVictim (Lru.victim c.capacity l p) := by
  obtain ⟨order, hw, rfl⟩ := h
  unfold PageCache.put Lru.victim
  rw [hw.find p]
  cases hl : c.index.lookup p with
  | some s => rfl
  | none =>
    have hsize : (c.contents order).length = order.length := by simp [contents]
    simp only [Option.map_none, ge_iff_le, hw.size, hsize]
    by_cases hfull : c.capacity ≤ order.length
    · rw [if_pos hfull, if_pos hfull]
      cases order with
      | nil => exact absurd hw.cap (by simp at hfull; omega)
      | cons s rest =>
        obtain ⟨-, -, -, -, hv⟩ := hw.evictLru
        show c.evictLru.1 = PlainCache.dirtyVictim (some (c.entry s))
        rw [hv]
        unfold entry
        cases (c.frame s).dirty <;> rfl
    · rw [if_neg hfull, if_neg hfull]
      rfl

theorem evictLru_capacity (c : PageCache) : c.evictLru.2.capacity = c.capacity := by
  unfold evictLru
  split
  · rfl
  · exact (unlink_sameData c _).capacity

theorem touch_capacity (c : PageCache) (s : Nat) : (c.touch s).capacity = c.capacity := by
  unfold touch
  split
  · exact ((unlink_sameData c s).trans (pushMru_sameData _ s)).capacity
  · rfl

theorem put_capacity (c : PageCache) (p : UInt32) (data : PageData) (dirty : Bool) :
    (c.put p data dirty).2.capacity = c.capacity := by
  unfold put
  split
  · exact touch_capacity _ _
  · split
    rename_i hevict
    rw [place_capacity]
    split at hevict
    · rw [← evictLru_capacity c, hevict]
    · cases hevict
      rfl

theorem remove_capacity (c : PageCache) (p : UInt32) : (c.remove p).capacity = c.capacity := by
  unfold remove
  split
  · rfl
  · exact (unlink_sameData _ _).capacity

/-- The cache is the plain one: the same frames in the same order, found under the same pages. -/
structure Matches (c : PageCache) (plain : PlainCache) : Prop where
  capacity : c.capacity = plain.capacity
  room : 0 < plain.capacity
  frames : Refines c plain.frames
  found : ∀ p, (c.index.lookup p).map (fun s => (c.entry s).2) = Lru.find plain.frames p
  size : c.len = plain.frames.length
  bounded : c.len ≤ plain.capacity

theorem Refines.matches {c : PageCache} {plain : PlainCache} (h : Refines c plain.frames)
    (hcap : c.capacity = plain.capacity) (hlen : plain.frames.length ≤ plain.capacity) : Matches c plain where
  capacity := hcap
  room := by
    obtain ⟨order, hw, -⟩ := h
    exact hcap ▸ hw.cap
  frames := h
  found p := by
    obtain ⟨order, hw, hc⟩ := h
    rw [← hc]
    exact (hw.find p).symm
  size := h.length_le
  bounded := h.length_le.trans_le hlen

theorem Matches.new (capacity : Nat) : Matches (PageCache.new capacity) (PlainCache.new capacity) :=
  (Refines.new capacity).matches rfl (Nat.zero_le _)

theorem Matches.call {c : PageCache} {plain : PlainCache} (h : Matches c plain) (op : CacheCall) :
    (c.call op).1 = (plain.call op).1 ∧ Matches (c.call op).2 (plain.call op).2 := by
  have hlen : plain.frames.length ≤ plain.capacity := h.size ▸ h.bounded
  cases op with
  | get p =>
    obtain ⟨hdata, hr⟩ := h.frames.get p
    exact ⟨congrArg CacheReply.page hdata, hr.matches ((get_capacity c p).trans h.capacity)
      ((Lru.length_touch plain.frames p).trans hlen)⟩
  | put p data dirty =>
    have hr := h.frames.put p data dirty
    have hv := h.frames.victim p data dirty
    rw [h.capacity] at hr hv
    exact ⟨congrArg CacheReply.victim hv, Refines.matches hr ((put_capacity c p data dirty).trans h.capacity)
      (Lru.length_insert_le h.room hlen p _)⟩
  | remove p =>
    exact ⟨rfl, (h.frames.remove p).matches ((remove_capacity c p).trans h.capacity)
      ((List.length_filter_le _ plain.frames).trans hlen)⟩
  | clear => exact ⟨rfl, h.frames.clear.matches h.capacity (Nat.zero_le _)⟩

/-! ## A run -/

theorem Matches.replies {c : PageCache} {plain : PlainCache} (h : Matches c plain) (ops : List CacheCall) :
    (replies PageCache.call c ops).1 = (replies PlainCache.call plain ops).1 ∧
      Matches (replies PageCache.call c ops).2 (replies PlainCache.call plain ops).2 := by
  induction ops generalizing c plain with
  | nil => exact ⟨rfl, h⟩
  | cons op ops ih =>
    obtain ⟨hreply, hnext⟩ := h.call op
    obtain ⟨hrest, hlast⟩ := ih hnext
    exact ⟨congrArg₂ List.cons hreply hrest, hlast⟩

/-- **Whatever its capacity and the calls, the cache gives the replies of the plain list, holds its frames in its
    order, and never more of them than its capacity.** -/
theorem runs_match (capacity : Nat) (ops : List CacheCall) :
    (replies PageCache.call (PageCache.new capacity) ops).1 =
        (replies PlainCache.call (PlainCache.new capacity) ops).1 ∧
      Matches (replies PageCache.call (PageCache.new capacity) ops).2
        (replies PlainCache.call (PlainCache.new capacity) ops).2 :=
  (Matches.new capacity).replies ops

end PageCache

end ChiffonDB
