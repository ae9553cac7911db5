import Mathlib.Data.List.AList
import ChiffonDB.Lib.DList
import ChiffonDB.Lib.Lru
import ChiffonDB.Storage.Basic

/-!
# The page cache

`PageCache` of `storage/buffer.rs`: a slab of frames, a free stack of slab slots, an index from
page id to slot, and an intrusive list through the frames in order of use.

* `WF` — the slab, the index and the links describe one list of slots.
* `Refines.get`, `Refines.put`, `Refines.remove`, `Refines.clear` — **the cache refines the naive
  LRU list** (`Lru`), so what `get` returns is what was last `put`.
* `Refines.length_le` — the cache never holds more than `capacity` pages.
-/

set_option autoImplicit false

namespace ChiffonDB

/-- A cached page frame; `none` is the `NIL` neighbour. -/
structure Frame where
  pageId : UInt32
  data : PageData
  dirty : Bool
  prev : Option Nat
  next : Option Nat
  deriving Inhabited

/-- The update of a cached frame by `put`: once dirty, a page stays dirty. -/
def Frame.store (f : Frame) (data : PageData) (dirty : Bool) : Frame :=
  { f with data := data, dirty := f.dirty || dirty }

/-- `DirtyVictim`. -/
structure DirtyVictim where
  pageId : UInt32
  data : PageData

structure PageCache where
  capacity : Nat
  slab : List Frame
  /-- Vacated slots, the top of the stack first. -/
  free : List Nat
  index : AList (fun _ : UInt32 => Nat)
  lruHead : Option Nat
  mruTail : Option Nat

namespace PageCache

/-- `PageCache::new`. -/
def new (capacity : Nat) : PageCache where
  capacity := max capacity 1
  slab := []
  free := []
  index := ∅
  lruHead := none
  mruTail := none

def len (c : PageCache) : Nat := c.index.keys.length

/-- `self.slab[i]`. -/
def frame (c : PageCache) (i : Nat) : Frame := c.slab.getD i default

/-- An update of `self.slab[i]`. -/
def setFrame (c : PageCache) (i : Nat) (f : Frame → Frame) : PageCache :=
  { c with slab := c.slab.modify i f }

/-- The successor link of `prev`, or the head of the list when there is no `prev`. -/
def setNext (c : PageCache) (prev next : Option Nat) : PageCache :=
  match prev with
  | none => { c with lruHead := next }
  | some p => c.setFrame p (fun f => { f with next := next })

/-- The predecessor link of `next`, or the tail of the list when there is no `next`. -/
def setPrev (c : PageCache) (next prev : Option Nat) : PageCache :=
  match next with
  | none => { c with mruTail := prev }
  | some n => c.setFrame n (fun f => { f with prev := prev })

def unlink (c : PageCache) (slot : Nat) : PageCache :=
  let prev := (c.frame slot).prev
  let next := (c.frame slot).next
  ((c.setNext prev next).setPrev next prev).setFrame slot
    (fun f => { f with prev := none, next := none })

def pushMru (c : PageCache) (slot : Nat) : PageCache :=
  let tail := c.mruTail
  let c := c.setFrame slot (fun f => { f with prev := tail, next := none })
  { c.setNext tail (some slot) with mruTail := some slot }

def touch (c : PageCache) (slot : Nat) : PageCache :=
  if c.mruTail ≠ some slot then (c.unlink slot).pushMru slot else c

def get (c : PageCache) (pageId : UInt32) : Option PageData × PageCache :=
  match c.index.lookup pageId with
  | none => (none, c)
  | some slot =>
    let c := c.touch slot
    (some (c.frame slot).data, c)

def evictLru (c : PageCache) : Option DirtyVictim × PageCache :=
  match c.lruHead with
  | none => (none, c)
  | some slot =>
    let c := c.unlink slot
    let frame := c.frame slot
    let c := { c with free := slot :: c.free, index := c.index.erase frame.pageId }
    (if frame.dirty then some ⟨frame.pageId, frame.data⟩ else none, c)

/-- The part of `put` behind the eviction: take a slot, index it, link it at the end. -/
def place (c : PageCache) (frame : Frame) : PageCache :=
  let (slot, c) := match c.free with
    | slot :: free => (slot, { c with slab := c.slab.set slot frame, free := free })
    | [] => (c.slab.length, { c with slab := c.slab ++ [frame] })
  pushMru { c with index := c.index.insert frame.pageId slot } slot

def put (c : PageCache) (pageId : UInt32) (data : PageData) (dirty : Bool) :
    Option DirtyVictim × PageCache :=
  match c.index.lookup pageId with
  | some slot =>
    (none, (c.setFrame slot (fun f => f.store data dirty)).touch slot)
  | none =>
    let (victim, c) := if c.len ≥ c.capacity then c.evictLru else (none, c)
    (victim, c.place { pageId := pageId, data := data, dirty := dirty, prev := none, next := none })

def remove (c : PageCache) (pageId : UInt32) : PageCache :=
  match c.index.lookup pageId with
  | none => c
  | some slot =>
    let c := { c with index := c.index.erase pageId }.unlink slot
    { c with free := slot :: c.free }

def clear (c : PageCache) : PageCache :=
  { c with slab := [], free := [], index := ∅, lruHead := none, mruTail := none }

/-! ## Frames -/

theorem frame_setFrame (c : PageCache) (i : Nat) (f : Frame → Frame) (j : Nat) :
    (c.setFrame i f).frame j = if i = j ∧ j < c.slab.length then f (c.frame j) else c.frame j := by
  unfold frame setFrame
  simp only [List.getD_eq_getElem?_getD, List.getElem?_modify]
  by_cases hj : j < c.slab.length
  · by_cases hi : i = j <;> simp [hi, hj]
  · simp [hj]

@[simp] theorem length_setFrame (c : PageCache) (i : Nat) (f : Frame → Frame) :
    (c.setFrame i f).slab.length = c.slab.length := by
  simp [setFrame]

/-- What a slot caches, links aside. -/
def entry (c : PageCache) (i : Nat) : UInt32 × (PageData × Bool) :=
  ((c.frame i).pageId, ((c.frame i).data, (c.frame i).dirty))

/-- `c'` differs from `c` in its links only. -/
structure SameData (c c' : PageCache) : Prop where
  capacity : c'.capacity = c.capacity
  slabLen : c'.slab.length = c.slab.length
  free : c'.free = c.free
  index : c'.index = c.index
  entry : ∀ j, c'.entry j = c.entry j

theorem SameData.refl (c : PageCache) : SameData c c := ⟨rfl, rfl, rfl, rfl, fun _ => rfl⟩

theorem SameData.trans {c c' c'' : PageCache} (h : SameData c c') (h' : SameData c' c'') :
    SameData c c'' where
  capacity := h'.capacity.trans h.capacity
  slabLen := h'.slabLen.trans h.slabLen
  free := h'.free.trans h.free
  index := h'.index.trans h.index
  entry j := (h'.entry j).trans (h.entry j)

/-- A frame update that leaves the page alone. -/
theorem sameData_setFrame (c : PageCache) (i : Nat) {f : Frame → Frame}
    (hf : ∀ fr, (f fr).pageId = fr.pageId ∧ (f fr).data = fr.data ∧ (f fr).dirty = fr.dirty) :
    SameData c (c.setFrame i f) where
  capacity := rfl
  slabLen := length_setFrame c i f
  free := rfl
  index := rfl
  entry j := by
    unfold entry
    rw [frame_setFrame]
    split
    · rw [(hf _).1, (hf _).2.1, (hf _).2.2]
    · rfl

theorem sameData_setNext (c : PageCache) (prev next : Option Nat) :
    SameData c (c.setNext prev next) := by
  cases prev with
  | none => exact ⟨rfl, rfl, rfl, rfl, fun _ => rfl⟩
  | some p => exact sameData_setFrame c p (fun _ => ⟨rfl, rfl, rfl⟩)

theorem sameData_setPrev (c : PageCache) (next prev : Option Nat) :
    SameData c (c.setPrev next prev) := by
  cases next with
  | none => exact ⟨rfl, rfl, rfl, rfl, fun _ => rfl⟩
  | some n => exact sameData_setFrame c n (fun _ => ⟨rfl, rfl, rfl⟩)

theorem unlink_sameData (c : PageCache) (s : Nat) : SameData c (c.unlink s) :=
  ((sameData_setNext c _ _).trans (sameData_setPrev _ _ _)).trans
    (sameData_setFrame _ s (fun _ => ⟨rfl, rfl, rfl⟩))

theorem pushMru_sameData (c : PageCache) (s : Nat) : SameData c (c.pushMru s) := by
  have h1 : SameData c (c.setFrame s (fun f => { f with prev := c.mruTail, next := none })) :=
    sameData_setFrame c s (fun _ => ⟨rfl, rfl, rfl⟩)
  have h2 := h1.trans (sameData_setNext _ c.mruTail (some s))
  exact ⟨h2.capacity, h2.slabLen, h2.free, h2.index, h2.entry⟩

/-! ## The list of slots -/

/-- The links thread the slots of `order`, least recently used first. -/
structure Threaded (c : PageCache) (order : List Nat) : Prop where
  linked : DLinked (fun i => (c.frame i).prev) (fun i => (c.frame i).next) order
  head : c.lruHead = order.head?
  tail : c.mruTail = order.getLast?
  nodup : order.Nodup
  bound : ∀ s ∈ order, s < c.slab.length

theorem setNext_frame (c : PageCache) (prev next : Option Nat) {y : Nat}
    (hb : y < c.slab.length) : ((c.setNext prev next).frame y).prev = (c.frame y).prev ∧
      ((c.setNext prev next).frame y).next = if prev = some y then next else (c.frame y).next := by
  cases prev with
  | none => exact ⟨rfl, rfl⟩
  | some p =>
    simp only [setNext, frame_setFrame, hb, and_true, Option.some.injEq]
    by_cases hp : p = y <;> simp [hp]

theorem setPrev_frame (c : PageCache) (next prev : Option Nat) {y : Nat}
    (hb : y < c.slab.length) : ((c.setPrev next prev).frame y).next = (c.frame y).next ∧
      ((c.setPrev next prev).frame y).prev = if next = some y then prev else (c.frame y).prev := by
  cases next with
  | none => exact ⟨rfl, rfl⟩
  | some n =>
    simp only [setPrev, frame_setFrame, hb, and_true, Option.some.injEq]
    by_cases hn : n = y <;> simp [hn]

/-- The links of the other slots after `unlink`. -/
theorem unlink_frame (c : PageCache) {s y : Nat} (hy : y ≠ s) (hb : y < c.slab.length) :
    ((c.unlink s).frame y).prev =
        (if (c.frame s).next = some y then (c.frame s).prev else (c.frame y).prev) ∧
      ((c.unlink s).frame y).next =
        if (c.frame s).prev = some y then (c.frame s).next else (c.frame y).next := by
  have h1 := setNext_frame c (c.frame s).prev (c.frame s).next hb
  have hb' : y < (c.setNext (c.frame s).prev (c.frame s).next).slab.length := by
    rw [(sameData_setNext c _ _).slabLen]; exact hb
  have h2 := setPrev_frame (c.setNext (c.frame s).prev (c.frame s).next) (c.frame s).next
    (c.frame s).prev hb'
  unfold unlink
  simp only [frame_setFrame, Ne.symm hy, false_and, if_false]
  rw [h2.1, h2.2, h1.1, h1.2]
  exact ⟨rfl, rfl⟩

theorem Threaded.unlink {c : PageCache} {a b : List Nat} {s : Nat} (h : Threaded c (a ++ s :: b)) :
    Threaded (c.unlink s) (a ++ b) := by
  have hprev : (c.frame s).prev = a.getLast? := h.linked.prev a s b rfl
  have hnext : (c.frame s).next = b.head? := h.linked.next a s b rfl
  have hmem : ∀ y ∈ a ++ b, y ∈ a ++ s :: b ∧ y ≠ s := by
    intro y hy
    have hs : s ∉ a ++ b := (List.nodup_middle.1 h.nodup |> List.nodup_cons.1).1
    refine ⟨?_, fun he => hs (he ▸ hy)⟩
    rcases List.mem_append.1 hy with h1 | h1
    · exact List.mem_append_left _ h1
    · exact List.mem_append_right _ (List.mem_cons_of_mem _ h1)
  constructor
  · refine h.linked.unlink h.nodup ?_ ?_
    · intro y hy
      obtain ⟨h1, h2⟩ := hmem y hy
      rw [(unlink_frame c h2 (h.bound y h1)).1, hprev, hnext]
    · intro y hy
      obtain ⟨h1, h2⟩ := hmem y hy
      rw [(unlink_frame c h2 (h.bound y h1)).2, hprev, hnext]
  · have hh : (c.unlink s).lruHead = if a.getLast? = none then b.head? else c.lruHead := by
      unfold PageCache.unlink setNext setPrev
      rw [hprev, hnext]
      cases a.getLast? <;> cases b.head? <;> rfl
    rw [hh, h.head]
    cases a with
    | nil => rfl
    | cons x a => simp [List.getLast?_cons]
  · have ht : (c.unlink s).mruTail = if b.head? = none then a.getLast? else c.mruTail := by
      unfold PageCache.unlink setNext setPrev
      rw [hprev, hnext]
      cases a.getLast? <;> cases b.head? <;> rfl
    rw [ht, h.tail]
    cases b with
    | nil => simp
    | cons x b => simp [List.getLast?_append, List.getLast?_cons]
  · exact (List.nodup_cons.1 (List.nodup_middle.1 h.nodup)).2
  · intro y hy
    rw [(unlink_sameData c s).slabLen]
    exact h.bound y (hmem y hy).1

/-- The links of every slot after `pushMru`. -/
theorem pushMru_frame (c : PageCache) {s y : Nat} (hs : c.mruTail ≠ some s)
    (hb : y < c.slab.length) :
    ((c.pushMru s).frame y).prev = (if s = y then c.mruTail else (c.frame y).prev) ∧
      ((c.pushMru s).frame y).next =
        if s = y then none else if c.mruTail = some y then some s else (c.frame y).next := by
  have hb' : y < (c.setFrame s (fun f => { f with prev := c.mruTail, next := none })).slab.length := by
    rw [length_setFrame]; exact hb
  have h := setNext_frame (c.setFrame s (fun f => { f with prev := c.mruTail, next := none }))
    c.mruTail (some s) hb'
  have hfr : (c.pushMru s).frame y = ((c.setFrame s (fun f =>
    { f with prev := c.mruTail, next := none })).setNext c.mruTail (some s)).frame y := rfl
  rw [hfr, h.1, h.2, frame_setFrame]
  simp only [hb, and_true]
  by_cases hy : s = y
  · subst hy; simp [hs]
  · simp [hy]

theorem Threaded.pushMru {c : PageCache} {order : List Nat} {s : Nat} (h : Threaded c order)
    (hs : s ∉ order) (hb : s < c.slab.length) : Threaded (c.pushMru s) (order ++ [s]) := by
  have htail : c.mruTail ≠ some s := by
    rw [h.tail]
    exact fun he => hs (List.mem_of_mem_getLast? he)
  have hne : ∀ y ∈ order, s ≠ y := fun y hy he => hs (he ▸ hy)
  constructor
  · refine h.linked.pushBack hs h.nodup ?_ ?_ ?_ ?_
    · intro y hy
      rw [(pushMru_frame c htail (h.bound y hy)).1, if_neg (hne y hy)]
    · intro y hy
      rw [(pushMru_frame c htail (h.bound y hy)).2, if_neg (hne y hy), h.tail]
    · show ((c.pushMru s).frame s).prev = _
      rw [(pushMru_frame c htail hb).1, if_pos rfl, h.tail]
    · show ((c.pushMru s).frame s).next = _
      rw [(pushMru_frame c htail hb).2, if_pos rfl]
  · have hh : (c.pushMru s).lruHead = if c.mruTail = none then some s else c.lruHead := by
      unfold PageCache.pushMru setNext
      cases c.mruTail <;> rfl
    rw [hh, h.tail, h.head]
    cases order with
    | nil => rfl
    | cons x l => simp [List.getLast?_cons]
  · show some s = _
    simp
  · rw [List.nodup_append]
    refine ⟨h.nodup, by simp, ?_⟩
    rintro y hy z hz rfl
    exact hs (List.mem_singleton.1 hz ▸ hy)
  · intro y hy
    rw [(pushMru_sameData c s).slabLen]
    rcases List.mem_append.1 hy with h1 | h1
    · exact h.bound y h1
    · rw [List.mem_singleton.1 h1]; exact hb

theorem Threaded.congr {c c' : PageCache} {order : List Nat} (h : Threaded c order)
    (hf : ∀ s ∈ order, (c'.frame s).prev = (c.frame s).prev ∧ (c'.frame s).next = (c.frame s).next)
    (hh : c'.lruHead = c.lruHead) (ht : c'.mruTail = c.mruTail)
    (hl : c.slab.length ≤ c'.slab.length) : Threaded c' order where
  linked :=
    { prev := fun a x b he => by
        show (c'.frame x).prev = _
        rw [(hf x (by rw [he]; simp)).1]; exact h.linked.prev a x b he
      next := fun a x b he => by
        show (c'.frame x).next = _
        rw [(hf x (by rw [he]; simp)).2]; exact h.linked.next a x b he }
  head := hh.trans h.head
  tail := ht.trans h.tail
  nodup := h.nodup
  bound s hs := Nat.lt_of_lt_of_le (h.bound s hs) hl

/-! ## The invariant -/

/-- The links, the index and the free stack describe the slots of `order`. -/
structure WF (c : PageCache) (order : List Nat) : Prop extends Threaded c order where
  cap : 0 < c.capacity
  lookup : ∀ p s, c.index.lookup p = some s ↔ s ∈ order ∧ (c.frame s).pageId = p
  size : c.len = order.length
  freeBound : ∀ s ∈ c.free, s < c.slab.length
  freeOut : ∀ s ∈ c.free, s ∉ order
  freeNodup : c.free.Nodup

/-- The cached pages, least recently used first. -/
def contents (c : PageCache) (order : List Nat) : List (UInt32 × (PageData × Bool)) :=
  order.map c.entry

theorem SameData.pageId {c c' : PageCache} (h : SameData c c') (s : Nat) :
    (c'.frame s).pageId = (c.frame s).pageId := congrArg Prod.fst (h.entry s)

theorem SameData.contents {c c' : PageCache} (h : SameData c c') (order : List Nat) :
    c'.contents order = c.contents order := List.map_congr_left (fun s _ => h.entry s)

/-- Reordering the links keeps the invariant. -/
theorem WF.reorder {c c' : PageCache} {order order' : List Nat} (h : WF c order)
    (hs : SameData c c') (ht : Threaded c' order') (hp : order'.Perm order) : WF c' order' where
  toThreaded := ht
  cap := by rw [hs.capacity]; exact h.cap
  lookup p s := by rw [hs.index, hs.pageId, hp.mem_iff]; exact h.lookup p s
  size := by unfold len; rw [hs.index, hp.length_eq]; exact h.size
  freeBound s hm := by rw [hs.free] at hm; rw [hs.slabLen]; exact h.freeBound s hm
  freeOut s hm := by rw [hs.free] at hm; rw [hp.mem_iff]; exact h.freeOut s hm
  freeNodup := by rw [hs.free]; exact h.freeNodup

theorem WF.nodupKeys {c : PageCache} {order : List Nat} (h : WF c order) :
    Lru.NodupKeys (c.contents order) := by
  unfold Lru.NodupKeys contents
  rw [List.map_map, List.nodup_map_iff_inj_on h.nodup]
  intro s hs t ht he
  have h1 := (h.lookup _ s).2 ⟨hs, rfl⟩
  have h2 : c.index.lookup (c.frame s).pageId = some t := (h.lookup _ t).2 ⟨ht, Eq.symm he⟩
  rw [h1] at h2
  exact Option.some.inj h2

theorem WF.find {c : PageCache} {order : List Nat} (h : WF c order) (p : UInt32) :
    Lru.find (c.contents order) p = (c.index.lookup p).map (fun s => (c.entry s).2) := by
  cases hl : c.index.lookup p with
  | none =>
    rw [Option.map_none, Lru.find_eq_none_iff]
    intro e he hp
    obtain ⟨s, hs, rfl⟩ := List.mem_map.1 he
    rw [(h.lookup p s).2 ⟨hs, hp⟩] at hl
    cases hl
  | some s =>
    obtain ⟨hs, hp⟩ := (h.lookup p s).1 hl
    apply Lru.find_of_mem h.nodupKeys
    have : (p, (c.entry s).2) = c.entry s := by rw [← hp]; rfl
    rw [this]
    exact List.mem_map_of_mem hs

/-- Dropping a slot's page from the contents drops the slot. -/
theorem WF.without {c : PageCache} {a b : List Nat} {s : Nat} (h : WF c (a ++ s :: b)) :
    Lru.without (c.contents (a ++ s :: b)) (c.frame s).pageId = c.contents (a ++ b) := by
  have hne : ∀ y ∈ a ++ b, (c.frame y).pageId ≠ (c.frame s).pageId := by
    intro y hy he
    have hs : s ∉ a ++ b := (List.nodup_cons.1 (List.nodup_middle.1 h.nodup)).1
    have hmem : y ∈ a ++ s :: b := by
      rcases List.mem_append.1 hy with h1 | h1
      · exact List.mem_append_left _ h1
      · exact List.mem_append_right _ (List.mem_cons_of_mem _ h1)
    have h1 := (h.lookup _ y).2 ⟨hmem, rfl⟩
    rw [he, (h.lookup _ s).2 ⟨by simp, rfl⟩] at h1
    exact hs (Option.some.inj h1 ▸ hy)
  have hkeep : ∀ l : List Nat, (∀ y ∈ l, (c.frame y).pageId ≠ (c.frame s).pageId) →
      Lru.without (c.contents l) (c.frame s).pageId = c.contents l := by
    intro l hl
    apply Lru.without_eq_self
    intro e he
    obtain ⟨y, hy, rfl⟩ := List.mem_map.1 he
    exact hl y hy
  unfold contents at hkeep ⊢
  rw [List.map_append, List.map_cons, Lru.without_append,
    hkeep a (fun y hy => hne y (List.mem_append_left _ hy))]
  have hcons : Lru.without (c.entry s :: b.map c.entry) (c.frame s).pageId =
      Lru.without (b.map c.entry) (c.frame s).pageId := by
    unfold Lru.without
    rw [List.filter_cons_of_neg (by simp [entry])]
  rw [hcons, hkeep b (fun y hy => hne y (List.mem_append_right _ hy)), List.map_append]

theorem WF.touch {c : PageCache} {a b : List Nat} {s : Nat} (h : WF c (a ++ s :: b)) :
    WF (c.touch s) (a ++ b ++ [s]) ∧ SameData c (c.touch s) := by
  have hperm : (a ++ b ++ [s]).Perm (a ++ s :: b) := by
    rw [List.append_assoc]
    exact List.Perm.append_left a List.perm_append_comm
  unfold PageCache.touch
  split
  · have hs : s ∉ a ++ b := (List.nodup_cons.1 (List.nodup_middle.1 h.nodup)).1
    have hsame := (unlink_sameData c s).trans (pushMru_sameData (c.unlink s) s)
    refine ⟨h.reorder hsame (h.unlink.pushMru hs ?_) hperm, hsame⟩
    rw [(unlink_sameData c s).slabLen]
    exact h.bound s (by simp)
  · rename_i ht
    rw [not_not, h.tail] at ht
    have hb : b = [] := by
      by_contra hb
      exact DLinked.getLast?_ne h.nodup hb ht
    subst hb
    rw [List.append_nil]
    exact ⟨h, SameData.refl c⟩

/-! ## Refinement of the LRU list -/

/-- The cache holds the pages `l`, least recently used first; the flag is the dirty bit. -/
def Refines (c : PageCache) (l : List (UInt32 × (PageData × Bool))) : Prop :=
  ∃ order, WF c order ∧ c.contents order = l

theorem Refines.new (cap : Nat) : Refines (PageCache.new cap) [] := by
  refine ⟨[], ⟨⟨DLinked.nil _ _, rfl, rfl, List.nodup_nil, by simp⟩, ?_, ?_, rfl, ?_, ?_, ?_⟩, rfl⟩
  · show 0 < max cap 1
    omega
  · intro p s
    simp [PageCache.new, AList.lookup_empty]
  · simp [PageCache.new]
  · simp [PageCache.new]
  · exact List.nodup_nil

/-- **`get` returns the cached page and makes it the most recently used.** -/
theorem Refines.get {c : PageCache} {l : List (UInt32 × (PageData × Bool))} (h : Refines c l)
    (p : UInt32) : (c.get p).1 = (Lru.find l p).map Prod.fst ∧ Refines (c.get p).2 (Lru.touch l p) := by
  obtain ⟨order, hw, rfl⟩ := h
  unfold PageCache.get Lru.touch
  rw [hw.find p]
  cases hl : c.index.lookup p with
  | none => exact ⟨rfl, order, hw, rfl⟩
  | some s =>
    obtain ⟨hs, rfl⟩ := (hw.lookup p s).1 hl
    obtain ⟨a, b, rfl⟩ := List.append_of_mem hs
    obtain ⟨hw', hsame⟩ := hw.touch
    refine ⟨?_, a ++ b ++ [s], hw', ?_⟩
    · have := congrArg (fun e => e.2.1) (hsame.entry s)
      simpa [entry] using this
    · rw [hsame.contents]
      simp only [Option.map_some]
      rw [hw.without]
      simp [contents, entry]

theorem WF.erase {c : PageCache} {a b : List Nat} {s : Nat} (h : WF c (a ++ s :: b)) :
    WF { c.unlink s with free := s :: c.free, index := c.index.erase (c.frame s).pageId }
      (a ++ b) where
  toThreaded := h.unlink.congr (fun _ _ => ⟨rfl, rfl⟩) rfl rfl (Nat.le_refl _)
  cap := by
    show 0 < (c.unlink s).capacity
    rw [(unlink_sameData c s).capacity]; exact h.cap
  lookup p t := by
    show (c.index.erase (c.frame s).pageId).lookup p = some t ↔
      t ∈ a ++ b ∧ ((c.unlink s).frame t).pageId = p
    rw [(unlink_sameData c s).pageId]
    have hs : s ∉ a ++ b := (List.nodup_cons.1 (List.nodup_middle.1 h.nodup)).1
    by_cases hp : p = (c.frame s).pageId
    · subst hp
      rw [AList.lookup_erase]
      constructor
      · intro hn; cases hn
      · rintro ⟨ht, he⟩
        have ht' : t ∈ a ++ s :: b := by
          rcases List.mem_append.1 ht with h1 | h1
          · exact List.mem_append_left _ h1
          · exact List.mem_append_right _ (List.mem_cons_of_mem _ h1)
        have h1 := (h.lookup _ t).2 ⟨ht', he⟩
        rw [(h.lookup _ s).2 ⟨by simp, rfl⟩] at h1
        exact absurd (Option.some.inj h1 ▸ ht) hs
    · rw [AList.lookup_erase_ne hp, h.lookup p t]
      constructor
      · rintro ⟨ht, he⟩
        have hts : t ≠ s := fun hts => hp (by rw [← he, hts])
        refine ⟨?_, he⟩
        simpa [hts] using ht
      · rintro ⟨ht, he⟩
        refine ⟨?_, he⟩
        rcases List.mem_append.1 ht with h1 | h1
        · exact List.mem_append_left _ h1
        · exact List.mem_append_right _ (List.mem_cons_of_mem _ h1)
  size := by
    show (c.index.erase (c.frame s).pageId).keys.length = _
    have hk : (c.frame s).pageId ∈ c.index.keys := by
      rw [← AList.mem_keys, ← AList.lookup_isSome, (h.lookup _ s).2 ⟨by simp, rfl⟩]; rfl
    have hsz : c.index.keys.length = (a ++ s :: b).length := h.size
    rw [AList.keys_erase, List.length_erase_of_mem hk, hsz]
    simp
  freeBound t ht := by
    show t < (c.unlink s).slab.length
    rw [(unlink_sameData c s).slabLen]
    rcases List.mem_cons.1 ht with rfl | ht
    · exact h.bound _ (by simp)
    · exact h.freeBound t ht
  freeOut t ht := by
    have hs : s ∉ a ++ b := (List.nodup_cons.1 (List.nodup_middle.1 h.nodup)).1
    rcases List.mem_cons.1 ht with rfl | ht
    · exact hs
    · intro hm
      apply h.freeOut t ht
      rcases List.mem_append.1 hm with h1 | h1
      · exact List.mem_append_left _ h1
      · exact List.mem_append_right _ (List.mem_cons_of_mem _ h1)
  freeNodup := List.nodup_cons.2 ⟨fun hm => h.freeOut s hm (by simp), h.freeNodup⟩

/-- Unlinking does not look at the index. -/
theorem unlink_index (c : PageCache) (index : AList (fun _ : UInt32 => Nat)) (s : Nat) :
    { c with index := index }.unlink s = { c.unlink s with index := index } := by
  have hfr : ({ c with index := index } : PageCache).frame s = c.frame s := rfl
  unfold unlink setNext setPrev
  rw [hfr]
  cases (c.frame s).prev <;> cases (c.frame s).next <;> rfl

/-- **`remove` drops the page.** -/
theorem Refines.remove {c : PageCache} {l : List (UInt32 × (PageData × Bool))} (h : Refines c l)
    (p : UInt32) : Refines (c.remove p) (Lru.without l p) := by
  obtain ⟨order, hw, rfl⟩ := h
  unfold PageCache.remove
  cases hl : c.index.lookup p with
  | none =>
    have hf := hw.find p
    rw [hl, Option.map_none, Lru.find_eq_none_iff] at hf
    exact ⟨order, hw, (Lru.without_eq_self hf).symm⟩
  | some s =>
    obtain ⟨hs, rfl⟩ := (hw.lookup p s).1 hl
    obtain ⟨a, b, rfl⟩ := List.append_of_mem hs
    rw [hw.without]
    refine ⟨a ++ b, ?_, ?_⟩
    · simp only [unlink_index, (unlink_sameData c s).free]
      exact hw.erase
    · simp only [unlink_index]
      exact (unlink_sameData c s).contents (a ++ b)

theorem Refines.clear {c : PageCache} {l : List (UInt32 × (PageData × Bool))} (h : Refines c l) :
    Refines c.clear [] := by
  obtain ⟨order, hw, _⟩ := h
  refine ⟨[], ⟨⟨DLinked.nil _ _, rfl, rfl, List.nodup_nil, by simp⟩, hw.cap, ?_, rfl, ?_, ?_, ?_⟩,
    rfl⟩
  · intro p s
    simp [PageCache.clear, AList.lookup_empty]
  · simp [PageCache.clear]
  · simp [PageCache.clear]
  · exact List.nodup_nil

/-- The eviction `put` makes when the cache is full. -/
theorem WF.evictLru {c : PageCache} {s : Nat} {rest : List Nat} (h : WF c (s :: rest)) :
    WF c.evictLru.2 rest ∧ c.evictLru.2.contents rest = c.contents rest ∧
      c.evictLru.2.capacity = c.capacity ∧
      (∀ p, p ≠ (c.frame s).pageId → c.evictLru.2.index.lookup p = c.index.lookup p) ∧
      c.evictLru.1 = if (c.frame s).dirty then some ⟨(c.frame s).pageId, (c.frame s).data⟩ else none := by
  have hsame := unlink_sameData c s
  have hent := hsame.entry s
  have hpage : ((c.unlink s).frame s).pageId = (c.frame s).pageId := hsame.pageId s
  have hdata : ((c.unlink s).frame s).data = (c.frame s).data := congrArg (fun e => e.2.1) hent
  have hdirty : ((c.unlink s).frame s).dirty = (c.frame s).dirty := congrArg (fun e => e.2.2) hent
  have hhead : c.lruHead = some s := h.head
  unfold PageCache.evictLru
  rw [hhead]
  simp only [hpage, hdata, hdirty, hsame.free, hsame.index]
  refine ⟨WF.erase (a := []) h, hsame.contents rest, hsame.capacity, ?_, trivial⟩
  intro p hp
  exact AList.lookup_erase_ne hp

/-- `c₁` is `c` with the frame `fr` stored and indexed at slot `s`, not yet linked. -/
structure Stored (c c₁ : PageCache) (order : List Nat) (s : Nat) (fr : Frame) : Prop where
  fresh : s ∉ order
  bound : s < c₁.slab.length
  capacity : c₁.capacity = c.capacity
  index : c₁.index = c.index.insert fr.pageId s
  slabLen : c.slab.length ≤ c₁.slab.length
  head : c₁.lruHead = c.lruHead
  tail : c₁.mruTail = c.mruTail
  here : c₁.frame s = fr
  others : ∀ y ∈ order, c₁.frame y = c.frame y
  free : ∀ y ∈ c₁.free, y < c₁.slab.length ∧ y ∉ order ∧ y ≠ s
  freeNodup : c₁.free.Nodup

theorem WF.link {c c₁ : PageCache} {order : List Nat} {s : Nat} {fr : Frame} (h : WF c order)
    (hn : c.index.lookup fr.pageId = none) (hst : Stored c c₁ order s fr) :
    WF (c₁.pushMru s) (order ++ [s]) where
  toThreaded := by
    have hth : Threaded c₁ order := h.toThreaded.congr
      (fun y hy => by rw [hst.others y hy]; exact ⟨rfl, rfl⟩) hst.head hst.tail hst.slabLen
    exact hth.pushMru hst.fresh hst.bound
  cap := by rw [(pushMru_sameData c₁ s).capacity, hst.capacity]; exact h.cap
  lookup p t := by
    have hsame := pushMru_sameData c₁ s
    rw [hsame.index, hst.index, hsame.pageId, List.mem_append, List.mem_singleton]
    by_cases hp : p = fr.pageId
    · subst hp
      rw [AList.lookup_insert, Option.some.injEq]
      constructor
      · rintro rfl
        exact ⟨.inr rfl, by rw [hst.here]⟩
      · rintro ⟨ht | ht, he⟩
        · rw [hst.others t ht] at he
          rw [(h.lookup _ t).2 ⟨ht, he⟩] at hn
          cases hn
        · exact ht.symm
    · rw [AList.lookup_insert_ne hp, h.lookup p t]
      constructor
      · rintro ⟨ht, he⟩
        exact ⟨.inl ht, by rw [hst.others t ht]; exact he⟩
      · rintro ⟨ht | rfl, he⟩
        · exact ⟨ht, by rw [hst.others t ht] at he; exact he⟩
        · rw [hst.here] at he
          exact absurd he.symm hp
  size := by
    have hk : fr.pageId ∉ c.index.keys := by
      rw [← AList.mem_keys, ← AList.lookup_eq_none]; exact hn
    have hsz : c.index.keys.length = order.length := h.size
    unfold len
    rw [(pushMru_sameData c₁ s).index, hst.index, AList.keys_insert, List.erase_of_not_mem hk,
      List.length_cons, hsz, List.length_append, List.length_singleton]
  freeBound y hy := by
    rw [(pushMru_sameData c₁ s).free] at hy
    rw [(pushMru_sameData c₁ s).slabLen]
    exact (hst.free y hy).1
  freeOut y hy := by
    rw [(pushMru_sameData c₁ s).free] at hy
    rw [List.mem_append, List.mem_singleton, not_or]
    exact (hst.free y hy).2
  freeNodup := by rw [(pushMru_sameData c₁ s).free]; exact hst.freeNodup

theorem Stored.contents {c c₁ : PageCache} {order : List Nat} {s : Nat} {fr : Frame}
    (hst : Stored c c₁ order s fr) : (c₁.pushMru s).contents (order ++ [s]) =
      c.contents order ++ [(fr.pageId, (fr.data, fr.dirty))] := by
  rw [(pushMru_sameData c₁ s).contents]
  unfold PageCache.contents
  rw [List.map_append, List.map_singleton]
  congr 1
  · exact List.map_congr_left (fun y hy => by unfold entry; rw [hst.others y hy])
  · unfold entry; rw [hst.here]

/-- A slot at the end of the slab. -/
theorem WF.stored_push {c : PageCache} {order : List Nat} (h : WF c order)
    (fr : Frame) : Stored c
      { c with
        slab := c.slab ++ [fr]
        free := []
        index := c.index.insert fr.pageId c.slab.length }
      order c.slab.length fr where
  fresh hm := absurd (h.bound _ hm) (Nat.lt_irrefl _)
  bound := by simp
  capacity := rfl
  index := rfl
  slabLen := by simp
  head := rfl
  tail := rfl
  here := by simp [frame]
  others y hy := by simp [frame, List.getElem?_append_left (h.bound y hy)]
  free y hy := by cases hy
  freeNodup := List.nodup_nil

/-- A slot off the free stack. -/
theorem WF.stored_pop {c : PageCache} {order : List Nat} (h : WF c order) {s : Nat} {free : List Nat}
    (hf : c.free = s :: free) (fr : Frame) : Stored c
      { c with
        slab := c.slab.set s fr
        free := free
        index := c.index.insert fr.pageId s }
      order s fr where
  fresh := h.freeOut s (by rw [hf]; exact List.mem_cons_self)
  bound := by simpa using h.freeBound s (by rw [hf]; exact List.mem_cons_self)
  capacity := rfl
  index := rfl
  slabLen := by simp
  head := rfl
  tail := rfl
  here := by simp [frame, h.freeBound s (by rw [hf]; exact List.mem_cons_self)]
  others y hy := by
    have hys : s ≠ y := fun he =>
      h.freeOut s (by rw [hf]; exact List.mem_cons_self) (he ▸ hy)
    simp [frame, hys]
  free y hy := by
    have hym : y ∈ c.free := by rw [hf]; exact List.mem_cons_of_mem _ hy
    refine ⟨by simpa using h.freeBound y hym, h.freeOut y hym, ?_⟩
    rintro rfl
    have hnd := h.freeNodup
    rw [hf, List.nodup_cons] at hnd
    exact hnd.1 hy
  freeNodup := by
    have hnd := h.freeNodup
    rw [hf, List.nodup_cons] at hnd
    exact hnd.2

theorem WF.place {c : PageCache} {order : List Nat} (h : WF c order) (fr : Frame)
    (hn : c.index.lookup fr.pageId = none) : Refines (c.place fr)
      (c.contents order ++ [(fr.pageId, (fr.data, fr.dirty))]) := by
  unfold PageCache.place
  cases hf : c.free with
  | nil => exact ⟨_, h.link hn (h.stored_push fr), (h.stored_push fr).contents⟩
  | cons s free => exact ⟨_, h.link hn (h.stored_pop hf fr), (h.stored_pop hf fr).contents⟩

theorem place_capacity (c : PageCache) (fr : Frame) : (c.place fr).capacity = c.capacity := by
  unfold PageCache.place
  cases c.free with
  | nil => exact (pushMru_sameData _ _).capacity
  | cons s free => exact (pushMru_sameData _ _).capacity

/-- The page a `put` on a cached page leaves in its frame. -/
theorem WF.update {c : PageCache} {a b : List Nat} {s : Nat} (h : WF c (a ++ s :: b))
    (data : PageData) (dirty : Bool) :
    WF (c.setFrame s (fun f => f.store data dirty)) (a ++ s :: b) := by
  have hfr : ∀ y, ((c.setFrame s (fun f => f.store data dirty)).frame y).pageId =
      (c.frame y).pageId := by
    intro y
    rw [frame_setFrame]; split <;> rfl
  refine ⟨h.toThreaded.congr ?_ rfl rfl (by simp), h.cap, ?_, h.size, ?_, h.freeOut, h.freeNodup⟩
  · intro y _
    rw [frame_setFrame]
    split <;> exact ⟨rfl, rfl⟩
  · intro p t
    rw [hfr]
    exact h.lookup p t
  · intro t ht
    rw [length_setFrame]
    exact h.freeBound t ht

/-- **`put` stores the page as the most recently used one**, evicting the least recently used
    page when a new one does not fit. -/
theorem Refines.put {c : PageCache} {l : List (UInt32 × (PageData × Bool))} (h : Refines c l)
    (p : UInt32) (data : PageData) (dirty : Bool) :
    Refines (c.put p data dirty).2 (Lru.insert c.capacity l p
      (data, (((Lru.find l p).map Prod.snd).getD false) || dirty)) := by
  obtain ⟨order, hw, rfl⟩ := h
  unfold PageCache.put Lru.insert
  rw [hw.find p]
  cases hl : c.index.lookup p with
  | some s =>
    obtain ⟨hs, rfl⟩ := (hw.lookup p s).1 hl
    obtain ⟨a, b, rfl⟩ := List.append_of_mem hs
    have hb := hw.bound s (by simp)
    have hu := hw.update data dirty
    obtain ⟨hw', hsame⟩ := hu.touch
    refine ⟨a ++ b ++ [s], hw', ?_⟩
    rw [hsame.contents]
    have hother : ∀ y ∈ a ++ b, (c.setFrame s (fun f => f.store data dirty)).entry y = c.entry y := by
      intro y hy
      have hys : s ≠ y := by
        rintro rfl
        exact (List.nodup_cons.1 (List.nodup_middle.1 hw.nodup)).1 hy
      simp [entry, frame_setFrame, hys]
    simp only [Option.map_some, Option.getD_some]
    rw [hw.without]
    unfold contents
    rw [List.map_append, List.map_singleton, List.map_congr_left hother]
    simp [entry, frame_setFrame, hb, Frame.store]
  | none =>
    have hsize : order.length = (c.contents order).length := by simp [contents]
    simp only [Option.map_none, Option.getD_none, Bool.false_or, ge_iff_le, hw.size]
    by_cases hfull : c.capacity ≤ order.length
    · rw [if_pos hfull, if_pos (by omega)]
      cases order with
      | nil => exact absurd hw.cap (by simp at hfull; omega)
      | cons s rest =>
        obtain ⟨hw', hc', _, hidx, _⟩ := hw.evictLru
        have hp : p ≠ (c.frame s).pageId := by
          rintro rfl
          rw [(hw.lookup _ s).2 ⟨List.mem_cons_self, rfl⟩] at hl
          cases hl
        have hres := hw'.place ⟨p, data, dirty, none, none⟩ (by rw [← hl]; exact hidx p hp)
        rw [hc'] at hres
        exact hres
    · rw [if_neg hfull, if_neg (by omega)]
      exact hw.place ⟨p, data, dirty, none, none⟩ hl

/-- Nothing but clean pages is ever lost: with clean pages only, `put` has no victim. -/
theorem Refines.put_victim {c : PageCache} {l : List (UInt32 × (PageData × Bool))} (h : Refines c l)
    (hclean : ∀ e ∈ l, e.2.2 = false) (p : UInt32) (data : PageData) (dirty : Bool) :
    (c.put p data dirty).1 = none := by
  obtain ⟨order, hw, rfl⟩ := h
  unfold PageCache.put
  cases hl : c.index.lookup p with
  | some s => rfl
  | none =>
    simp only
    by_cases hfull : c.len ≥ c.capacity
    · rw [if_pos hfull]
      cases order with
      | nil => exact absurd hw.cap (by have := hw.size; simp at this; omega)
      | cons s rest =>
        obtain ⟨_, _, _, _, hv⟩ := hw.evictLru
        have hd : (c.frame s).dirty = false := hclean (c.entry s) (List.mem_map_of_mem List.mem_cons_self)
        rw [hd] at hv
        exact hv
    · rw [if_neg hfull]

theorem get_capacity (c : PageCache) (p : UInt32) : (c.get p).2.capacity = c.capacity := by
  unfold PageCache.get
  split
  · rfl
  · simp only [touch]
    split
    · exact ((unlink_sameData c _).trans (pushMru_sameData _ _)).capacity
    · rfl

/-- **The cache is bounded**: a `put` never leaves more than `capacity` pages resident. -/
theorem Refines.length_le {c : PageCache} {l : List (UInt32 × (PageData × Bool))} (h : Refines c l) :
    c.len = l.length := by
  obtain ⟨order, hw, rfl⟩ := h
  rw [hw.size, contents, List.length_map]

end PageCache

end ChiffonDB
