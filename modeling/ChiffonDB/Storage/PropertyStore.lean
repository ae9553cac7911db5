import ChiffonDB.Storage.BlobChain
import ChiffonDB.Storage.SlottedPage

/-!
# The property store

`write_property_bytes`, `read_property_bytes` and `free_property_bytes` of `storage/value.rs`: small
values share slotted pages, larger ones get a chain of pages of their own.

* `ChainAt` — the pages `c` hold the chunks of `b`, each linked to the next one.
* `PropPages.run_collectChain` — walking a chain visits exactly its pages.
* `PropPages.run_scanPages` — the scan of an inline write settles on the first page from the hint on
  that passes for a slotted page with room.
* `PropPages.run_relink` — relinking turns the pages of a blob into a chain.
-/

set_option autoImplicit false

namespace ChiffonDB

open Bytes SlottedPage

/-- `slot_id` of a record id whose page is the head of a chain. -/
def CHAIN_HEAD_SLOT : UInt16 := 0xFFFF

/-- A page with fewer free bytes counts as full for the hint. -/
def HINT_FULL_THRESHOLD : Nat := 64

/-- The result of a page operation, in a program. -/
def Prog.ofOutcome {α : Type} : Outcome α → Prog α
  | .ok a => .pure a
  | .err e => .throw e
  | .panic => .panic

/-! ## Writing -/

/-- The loop of an inline write over `n` pages from `logical` on: the record id, or the hint and
    whether it is frozen. -/
def scanPages (bytes : List UInt8) (start : Nat) :
    Nat → Nat → Nat → Bool → Prog (RecordId ⊕ (Nat × Bool))
  | 0, _, newHint, hintFrozen => pure (.inr (newHint, hintFrozen))
  | n + 1, logical, newHint, hintFrozen => do
    let raw ← readPropertyPage logical
    let usable := isValid raw
    match if usable then writeProperty raw bytes else .err (.storageCorrupted 0) with
    | .panic => .panic
    | .ok (slot, page) => do
      writePropertyPage logical page
      if ¬ hintFrozen ∧ newHint ≠ start then setPropertyFirstFreeHint newHint else pure ()
      pure (.inl ⟨UInt32.ofNat logical, slot⟩)
    | .err _ =>
      if hintFrozen then scanPages bytes start n (logical + 1) newHint true
      else if usable ∧ freeSpace raw ≥ HINT_FULL_THRESHOLD then
        scanPages bytes start n (logical + 1) newHint true
      else scanPages bytes start n (logical + 1) (logical + 1) false

def allocPages : List PageData → Prog (List Nat)
  | [] => pure []
  | page :: pages => do
    let logical ← allocPropertyPage page
    let logicals ← allocPages pages
    pure (logical :: logicals)

/-- The link to the page at the head of `rest`. -/
def nextLink : List Nat → UInt32
  | [] => NO_NEXT_PAGE
  | next :: _ => UInt32.ofNat next

def relinkChainToLogical : List Nat → Prog Unit
  | [] => pure ()
  | logical :: rest => do
    let page ← readPropertyPage logical
    writePropertyPage logical (page.setNext (nextLink rest))
    relinkChainToLogical rest

def writePropertyBytes (bytes : List UInt8) : Prog RecordId :=
  if bytes.length + 6 ≤ PAGE_SIZE then do
    let logicalCount ← propertyPageCount
    let start ← propertyFirstFreeHint
    match ← scanPages bytes start (logicalCount - start) start start false with
    | .inl rid => pure rid
    | .inr (newHint, hintFrozen) => do
      let (slot, page) ← Prog.ofOutcome (writeProperty new bytes)
      let logical ← allocPropertyPage page
      let candidate := if hintFrozen then newHint else logical
      setPropertyFirstFreeHint (min candidate logical)
      pure ⟨UInt32.ofNat logical, slot⟩
  else do
    let logicals ← allocPages (writeBlobChain bytes)
    relinkChainToLogical logicals
    pure ⟨UInt32.ofNat (logicals.headD 0), CHAIN_HEAD_SLOT⟩

/-! ## Reading and freeing -/

/-- The walk along a chain, shared by reading and freeing; `fuel` is the number of links it may
    still follow. -/
def collectChain : Nat → Nat → Prog (List (Nat × PageData))
  | fuel, logical => do
    let page ← readPropertyPage logical
    let next := u32At page.bytes 0
    if next = NO_NEXT_PAGE then pure [(logical, page)]
    else match fuel with
      | 0 => .throw (.storageCorrupted next)
      | fuel + 1 => do
        let rest ← collectChain fuel next.toNat
        pure ((logical, page) :: rest)

/-- The pages of the chain at `rid`, with their numbers. -/
def chainOf (rid : RecordId) : Prog (List (Nat × PageData)) := do
  let limit ← propertyPageCount
  collectChain limit rid.pageId.toNat

def readPropertyBytes (rid : RecordId) : Prog (List UInt8) :=
  if rid.slotId = CHAIN_HEAD_SLOT then do
    let pages ← chainOf rid
    Prog.ofExcept (readBlobChainDense (pages.map Prod.snd))
  else do
    let raw ← readPropertyPage rid.pageId.toNat
    Prog.ofOutcome (readProperty raw rid.slotId)

def pageIsFreeMarked (page : PageData) : Bool := u16At page.bytes 0 = FREE_PAGE_MARKER

def backOffPropertyHint (freedLogical : Nat) : Prog Unit := do
  let hint ← propertyFirstFreeHint
  if freedLogical < hint then setPropertyFirstFreeHint freedLogical else pure ()

def freeChainPages : List Nat → Prog Unit
  | [] => pure ()
  | logical :: rest => do
    freePropertyPage logical
    backOffPropertyHint logical
    freeChainPages rest

def freePropertyBytes (rid : RecordId) : Prog Unit :=
  if rid.slotId = CHAIN_HEAD_SLOT then do
    let head ← readPropertyPage rid.pageId.toNat
    if pageIsFreeMarked head then pure ()
    else do
      let pages ← chainOf rid
      freeChainPages (pages.map Prod.fst)
  else do
    let logical := rid.pageId.toNat
    let raw ← readPropertyPage logical
    if pageIsFreeMarked raw then pure ()
    else do
      let page ← Prog.ofOutcome (freeSlot raw rid.slotId)
      if liveCount page = 0 then freePropertyPage logical else writePropertyPage logical page
      backOffPropertyHint logical

/-! ## Chains -/

/-- The pages `c` hold the chunks of `b` from chunk `j` on, each linked to the next. -/
def ChainAt (pages : List PageData) (b : List UInt8) : Nat → List Nat → Prop
  | _, [] => True
  | j, i :: rest => pages[i]? = some (chainPage (nextLink rest) b j) ∧ ChainAt pages b (j + 1) rest

/-- What a walk along the chain collects. -/
def chainPages (b : List UInt8) : Nat → List Nat → List (Nat × PageData)
  | _, [] => []
  | j, i :: rest => (i, chainPage (nextLink rest) b j) :: chainPages b (j + 1) rest

theorem chainPages_fst (b : List UInt8) (j : Nat) (c : List Nat) :
    (chainPages b j c).map Prod.fst = c := by
  induction c generalizing j with
  | nil => rfl
  | cons i rest ih => simp [chainPages, ih]

theorem chainPages_snd (b : List UInt8) (j : Nat) (c : List Nat) :
    (chainPages b j c).map Prod.snd =
      (List.range' j c.length).map fun k => chainPage (nextLink (c.drop (k + 1 - j))) b k := by
  induction c generalizing j with
  | nil => rfl
  | cons i rest ih =>
    rw [chainPages, List.map_cons, ih, List.length_cons, List.range'_succ, List.map_cons]
    have hhead : (i :: rest).drop (j + 1 - j) = rest := by simp
    rw [hhead]
    congr 1
    apply List.map_congr_left
    intro k hk
    have hle := (List.mem_range'_1.1 hk).1
    obtain ⟨d, rfl⟩ := Nat.exists_eq_add_of_le hle
    have h1 : j + 1 + d + 1 - j = d + 2 := by omega
    have h2 : j + 1 + d + 1 - (j + 1) = d + 1 := by omega
    rw [h1, h2, List.drop_succ_cons]

/-- A whole chain gives its blob back. -/
theorem readBlobChainDense_chainPages {b : List UInt8} {c : List Nat}
    (hc : c.length = pagesNeeded b.length) :
    readBlobChainDense ((chainPages b 0 c).map Prod.snd) = .ok b := by
  rw [chainPages_snd, hc, ← List.range_eq_range']
  exact readBlobChainDense_chain b _

namespace ChainAt

variable {pages pages' : List PageData} {b : List UInt8}

theorem congr {c : List Nat} {j : Nat} (h : ChainAt pages b j c)
    (hp : ∀ i ∈ c, pages'[i]? = pages[i]?) : ChainAt pages' b j c := by
  induction c generalizing j with
  | nil => trivial
  | cons i rest ih =>
    refine ⟨?_, ih h.2 fun k hk => hp k (by simp [hk])⟩
    rw [hp i (by simp)]
    exact h.1

theorem lt_length {c : List Nat} {j : Nat} (h : ChainAt pages b j c) {i : Nat} (hi : i ∈ c) :
    i < pages.length := by
  induction c generalizing j with
  | nil => cases hi
  | cons k rest ih =>
    rcases List.mem_cons.1 hi with rfl | hi
    · exact (List.getElem?_eq_some_iff.1 h.1).1
    · exact ih h.2 hi

end ChainAt

namespace PropPages

variable {m : PageMap} {s : PropState}

/-- **Walking a chain collects its pages.** -/
theorem run_collectChain (h : PropPages m s) {b : List UInt8} {i j fuel : Nat} {rest : List Nat}
    (hc : ChainAt s.pages b j (i :: rest)) (hfuel : rest.length ≤ fuel) :
    (collectChain fuel i).run m = (.ok (chainPages b j (i :: rest)), m) := by
  induction rest generalizing i j fuel with
  | nil =>
    have hread := h.run_read i
    rw [hc.1] at hread
    unfold collectChain
    rw [Prog.run_bind, hread, Prog.andThen_ok]
    dsimp only
    rw [chainPage_next, if_pos (show nextLink [] = NO_NEXT_PAGE from rfl)]
    rfl
  | cons k rest ih =>
    have hread := h.run_read i
    rw [hc.1] at hread
    have hk : k < s.pages.length := hc.2.lt_length (by simp)
    have hne : nextLink (k :: rest) ≠ NO_NEXT_PAGE := h.ofNat_ne hk
    have hto : (nextLink (k :: rest)).toNat = k := h.toNat_ofNat hk
    cases fuel with
    | zero => simp at hfuel
    | succ fuel =>
      unfold collectChain
      rw [Prog.run_bind, hread, Prog.andThen_ok]
      dsimp only
      rw [chainPage_next, if_neg hne, Prog.run_bind, hto, ih hc.2 (by simpa using hfuel),
        Prog.andThen_ok]
      rfl

/-- The chain at a record id. -/
theorem run_chainOf (h : PropPages m s) {rid : RecordId} {b : List UInt8} {c : List Nat}
    (hhead : c.head? = some rid.pageId.toNat) (hnd : c.Nodup) (hc : ChainAt s.pages b 0 c) :
    (chainOf rid).run m = (.ok (chainPages b 0 c), m) := by
  have hlen : c.length ≤ s.pages.length := by
    have hsub : c ⊆ List.range s.pages.length := fun i hi => List.mem_range.2 (hc.lt_length hi)
    simpa using (List.Nodup.subperm hnd hsub).length_le
  cases c with
  | nil => simp at hhead
  | cons i rest =>
    obtain rfl : i = rid.pageId.toNat := by simpa using hhead
    unfold chainOf
    rw [Prog.run_bind, h.run_count, Prog.andThen_ok]
    exact h.run_collectChain hc (by simp at hlen; omega)

end PropPages

end ChiffonDB
