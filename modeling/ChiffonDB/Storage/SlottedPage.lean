import ChiffonDB.Storage.PropertyPages

/-!
# Slotted pages

`SlottedPage` of `storage/property.rs`: slots packed from the end of the page, their directory and
two counters in front.

* `SlotHolds` — slot `slot` of a page holds the bytes `b`, clear of the directory.
* `SlotHolds.read` — such a slot reads back as `b`.
* `writeProperty_cases` — **a write adds one slot and keeps what the others hold**, on any page of
  bytes that the allocator takes for a slotted page.
* `SlotHolds.free` — freeing a slot keeps what the others hold.
* `Written.isValid`, `isValid_freeSlot` — a valid page stays valid.
-/

set_option autoImplicit false

namespace ChiffonDB

open Bytes

def HEADER_SIZE : Nat := 4

def SLOT_ENTRY_SIZE : Nat := 4

def TOMBSTONE_OFF : UInt16 := 0xFFFF

namespace SlottedPage

def slotCount (p : PageData) : UInt16 := u16At p.bytes 0

def liveCount (p : PageData) : UInt16 := u16At p.bytes 2

def setSlotCount (p : PageData) (count : UInt16) : PageData :=
  p.splice 0 (u16Bytes count) (by rw [length_u16Bytes]; decide)

def setLiveCount (p : PageData) (count : UInt16) : PageData :=
  p.splice 2 (u16Bytes count) (by rw [length_u16Bytes]; decide)

def new : PageData := setLiveCount (setSlotCount PageData.zero 0) 0

def dirOffset (idx : Nat) : Nat := HEADER_SIZE + idx * SLOT_ENTRY_SIZE

/-- Offset field of a directory entry. -/
def entryOff (p : PageData) (idx : Nat) : UInt16 := u16At p.bytes (dirOffset idx)

/-- Length field of a directory entry. -/
def entryLen (p : PageData) (idx : Nat) : UInt16 := u16At p.bytes (dirOffset idx + 2)

def setEntry (p : PageData) (idx : Nat) (offset length : UInt16)
    (h : dirOffset idx + SLOT_ENTRY_SIZE ≤ PAGE_SIZE) : PageData :=
  (p.splice (dirOffset idx) (u16Bytes offset) (by
    rw [length_u16Bytes]; unfold SLOT_ENTRY_SIZE at h; omega)).splice
      (dirOffset idx + 2) (u16Bytes length) (by
        rw [length_u16Bytes]; unfold SLOT_ENTRY_SIZE at h; omega)

def isValid (p : PageData) : Bool :=
  let count := slotCount p
  if count = FREE_PAGE_MARKER then false
  else if dirOffset count.toNat > PAGE_SIZE then false
  else (List.range count.toNat).all fun i =>
    entryOff p i = TOMBSTONE_OFF ∨ (entryOff p i).toNat + (entryLen p i).toNat ≤ PAGE_SIZE

/-- Where the data area starts: the smallest offset in the directory. -/
def dataEnd (p : PageData) : Nat :=
  let count := (slotCount p).toNat
  if count = 0 then PAGE_SIZE
  else ((List.range count).map fun i => (entryOff p i).toNat).min?.getD PAGE_SIZE

/-- Where the directory ends with one more entry. -/
def dirEnd (p : PageData) : Nat := dirOffset ((slotCount p).toNat + 1)

def freeSpace (p : PageData) : Nat := dataEnd p - dirEnd p

/-- `write_property`, on a valid page: the slot and the page with it. -/
def writeProperty (p : PageData) (value : List UInt8) : Outcome (UInt16 × PageData) :=
  if hfit : dirEnd p + value.length > dataEnd p then .err (.storageCorrupted 0)
  else if hpage : dataEnd p > PAGE_SIZE then .panic -- the slice ends behind the page
  else
    let newDataEnd := dataEnd p - value.length
    let page := p.splice newDataEnd value (by omega)
    let page := setEntry page (slotCount p).toNat (UInt16.ofNat newDataEnd)
      (UInt16.ofNat value.length) (by
        unfold dirEnd dirOffset HEADER_SIZE SLOT_ENTRY_SIZE at *
        omega)
    let page := setSlotCount page (slotCount p + 1)
    if liveCount page = 0xFFFF then .panic -- overflow
    else .ok (slotCount p, setLiveCount page (liveCount page + 1))

/-- `free_slot`. -/
def freeSlot (p : PageData) (slot : UInt16) : Outcome PageData :=
  if slot ≥ slotCount p then .err (.storageCorrupted 0)
  else if h : dirOffset slot.toNat + SLOT_ENTRY_SIZE > PAGE_SIZE then .panic
  else if entryOff p slot.toNat = TOMBSTONE_OFF then .ok p
  else
    let page := setEntry p slot.toNat TOMBSTONE_OFF 0 (by omega)
    .ok (setLiveCount page (UInt16.ofNat ((liveCount page).toNat - 1)))

/-- `read_property`. -/
def readProperty (p : PageData) (slot : UInt16) : Outcome (List UInt8) :=
  if slot ≥ slotCount p then .err (.storageCorrupted 0)
  else if dirOffset slot.toNat + SLOT_ENTRY_SIZE > PAGE_SIZE then .panic
  else if entryOff p slot.toNat = TOMBSTONE_OFF then .err .propertySlotFreed
  else
    let offset := (entryOff p slot.toNat).toNat
    let length := (entryLen p slot.toNat).toNat
    if offset + length > PAGE_SIZE then .err (.storageCorrupted 0)
    else .ok (slice p.bytes offset length)

/-! ## The fields behind the setters -/

section Setters

variable (p : PageData) (c : UInt16) (idx : Nat)

@[simp] theorem slotCount_setSlotCount : slotCount (setSlotCount p c) = c :=
  p.u16At_splice_self c _

@[simp] theorem liveCount_setSlotCount : liveCount (setSlotCount p c) = liveCount p :=
  p.u16At_splice_ne _ (by simp)

@[simp] theorem entryOff_setSlotCount : entryOff (setSlotCount p c) idx = entryOff p idx :=
  p.u16At_splice_ne _ (by simp [dirOffset, HEADER_SIZE]; omega)

@[simp] theorem entryLen_setSlotCount : entryLen (setSlotCount p c) idx = entryLen p idx :=
  p.u16At_splice_ne _ (by simp [dirOffset, HEADER_SIZE])

@[simp] theorem slotCount_setLiveCount : slotCount (setLiveCount p c) = slotCount p :=
  p.u16At_splice_ne _ (by simp)

@[simp] theorem liveCount_setLiveCount : liveCount (setLiveCount p c) = c :=
  p.u16At_splice_self c _

@[simp] theorem entryOff_setLiveCount : entryOff (setLiveCount p c) idx = entryOff p idx :=
  p.u16At_splice_ne _ (by simp [dirOffset, HEADER_SIZE])

@[simp] theorem entryLen_setLiveCount : entryLen (setLiveCount p c) idx = entryLen p idx :=
  p.u16At_splice_ne _ (by simp [dirOffset, HEADER_SIZE]; omega)

theorem slice_setSlotCount {off n : Nat} (h : HEADER_SIZE ≤ off) :
    slice (setSlotCount p c).bytes off n = slice p.bytes off n :=
  p.slice_splice_ne _ (by unfold HEADER_SIZE at h; simp; omega)

theorem slice_setLiveCount {off n : Nat} (h : HEADER_SIZE ≤ off) :
    slice (setLiveCount p c).bytes off n = slice p.bytes off n :=
  p.slice_splice_ne _ (by unfold HEADER_SIZE at h; simp; omega)

variable {idx} (off len : UInt16) (h : dirOffset idx + SLOT_ENTRY_SIZE ≤ PAGE_SIZE)

@[simp] theorem slotCount_setEntry : slotCount (setEntry p idx off len h) = slotCount p := by
  unfold slotCount setEntry
  rw [PageData.u16At_splice_ne _ _ (by simp [dirOffset, HEADER_SIZE]),
    PageData.u16At_splice_ne _ _ (by simp [dirOffset, HEADER_SIZE]; omega)]

@[simp] theorem liveCount_setEntry : liveCount (setEntry p idx off len h) = liveCount p := by
  unfold liveCount setEntry
  rw [PageData.u16At_splice_ne _ _ (by simp [dirOffset, HEADER_SIZE]; omega),
    PageData.u16At_splice_ne _ _ (by simp [dirOffset, HEADER_SIZE])]

theorem entryOff_setEntry (j : Nat) :
    entryOff (setEntry p idx off len h) j = if j = idx then off else entryOff p j := by
  unfold entryOff setEntry
  split
  · rename_i hj
    rw [hj, PageData.u16At_splice_ne _ _ (by simp), PageData.u16At_splice_self]
  · rename_i hj
    have hapart : dirOffset j + 4 ≤ dirOffset idx ∨ dirOffset idx + 4 ≤ dirOffset j := by
      unfold dirOffset SLOT_ENTRY_SIZE
      omega
    rw [PageData.u16At_splice_ne _ _ (by simp; omega), PageData.u16At_splice_ne _ _ (by simp; omega)]

theorem entryLen_setEntry (j : Nat) :
    entryLen (setEntry p idx off len h) j = if j = idx then len else entryLen p j := by
  unfold entryLen setEntry
  split
  · rename_i hj
    rw [hj, PageData.u16At_splice_self]
  · rename_i hj
    have hapart : dirOffset j + 4 ≤ dirOffset idx ∨ dirOffset idx + 4 ≤ dirOffset j := by
      unfold dirOffset SLOT_ENTRY_SIZE
      omega
    rw [PageData.u16At_splice_ne _ _ (by simp; omega), PageData.u16At_splice_ne _ _ (by simp; omega)]

theorem slice_setEntry {o n : Nat} (ho : dirOffset (idx + 1) ≤ o) :
    slice (setEntry p idx off len h).bytes o n = slice p.bytes o n := by
  have hnext : dirOffset (idx + 1) = dirOffset idx + 4 := by
    unfold dirOffset SLOT_ENTRY_SIZE
    omega
  unfold setEntry
  rw [PageData.slice_splice_ne _ _ (by simp; omega), PageData.slice_splice_ne _ _ (by simp; omega)]

end Setters

@[simp] theorem slotCount_new : slotCount new = 0 := by simp [new]

@[simp] theorem liveCount_new : liveCount new = 0 := by simp [new]

/-! ## What a slot holds -/

/-- The slot holds `b`, behind the directory. -/
structure SlotHolds (p : PageData) (slot : UInt16) (b : List UInt8) : Prop where
  lt : slot.toNat < (slotCount p).toNat
  above : dirOffset (slotCount p).toNat ≤ (entryOff p slot.toNat).toNat
  fits : (entryOff p slot.toNat).toNat + b.length ≤ PAGE_SIZE
  len : (entryLen p slot.toNat).toNat = b.length
  data : slice p.bytes (entryOff p slot.toNat).toNat b.length = b

theorem dataEnd_le {p : PageData} {i : Nat} (hi : i < (slotCount p).toNat) :
    dataEnd p ≤ (entryOff p i).toNat := by
  have hmem : (entryOff p i).toNat ∈ (List.range (slotCount p).toNat).map
      fun i => (entryOff p i).toNat := List.mem_map.2 ⟨i, List.mem_range.2 hi, rfl⟩
  obtain ⟨a, ha⟩ := Option.isSome_iff_exists.1 (List.isSome_min?_of_mem hmem)
  unfold dataEnd
  simp only [if_neg (show ¬ (slotCount p).toNat = 0 by omega), ha, Option.getD_some]
  exact (List.min?_eq_some_iff.1 ha).2 _ hmem

theorem dataEnd_new : dataEnd new = PAGE_SIZE := by simp [dataEnd]

namespace SlotHolds

variable {p : PageData} {slot : UInt16} {b : List UInt8}

theorem slot_lt (h : SlotHolds p slot b) : dirOffset slot.toNat + SLOT_ENTRY_SIZE ≤ PAGE_SIZE := by
  have h1 := h.lt
  have h2 := h.above
  have h3 := h.fits
  unfold dirOffset HEADER_SIZE SLOT_ENTRY_SIZE at *
  omega

theorem not_tombstone (h : SlotHolds p slot b) : entryOff p slot.toNat ≠ TOMBSTONE_OFF := by
  intro he
  have hf := h.fits
  rw [he] at hf
  have : TOMBSTONE_OFF.toNat = 65535 := rfl
  unfold PAGE_SIZE at hf
  omega

theorem not_marked (h : SlotHolds p slot b) : slotCount p ≠ FREE_PAGE_MARKER := by
  intro he
  have h1 := h.above
  have h2 := h.fits
  rw [he] at h1
  have : FREE_PAGE_MARKER.toNat = 65535 := rfl
  unfold dirOffset HEADER_SIZE SLOT_ENTRY_SIZE PAGE_SIZE at *
  omega

theorem not_ge (h : SlotHolds p slot b) : ¬ slot ≥ slotCount p := by
  intro hge
  have := UInt16.le_iff_toNat_le.1 hge
  have := h.lt
  omega

/-- **A slot reads back what it holds.** -/
theorem read (h : SlotHolds p slot b) : readProperty p slot = .ok b := by
  have hfit := h.fits
  unfold readProperty
  rw [if_neg h.not_ge, if_neg (not_lt.2 h.slot_lt), if_neg h.not_tombstone]
  dsimp only
  rw [h.len, if_neg (not_lt.2 hfit), h.data]

end SlotHolds

/-! ## Writing and freeing slots -/

/-- What writing `v` to a page does. -/
structure Written (p p' : PageData) (slot : UInt16) (v : List UInt8) : Prop where
  slot_eq : slot = slotCount p
  slotCount : (slotCount p').toNat = (slotCount p).toNat + 1
  liveCount : (liveCount p').toNat = (liveCount p).toNat + 1
  new : SlotHolds p' slot v
  old : ∀ {slot' b}, SlotHolds p slot' b → SlotHolds p' slot' b

section Data

variable (p : PageData) {off : Nat} {v : List UInt8} (h : off + v.length ≤ PAGE_SIZE)

theorem slotCount_data (ho : 2 ≤ off) : slotCount (p.splice off v h) = slotCount p :=
  p.u16At_splice_ne _ (.inl ho)

theorem liveCount_data (ho : 4 ≤ off) : liveCount (p.splice off v h) = liveCount p :=
  p.u16At_splice_ne _ (.inl ho)

theorem entryOff_data {i : Nat} (ho : dirOffset (i + 1) ≤ off) :
    entryOff (p.splice off v h) i = entryOff p i :=
  p.u16At_splice_ne _ (by unfold dirOffset SLOT_ENTRY_SIZE at *; omega)

theorem entryLen_data {i : Nat} (ho : dirOffset (i + 1) ≤ off) :
    entryLen (p.splice off v h) i = entryLen p i :=
  p.u16At_splice_ne _ (by unfold dirOffset SLOT_ENTRY_SIZE at *; omega)

end Data

theorem dirOffset_le {i j : Nat} (h : i ≤ j) : dirOffset i ≤ dirOffset j := by
  unfold dirOffset SLOT_ENTRY_SIZE
  omega

/-- The page with the data, the entry and the counters in place. -/
theorem written_of_data {p : PageData} {v : List UInt8} {off : Nat}
    (hoff : dataEnd p - v.length = off) (hend : dirOffset ((slotCount p).toNat + 1) ≤ off)
    (hfit : off + v.length ≤ PAGE_SIZE) (hlive : liveCount p ≠ 0xFFFF)
    {hentry : dirOffset (slotCount p).toNat + SLOT_ENTRY_SIZE ≤ PAGE_SIZE} :
    Written p (setLiveCount (setSlotCount (setEntry (p.splice off v hfit) (slotCount p).toNat
      (UInt16.ofNat off) (UInt16.ofNat v.length) hentry) (slotCount p + 1)) (liveCount p + 1))
      (slotCount p) v := by
  have hnext : dirOffset ((slotCount p).toNat + 1) = dirOffset (slotCount p).toNat + 4 := by
    unfold dirOffset SLOT_ENTRY_SIZE
    omega
  have hbig : 8 + 4 * (slotCount p).toNat ≤ off := by
    unfold dirOffset HEADER_SIZE SLOT_ENTRY_SIZE at hend
    omega
  have hsucc : (slotCount p + 1).toNat = (slotCount p).toNat + 1 := by
    rw [UInt16.toNat_add]
    exact Nat.mod_eq_of_lt (by
      have : (1 : UInt16).toNat = 1 := rfl
      unfold PAGE_SIZE at hfit
      omega)
  have hoff' : (UInt16.ofNat off).toNat = off := by
    rw [UInt16.toNat_ofNat']
    exact Nat.mod_eq_of_lt (by unfold PAGE_SIZE at hfit; omega)
  have hlen : (UInt16.ofNat v.length).toNat = v.length := by
    rw [UInt16.toNat_ofNat']
    exact Nat.mod_eq_of_lt (by unfold PAGE_SIZE at hfit; omega)
  refine ⟨rfl, ?_, ?_, ⟨?_, ?_, ?_, ?_, ?_⟩, ?_⟩
  · simp [hsucc]
  · simp only [liveCount_setLiveCount, UInt16.toNat_add]
    apply Nat.mod_eq_of_lt
    have h1 : (1 : UInt16).toNat = 1 := rfl
    have h2 := (liveCount p).toNat_lt
    have h3 : (liveCount p).toNat ≠ 65535 := fun he => hlive (UInt16.toNat_inj.1 he)
    omega
  · simp [hsucc]
  · simpa [hsucc, entryOff_setEntry, hoff'] using hend
  · simpa [entryOff_setEntry, hoff'] using hfit
  · simp [entryLen_setEntry, hlen]
  · simp only [entryOff_setLiveCount, entryOff_setSlotCount, entryOff_setEntry, if_pos, hoff']
    rw [slice_setLiveCount _ _ (by unfold HEADER_SIZE; omega),
      slice_setSlotCount _ _ (by unfold HEADER_SIZE; omega), slice_setEntry _ _ _ _ hend]
    exact p.slice_splice_self hfit
  · intro slot b hs
    have hlt := hs.lt
    have hne : slot.toNat ≠ (slotCount p).toNat := by omega
    have hdir := dirOffset_le (show slot.toNat + 1 ≤ (slotCount p).toNat + 1 by omega)
    have hdata := dataEnd_le hlt
    have hentryOff : entryOff (setLiveCount (setSlotCount (setEntry (p.splice off v hfit)
        (slotCount p).toNat (UInt16.ofNat off) (UInt16.ofNat v.length) hentry) (slotCount p + 1))
        (liveCount p + 1)) slot.toNat = entryOff p slot.toNat := by
      simp [entryOff_setEntry, hne, entryOff_data p hfit (Nat.le_trans hdir hend)]
    have hentryLen : entryLen (setLiveCount (setSlotCount (setEntry (p.splice off v hfit)
        (slotCount p).toNat (UInt16.ofNat off) (UInt16.ofNat v.length) hentry) (slotCount p + 1))
        (liveCount p + 1)) slot.toNat = entryLen p slot.toNat := by
      simp [entryLen_setEntry, hne, entryLen_data p hfit (Nat.le_trans hdir hend)]
    refine ⟨?_, ?_, ?_, ?_, ?_⟩
    · simp [hsucc]
      omega
    · rw [hentryOff]
      simp [hsucc]
      omega
    · rw [hentryOff]
      exact hs.fits
    · rw [hentryLen]
      exact hs.len
    · -- the old data lies behind the new
      rw [hentryOff, slice_setLiveCount _ _ (by unfold HEADER_SIZE; omega),
        slice_setSlotCount _ _ (by unfold HEADER_SIZE; omega), slice_setEntry _ _ _ _ (by omega),
        p.slice_splice_ne hfit (by omega)]
      exact hs.data

theorem writeProperty_of_full {p : PageData} {v : List UInt8}
    (h : ¬ dirEnd p + v.length ≤ dataEnd p) : writeProperty p v = .err (.storageCorrupted 0) :=
  dif_pos (Nat.lt_of_not_le h)

/-- **A write that fits adds a slot, or panics.** -/
theorem writeProperty_cases {p : PageData} {v : List UInt8} (h : dirEnd p + v.length ≤ dataEnd p) :
    (writeProperty p v = .panic ∧ (PAGE_SIZE < dataEnd p ∨ liveCount p = 0xFFFF)) ∨
    ∃ slot p', writeProperty p v = .ok (slot, p') ∧ Written p p' slot v := by
  unfold writeProperty
  rw [dif_neg (not_lt.2 h)]
  by_cases hpage : dataEnd p > PAGE_SIZE
  · rw [dif_pos hpage]
    exact .inl ⟨rfl, .inl hpage⟩
  rw [dif_neg hpage]
  dsimp only
  have hend : dirOffset ((slotCount p).toNat + 1) ≤ dataEnd p - v.length := by
    unfold dirEnd at h
    omega
  have hcount : 8 + 4 * (slotCount p).toNat ≤ dataEnd p - v.length := by
    unfold dirOffset HEADER_SIZE SLOT_ENTRY_SIZE at hend
    omega
  rw [liveCount_setSlotCount, liveCount_setEntry, liveCount_data _ _ (by omega)]
  split
  · rename_i hlive
    exact .inl ⟨rfl, .inr hlive⟩
  · rename_i hlive
    refine .inr ⟨_, _, rfl, written_of_data rfl hend (by omega) hlive⟩

/-- A write that succeeds had room on the page. -/
theorem dirEnd_add_le_of_ok {p : PageData} {v : List UInt8} {r : UInt16 × PageData}
    (h : writeProperty p v = .ok r) : dirEnd p + v.length ≤ PAGE_SIZE := by
  unfold writeProperty at h
  split at h
  · cases h
  · split at h
    · cases h
    · omega

/-- What freeing `slot` does to a page. -/
structure Freed (p p' : PageData) (slot : UInt16) : Prop where
  liveCount : (liveCount p').toNat = (liveCount p).toNat - 1
  other : ∀ {slot' b}, slot' ≠ slot → SlotHolds p slot' b → SlotHolds p' slot' b

/-- **Freeing a slot that holds something keeps what the others hold.** -/
theorem SlotHolds.free {p : PageData} {slot : UInt16} {b : List UInt8} (h : SlotHolds p slot b) :
    ∃ p', freeSlot p slot = .ok p' ∧ Freed p p' slot := by
  have hlt := h.lt
  unfold freeSlot
  rw [if_neg h.not_ge, dif_neg (not_lt.2 h.slot_lt), if_neg h.not_tombstone]
  refine ⟨_, rfl, ?_, ?_⟩
  · have := (SlottedPage.liveCount p).toNat_lt
    simp only [liveCount_setLiveCount, liveCount_setEntry, UInt16.toNat_ofNat']
    exact Nat.mod_eq_of_lt (by omega)
  · intro slot' b' hne hs
    have hne' : slot'.toNat ≠ slot.toNat := fun he => hne (UInt16.toNat_inj.1 he)
    have habove := hs.above
    have hdir := dirOffset_le (show slot.toNat + 1 ≤ (slotCount p).toNat by omega)
    have hhead : HEADER_SIZE ≤ (entryOff p slot'.toNat).toNat := by
      refine Nat.le_trans ?_ habove
      unfold dirOffset
      omega
    refine ⟨?_, ?_, ?_, ?_, ?_⟩
    · simpa using hs.lt
    · simpa [entryOff_setEntry, hne'] using habove
    · simpa [entryOff_setEntry, hne'] using hs.fits
    · simpa [entryLen_setEntry, hne'] using hs.len
    · simp only [entryOff_setLiveCount, entryOff_setEntry, if_neg hne']
      rw [slice_setLiveCount _ _ hhead, slice_setEntry _ _ _ _ (by omega)]
      exact hs.data

/-! ## Validity -/

theorem isValid_iff {p : PageData} : isValid p = true ↔
    slotCount p ≠ FREE_PAGE_MARKER ∧ dirOffset (slotCount p).toNat ≤ PAGE_SIZE ∧
      ∀ i < (slotCount p).toNat,
        entryOff p i = TOMBSTONE_OFF ∨ (entryOff p i).toNat + (entryLen p i).toNat ≤ PAGE_SIZE := by
  unfold isValid
  dsimp only
  split
  · rename_i hmark
    simp [hmark]
  · rename_i hmark
    split
    · rename_i hdir
      simp [hmark, not_le.2 hdir]
    · rename_i hdir
      simp [hmark, not_lt.1 hdir]

/-- Writing leaves the entries of the directory alone. -/
theorem entry_writeProperty {p p' : PageData} {v : List UInt8} {slot : UInt16}
    (h : writeProperty p v = .ok (slot, p')) {i : Nat} (hi : i < (slotCount p).toNat) :
    entryOff p' i = entryOff p i ∧ entryLen p' i = entryLen p i := by
  unfold writeProperty at h
  split at h
  · cases h
  · split at h
    · cases h
    · rename_i hfit hpage
      dsimp only at h
      split at h
      · cases h
      · simp only [Outcome.ok.injEq, Prod.mk.injEq] at h
        have hdir := dirOffset_le (show i + 1 ≤ (slotCount p).toNat + 1 by omega)
        unfold dirEnd at hfit
        constructor
        · rw [← h.2, entryOff_setLiveCount, entryOff_setSlotCount, entryOff_setEntry, if_neg (by omega),
            entryOff_data _ _ (by omega)]
        · rw [← h.2, entryLen_setLiveCount, entryLen_setSlotCount, entryLen_setEntry, if_neg (by omega),
            entryLen_data _ _ (by omega)]

theorem Written.isValid {p p' : PageData} {v : List UInt8} {slot : UInt16} (h : Written p p' slot v)
    (hw : writeProperty p v = .ok (slot, p')) (hp : isValid p = true) : isValid p' = true := by
  obtain ⟨-, -, hentries⟩ := isValid_iff.1 hp
  have habove := h.new.above
  have hfits := h.new.fits
  refine isValid_iff.2 ⟨h.new.not_marked, by omega, fun i hi => ?_⟩
  rw [h.slotCount] at hi
  rcases Nat.lt_succ_iff_lt_or_eq.1 hi with hi | rfl
  · obtain ⟨hoff, hlen⟩ := entry_writeProperty hw hi
    rw [hoff, hlen]
    exact hentries i hi
  · rw [← h.slot_eq, h.new.len]
    exact .inr hfits

/-- Freeing leaves the other entries of the directory alone. -/
theorem freeSlot_cases {p p' : PageData} {slot : UInt16} (h : freeSlot p slot = .ok p') :
    p' = p ∧ entryOff p slot.toNat = TOMBSTONE_OFF ∨
      slotCount p' = slotCount p ∧
        (∀ i, entryOff p' i = if i = slot.toNat then TOMBSTONE_OFF else entryOff p i) ∧
        ∀ i, i ≠ slot.toNat → entryLen p' i = entryLen p i := by
  unfold freeSlot at h
  split at h
  · cases h
  · split at h
    · cases h
    · split at h
      · rename_i hfreed
        cases h
        exact .inl ⟨rfl, hfreed⟩
      · simp only [Outcome.ok.injEq] at h
        refine .inr ⟨?_, fun i => ?_, fun i hi => ?_⟩
        · rw [← h, slotCount_setLiveCount, slotCount_setEntry]
        · rw [← h, entryOff_setLiveCount, entryOff_setEntry]
        · rw [← h, entryLen_setLiveCount, entryLen_setEntry, if_neg hi]

theorem isValid_freeSlot {p p' : PageData} {slot : UInt16} (h : freeSlot p slot = .ok p')
    (hp : isValid p = true) : isValid p' = true := by
  rcases freeSlot_cases h with ⟨rfl, -⟩ | ⟨hcount, hoff, hlen⟩
  · exact hp
  · obtain ⟨hmark, hdir, hentries⟩ := isValid_iff.1 hp
    refine isValid_iff.2 ⟨by rwa [hcount], by rwa [hcount], fun i hi => ?_⟩
    rw [hcount] at hi
    rw [hoff]
    split
    · exact .inl rfl
    · rename_i hne
      rw [hlen i hne]
      exact hentries i hi

/-- The first slot of a new page. -/
theorem writeProperty_new {v : List UInt8} (hv : v.length + 8 ≤ PAGE_SIZE) :
    ∃ p', writeProperty new v = .ok (0, p') ∧ Written new p' 0 v := by
  have hfit : dirEnd new + v.length ≤ dataEnd new := by
    rw [dataEnd_new]
    simp [dirEnd, dirOffset, HEADER_SIZE, SLOT_ENTRY_SIZE]
    omega
  rcases writeProperty_cases hfit with ⟨-, hover | hover⟩ | ⟨slot, p', hw, hp⟩
  · rw [dataEnd_new] at hover
    exact absurd hover (Nat.lt_irrefl _)
  · simp at hover
  · have hslot : slot = 0 := by simpa using hp.slot_eq
    subst hslot
    exact ⟨p', hw, hp⟩

theorem isValid_new : isValid new = true := by
  refine isValid_iff.2 ⟨?_, ?_, ?_⟩
  · rw [slotCount_new]
    decide
  · rw [slotCount_new]
    decide
  · simp

end SlottedPage

end ChiffonDB
