import ChiffonDB.Storage.Prog

/-!
# Pages of the label index

The byte helpers of `storage/label_index.rs`: a link, a count and an array of six-byte entries on
every page, and the end-of-run record of an empty page.

* `entries` — the record ids a chain page holds; `slots` — the entries of a root page.
* `rawEntries_push`, `rawEntries_writeRaw`, `rawEntries_writeCount` — **what the writers do to them**;
  links, entries and end-of-run records are independent of each other.
-/

set_option autoImplicit false

namespace ChiffonDB

open Bytes

/-- Sentinel for "no next page" and "no root page yet". -/
def NO_ROOT : UInt32 := 0xFFFFFFFF

/-- `encode_record_id_6`. -/
def encodeRecordId6 (rid : RecordId) : List UInt8 := u32Bytes rid.pageId ++ u16Bytes rid.slotId

/-- `decode_record_id_6`. -/
def decodeRecordId6 (buf : List UInt8) : RecordId := ⟨u32At buf 0, u16At buf 4⟩

@[simp] theorem length_encodeRecordId6 (rid : RecordId) : (encodeRecordId6 rid).length = 6 := by
  simp [encodeRecordId6]

@[simp] theorem decodeRecordId6_encodeRecordId6 (rid : RecordId) :
    decodeRecordId6 (encodeRecordId6 rid) = rid := by
  have hpage : u32At (encodeRecordId6 rid) 0 = rid.pageId := by
    apply u32At_of_slice
    rw [encodeRecordId6, slice_append_left (by simp)]
    simpa using slice_zero_length (u32Bytes rid.pageId)
  have hslot : u16At (encodeRecordId6 rid) 4 = rid.slotId := by
    apply u16At_of_slice
    rw [encodeRecordId6, slice_append_right (by simp)]
    simpa using slice_zero_length (u16Bytes rid.slotId)
  unfold decodeRecordId6
  rw [hpage, hslot]

namespace LabelIndex

def HEADER : Nat := 8

def ROOT_SLOT_SIZE : Nat := 6

def ROOT_SLOTS_PER_PAGE : Nat := (PAGE_SIZE - HEADER) / ROOT_SLOT_SIZE

def ENTRY_SIZE : Nat := 6

def ENTRIES_PER_PAGE : Nat := (PAGE_SIZE - HEADER) / ENTRY_SIZE

def SPARE_MARKER : List UInt8 := List.replicate ENTRY_SIZE 0xFF

/-- Entries and root slots have the same size. -/
def entryOffset (idx : Nat) : Nat := HEADER + idx * ENTRY_SIZE

theorem entryOffset_le {idx : Nat} (h : idx < ENTRIES_PER_PAGE) :
    entryOffset idx + ENTRY_SIZE ≤ PAGE_SIZE := by
  unfold ENTRIES_PER_PAGE PAGE_SIZE HEADER ENTRY_SIZE at h
  unfold entryOffset PAGE_SIZE HEADER ENTRY_SIZE
  omega

/-! ## Links and counts -/

def readNext (page : PageData) : UInt32 := u32At page.bytes 0

def writeNext (page : PageData) (pid : UInt32) : PageData :=
  page.splice 0 (u32Bytes pid) (link_fits pid)

/-- Clamped to the entries a page can hold. -/
def readCount (page : PageData) : Nat :=
  min (u32At page.bytes 4).toNat (max ENTRIES_PER_PAGE ROOT_SLOTS_PER_PAGE)

def writeCount (page : PageData) (count : Nat) : PageData :=
  page.splice 4 (u32Bytes (UInt32.ofNat count)) (by rw [length_u32Bytes]; decide)

/-! ## Entries -/

def rawEntry (page : PageData) (idx : Nat) : List UInt8 := slice page.bytes (entryOffset idx) ENTRY_SIZE

def writeRaw (page : PageData) (idx : Fin ENTRIES_PER_PAGE) (bs : List UInt8)
    (h : bs.length = ENTRY_SIZE) : PageData :=
  page.splice (entryOffset idx) bs (by rw [h]; exact entryOffset_le idx.isLt)

def readEntry (page : PageData) (idx : Nat) : RecordId := decodeRecordId6 (rawEntry page idx)

theorem entry_size (rid : RecordId) : (encodeRecordId6 rid).length = ENTRY_SIZE :=
  length_encodeRecordId6 rid

def writeEntry (page : PageData) (idx : Fin ENTRIES_PER_PAGE) (rid : RecordId) : PageData :=
  writeRaw page idx (encodeRecordId6 rid) (entry_size rid)

def readSpareTail (page : PageData) : Option UInt32 :=
  if readCount page ≠ 0 ∨ slice page.bytes HEADER ENTRY_SIZE ≠ SPARE_MARKER then none
  else
    let tail := u32At page.bytes (HEADER + ENTRY_SIZE)
    if tail ≠ NO_ROOT then some tail else none

def writeSpareTail (page : PageData) (tail : UInt32) : PageData :=
  (page.splice HEADER SPARE_MARKER (by decide)).splice (HEADER + ENTRY_SIZE) (u32Bytes tail)
    (by rw [length_u32Bytes]; decide)

def decodeRootSlot (buf : List UInt8) : UInt16 × UInt32 := (u16At buf 0, u32At buf 2)

def encodeRootSlot (typeId : UInt16) (head : UInt32) : List UInt8 := u16Bytes typeId ++ u32Bytes head

theorem rootSlot_size (typeId : UInt16) (head : UInt32) :
    (encodeRootSlot typeId head).length = ENTRY_SIZE := by
  simp [encodeRootSlot, ENTRY_SIZE]

def readRootSlot (page : PageData) (idx : Nat) : UInt16 × UInt32 := decodeRootSlot (rawEntry page idx)

def writeRootSlot (page : PageData) (idx : Fin ENTRIES_PER_PAGE) (typeId : UInt16) (head : UInt32) :
    PageData :=
  writeRaw page idx (encodeRootSlot typeId head) (rootSlot_size typeId head)

@[simp] theorem decodeRootSlot_encodeRootSlot (typeId : UInt16) (head : UInt32) :
    decodeRootSlot (encodeRootSlot typeId head) = (typeId, head) := by
  have htype : u16At (encodeRootSlot typeId head) 0 = typeId := by
    apply u16At_of_slice
    rw [encodeRootSlot, slice_append_left (by simp)]
    simpa using slice_zero_length (u16Bytes typeId)
  have hhead : u32At (encodeRootSlot typeId head) 2 = head := by
    apply u32At_of_slice
    rw [encodeRootSlot, slice_append_right (by simp)]
    simpa using slice_zero_length (u32Bytes head)
  unfold decodeRootSlot
  rw [htype, hhead]

/-! ## What a page holds -/

def rawEntries (page : PageData) : List (List UInt8) := (List.range (readCount page)).map (rawEntry page)

def entries (page : PageData) : List RecordId := (rawEntries page).map decodeRecordId6

def slots (page : PageData) : List (UInt16 × UInt32) := (rawEntries page).map decodeRootSlot

@[simp] theorem length_rawEntries (page : PageData) : (rawEntries page).length = readCount page := by
  simp [rawEntries]

@[simp] theorem length_entries (page : PageData) : (entries page).length = readCount page := by
  simp [entries]

@[simp] theorem length_slots (page : PageData) : (slots page).length = readCount page := by
  simp [slots]

theorem readCount_le (page : PageData) : readCount page ≤ ENTRIES_PER_PAGE := Nat.min_le_right _ _

theorem entries_eq_nil {page : PageData} : entries page = [] ↔ readCount page = 0 := by
  rw [← length_entries, List.length_eq_zero_iff]

theorem rawEntries_getElem? (page : PageData) (i : Nat) :
    (rawEntries page)[i]? = if i < readCount page then some (rawEntry page i) else none := by
  unfold rawEntries
  rw [List.getElem?_map]
  split
  case isTrue h =>
    rw [List.getElem?_range h]
    rfl
  case isFalse h =>
    rw [List.getElem?_eq_none (by simpa using Nat.le_of_not_lt h)]
    rfl

theorem entries_getElem? (page : PageData) (i : Nat) :
    (entries page)[i]? = if i < readCount page then some (readEntry page i) else none := by
  unfold entries readEntry
  rw [List.getElem?_map, rawEntries_getElem?]
  split <;> rfl

theorem slots_getElem? (page : PageData) (i : Nat) :
    (slots page)[i]? = if i < readCount page then some (readRootSlot page i) else none := by
  unfold slots readRootSlot
  rw [List.getElem?_map, rawEntries_getElem?]
  split <;> rfl

/-! ## What the writers do -/

section Writers

variable (page : PageData) (pid : UInt32)

@[simp] theorem readNext_writeNext : readNext (writeNext page pid) = pid :=
  page.u32At_splice_self pid _

@[simp] theorem readCount_writeNext : readCount (writeNext page pid) = readCount page := by
  unfold readCount writeNext
  rw [page.u32At_splice_ne _ (.inr (by simp))]

@[simp] theorem rawEntry_writeNext (i : Nat) : rawEntry (writeNext page pid) i = rawEntry page i := by
  refine page.slice_splice_ne _ (.inr ?_)
  simp [entryOffset, HEADER]
  omega

@[simp] theorem rawEntries_writeNext : rawEntries (writeNext page pid) = rawEntries page := by
  unfold rawEntries
  rw [readCount_writeNext]
  exact List.map_congr_left fun i _ => rawEntry_writeNext page pid i

@[simp] theorem entries_writeNext : entries (writeNext page pid) = entries page := by
  simp [entries]

@[simp] theorem slots_writeNext : slots (writeNext page pid) = slots page := by
  simp [slots]

@[simp] theorem readSpareTail_writeNext : readSpareTail (writeNext page pid) = readSpareTail page := by
  unfold readSpareTail
  rw [readCount_writeNext]
  unfold writeNext
  rw [page.slice_splice_ne _ (.inr (by simp [HEADER])), page.u32At_splice_ne _ (.inr (by simp [HEADER]; omega))]

@[simp] theorem readNext_writeCount (n : Nat) : readNext (writeCount page n) = readNext page := by
  unfold readNext writeCount
  rw [page.u32At_splice_ne _ (.inl (by decide))]

theorem readCount_writeCount {n : Nat} (h : n ≤ ENTRIES_PER_PAGE) : readCount (writeCount page n) = n := by
  unfold readCount writeCount
  have hn : (UInt32.ofNat n).toNat = n := by
    rw [UInt32.toNat_ofNat', Nat.mod_eq_of_lt]
    exact Nat.lt_of_le_of_lt h (by decide)
  rw [page.u32At_splice_self, hn]
  exact Nat.min_eq_left (Nat.le_trans h (Nat.le_max_left _ _))

@[simp] theorem rawEntry_writeCount (n i : Nat) : rawEntry (writeCount page n) i = rawEntry page i := by
  refine page.slice_splice_ne _ (.inr ?_)
  simp [entryOffset, HEADER]

/-- Shrinking the count cuts entries off at the end. -/
theorem rawEntries_writeCount {n : Nat} (h : n ≤ readCount page) :
    rawEntries (writeCount page n) = (rawEntries page).take n := by
  have hn := Nat.le_trans h (readCount_le page)
  apply List.ext_getElem?
  intro i
  rw [rawEntries_getElem?, readCount_writeCount page hn, rawEntry_writeCount, List.getElem?_take,
    rawEntries_getElem?]
  split
  case isTrue hi => rw [if_pos (by omega)]
  case isFalse => rfl

variable (idx : Fin ENTRIES_PER_PAGE) {bs : List UInt8} (hbs : bs.length = ENTRY_SIZE)

@[simp] theorem readNext_writeRaw : readNext (writeRaw page idx bs hbs) = readNext page := by
  unfold readNext writeRaw
  rw [page.u32At_splice_ne _ (.inl (by simp [entryOffset, HEADER]; omega))]

@[simp] theorem readCount_writeRaw : readCount (writeRaw page idx bs hbs) = readCount page := by
  unfold readCount writeRaw
  rw [page.u32At_splice_ne _ (.inl (by simp [entryOffset, HEADER]))]

theorem rawEntry_writeRaw (i : Nat) :
    rawEntry (writeRaw page idx bs hbs) i = if i = idx then bs else rawEntry page i := by
  unfold rawEntry writeRaw
  split
  case isTrue h =>
    subst h
    rw [← hbs]
    exact page.slice_splice_self _
  case isFalse h =>
    refine page.slice_splice_ne _ ?_
    rw [hbs]
    unfold entryOffset ENTRY_SIZE HEADER
    omega

/-- Writing an entry sets it, or nothing behind the count. -/
theorem rawEntries_writeRaw : rawEntries (writeRaw page idx bs hbs) = (rawEntries page).set idx bs := by
  apply List.ext_getElem?
  intro i
  rw [rawEntries_getElem?, readCount_writeRaw, rawEntry_writeRaw, List.getElem?_set, rawEntries_getElem?,
    length_rawEntries]
  by_cases hi : i = idx
  · subst hi
    simp
  · rw [if_neg hi, if_neg (Ne.symm hi)]

/-- An entry behind the last one. -/
theorem rawEntries_push (hidx : readCount page = idx) :
    rawEntries (writeCount (writeRaw page idx bs hbs) (idx + 1)) = rawEntries page ++ [bs] := by
  apply List.ext_getElem?
  intro i
  rw [rawEntries_getElem?, readCount_writeCount _ idx.isLt, rawEntry_writeCount, rawEntry_writeRaw,
    List.getElem?_append, length_rawEntries, rawEntries_getElem?, hidx]
  rcases Nat.lt_trichotomy i idx with hi | hi | hi
  · rw [if_pos (by omega), if_neg (by omega), if_pos hi, if_pos hi]
  · subst hi
    simp
  · rw [if_neg (by omega), if_neg (by omega), List.getElem?_eq_none (by simp; omega)]

variable (rid : RecordId)

theorem entries_push (hidx : readCount page = idx) :
    entries (writeCount (writeEntry page idx rid) (idx + 1)) = entries page ++ [rid] := by
  unfold entries writeEntry
  rw [rawEntries_push page idx _ hidx]
  simp

theorem slots_push (hidx : readCount page = idx) (typeId : UInt16) (head : UInt32) :
    slots (writeCount (writeRootSlot page idx typeId head) (idx + 1)) = slots page ++ [(typeId, head)] := by
  unfold slots writeRootSlot
  rw [rawEntries_push page idx _ hidx]
  simp

theorem entries_writeEntry : entries (writeEntry page idx rid) = (entries page).set idx rid := by
  unfold entries writeEntry
  rw [rawEntries_writeRaw, List.map_set]
  simp

theorem slots_writeRootSlot (typeId : UInt16) (head : UInt32) :
    slots (writeRootSlot page idx typeId head) = (slots page).set idx (typeId, head) := by
  unfold slots writeRootSlot
  rw [rawEntries_writeRaw, List.map_set]
  simp

theorem entries_writeCount {n : Nat} (h : n ≤ readCount page) :
    entries (writeCount page n) = (entries page).take n := by
  unfold entries
  rw [rawEntries_writeCount page h, List.map_take]

@[simp] theorem readNext_writeEntry : readNext (writeEntry page idx rid) = readNext page :=
  readNext_writeRaw page idx _

@[simp] theorem readNext_writeRootSlot (typeId : UInt16) (head : UInt32) :
    readNext (writeRootSlot page idx typeId head) = readNext page := readNext_writeRaw page idx _

@[simp] theorem readNext_writeSpareTail (tail : UInt32) :
    readNext (writeSpareTail page tail) = readNext page := by
  unfold readNext writeSpareTail
  rw [PageData.u32At_splice_ne _ _ (.inl (by decide)), page.u32At_splice_ne _ (.inl (by decide))]

@[simp] theorem readCount_writeSpareTail (tail : UInt32) :
    readCount (writeSpareTail page tail) = readCount page := by
  unfold readCount writeSpareTail
  rw [PageData.u32At_splice_ne _ _ (.inl (by decide)), page.u32At_splice_ne _ (.inl (by decide))]

/-- An end-of-run record reads back. -/
theorem readSpareTail_writeSpareTail (h : readCount page = 0) {tail : UInt32} (ht : tail ≠ NO_ROOT) :
    readSpareTail (writeSpareTail page tail) = some tail := by
  unfold readSpareTail
  rw [readCount_writeSpareTail]
  unfold writeSpareTail
  have hmarker : slice ((page.splice HEADER SPARE_MARKER (by decide)).splice (HEADER + ENTRY_SIZE)
      (u32Bytes tail) (by rw [length_u32Bytes]; decide)).bytes HEADER ENTRY_SIZE = SPARE_MARKER := by
    rw [PageData.slice_splice_ne _ _ (.inl (Nat.le_refl _))]
    exact page.slice_splice_self _
  rw [hmarker, if_neg (by simp [h]), PageData.u32At_splice_self, if_pos ht]

/-- Only an empty page has a record. -/
theorem readCount_of_readSpareTail {page : PageData} {tail : UInt32} (h : readSpareTail page = some tail) :
    readCount page = 0 := by
  unfold readSpareTail at h
  by_contra hne
  rw [if_pos (.inl hne)] at h
  cases h

end Writers

end LabelIndex

end ChiffonDB
