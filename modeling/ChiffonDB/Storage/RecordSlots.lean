import Mathlib.Data.Finset.Range
import Mathlib.Data.Finset.Filter
import ChiffonDB.Storage.RecordPage

/-!
# Slots of record pages

The bitmap of a record page of `storage/page.rs`, and the records of `storage/record.rs` as bytes.

* `allocSlot`, `freeSlot`, `writeSlot` — taking, giving back and filling a slot.
* `usedSlots` — the slots that the bitmap marks.
* `allocSlot_cases`, `freeSlot_cases`, `writeSlot_cases` — **what each does to them**.
-/

set_option autoImplicit false

namespace ChiffonDB

open Bytes

/-- `encode_record_id`. -/
def encodeRecordId : Option RecordId → List UInt8
  | none => NULL_RECORD
  | some rid => u32Bytes rid.pageId ++ u16Bytes rid.slotId ++ [0]

theorem length_encodeRecordId (rid : Option RecordId) : (encodeRecordId rid).length = 7 := by
  cases rid with
  | none => exact List.length_replicate
  | some rid => simp [encodeRecordId]

def NodeRecord.serialize (n : NodeRecord) : List UInt8 :=
  encodeRecordId6 n.id ++ u16Bytes n.nodeTypeId ++ encodeRecordId n.firstOutEdge ++
    encodeRecordId n.firstInEdge ++ encodeRecordId n.propertyRef ++ encodeRecordId n.labelRef ++ [n.flags] ++
    List.replicate 27 0

theorem NodeRecord.length_serialize (n : NodeRecord) : n.serialize.length = NODE_RECORD_SIZE := by
  simp [serialize, length_encodeRecordId, NODE_RECORD_SIZE]

def EdgeRecord.serialize (e : EdgeRecord) : List UInt8 :=
  encodeRecordId6 e.id ++ u16Bytes e.edgeTypeId ++ encodeRecordId6 e.fromNode ++ encodeRecordId6 e.toNode ++
    encodeRecordId e.nextOutEdge ++ encodeRecordId e.nextInEdge ++ encodeRecordId e.propertyRef ++ [e.flags] ++
    encodeRecordId e.labelRef ++ List.replicate 15 0

theorem EdgeRecord.length_serialize (e : EdgeRecord) : e.serialize.length = EDGE_RECORD_SIZE := by
  simp [serialize, length_encodeRecordId, EDGE_RECORD_SIZE]

namespace RecordPage

/-! ## The bitmap -/

/-- A bit of a byte of the bitmap. -/
def setBit (b : UInt8) (bit : Nat) (used : Bool) : UInt8 :=
  if used then b ||| 1 <<< UInt8.ofNat bit else b &&& ~~~(1 <<< UInt8.ofNat bit)

/-- `set_bitmap`. -/
def setBitmap (page : PageData) (idx : Nat) (used : Bool) : PageData :=
  ⟨page.bytes.modify (idx / 8) fun b => setBit b (idx % 8) used, by rw [List.length_modify, page.size_eq]⟩

/-- `Page::new`. -/
def newPage : PageData := PageData.zero

/-- `alloc_slot`. -/
def allocSlot (slotSize : Nat) (page : PageData) : Option (UInt16 × PageData) :=
  ((List.range (slotCount slotSize)).find? fun i => !isUsed slotSize page (UInt16.ofNat i)).map fun i =>
    (UInt16.ofNat i, setBitmap page i true)

/-- `free_slot`. -/
def freeSlot (slotSize : Nat) (page : PageData) (slot : UInt16) : Except GraphError PageData :=
  let idx := slot.toNat
  if idx ≥ slotCount slotSize then .error (.storageCorrupted 0) else .ok (setBitmap page idx false)

/-- `write_slot`. -/
def writeSlot (slotSize : Nat) (page : PageData) (slot : UInt16) (data : List UInt8) :
    Except GraphError PageData :=
  if hlen : data.length ≠ slotSize then .error (.storageCorrupted 0)
  else
    let idx := slot.toNat
    if h : idx ≥ slotCount slotSize then .error (.storageCorrupted 0)
    else .ok (page.splice (slotOffset slotSize idx) data (by
      rw [not_not.1 hlen]
      exact slotOffset_add_le (Nat.lt_of_not_le h)))

/-- Bit `idx` of the bitmap. -/
def bit (page : PageData) (idx : Nat) : Bool := (page.bytes.getD (idx / 8) 0).toNat.testBit (idx % 8)

/-- The slots that the bitmap marks. -/
def usedSlots (slotSize : Nat) (page : PageData) : Finset ℕ :=
  (Finset.range (slotCount slotSize)).filter fun i => bit page i = true

theorem testBit_setBit (b : UInt8) {i j : Nat} (hi : i < 8) (hj : j < 8) (used : Bool) :
    (setBit b i used).toNat.testBit j = if j = i then used else b.toNat.testBit j := by
  have hmask : (1 <<< UInt8.ofNat i : UInt8).toNat.testBit j = decide (j = i) := by
    have : ∀ i < 8, ∀ j < 8, (1 <<< UInt8.ofNat i : UInt8).toNat.testBit j = decide (j = i) := by decide
    exact this i hi j hj
  have hnot : (~~~(1 <<< UInt8.ofNat i) : UInt8).toNat.testBit j = !decide (j = i) := by
    have : ∀ i < 8, ∀ j < 8, (~~~(1 <<< UInt8.ofNat i) : UInt8).toNat.testBit j = !decide (j = i) := by decide
    exact this i hi j hj
  unfold setBit
  cases used with
  | true =>
    rw [if_pos rfl, UInt8.toNat_or, Nat.testBit_or, hmask]
    by_cases h : j = i <;> simp [h]
  | false =>
    rw [if_neg (by decide), UInt8.toNat_and, Nat.testBit_and, hnot]
    by_cases h : j = i <;> simp [h]

theorem bit_setBitmap (page : PageData) {idx : Nat} (hidx : idx / 8 < PAGE_SIZE) (used : Bool) (i : Nat) :
    bit (setBitmap page idx used) i = if i = idx then used else bit page i := by
  have hlt : idx / 8 < page.bytes.length := by rw [page.size_eq]; exact hidx
  unfold bit setBitmap
  dsimp only
  rw [List.getD_eq_getElem?_getD, List.getD_eq_getElem?_getD, List.getElem?_modify]
  by_cases hbyte : idx / 8 = i / 8
  · simp only [← hbyte, ↓reduceIte, List.getElem?_eq_getElem hlt, Option.map_eq_map, Option.map_some,
      Option.getD_some]
    rw [testBit_setBit _ (Nat.mod_lt _ (by omega)) (Nat.mod_lt _ (by omega))]
    by_cases h : i = idx
    · rw [if_pos (congrArg (· % 8) h), if_pos h]
    · rw [if_neg (by omega), if_neg h]
  · have hne : i ≠ idx := by
      rintro rfl
      exact hbyte rfl
    rw [if_neg hne]
    simp [hbyte]

section Slots

variable {slotSize : Nat} {page : PageData}

/-- The bitmap lies on the page. -/
theorem byte_lt {idx : Nat} (h : idx < slotCount slotSize) : idx / 8 < PAGE_SIZE := by
  have := bitmap_add_slots_le slotSize (PAGE_SIZE / (slotSize + 1))
  change bitmapBytes (slotCount slotSize) + _ ≤ _ at this
  unfold bitmapBytes at this
  omega

theorem slotCount_le (slotSize : Nat) : slotCount slotSize ≤ 8 * PAGE_SIZE := by
  have := bitmap_add_slots_le slotSize (PAGE_SIZE / (slotSize + 1))
  change bitmapBytes (slotCount slotSize) + _ ≤ _ at this
  unfold bitmapBytes at this
  omega

theorem toNat_slot {idx : Nat} (h : idx < slotCount slotSize) : (UInt16.ofNat idx).toNat = idx := by
  have := slotCount_le slotSize
  unfold PAGE_SIZE at this
  exact Nat.mod_eq_of_lt (show idx < 65536 by omega)

theorem mem_usedSlots {i : ℕ} : i ∈ usedSlots slotSize page ↔ i < slotCount slotSize ∧ bit page i = true := by
  simp [usedSlots]

theorem isUsed_iff {slot : UInt16} : isUsed slotSize page slot = true ↔ slot.toNat ∈ usedSlots slotSize page := by
  rw [mem_usedSlots]
  unfold isUsed
  dsimp only
  split
  · rename_i h
    simp [Nat.not_lt.2 h]
  · rename_i h
    simp [Nat.lt_of_not_le h, bit]

theorem usedSlots_subset (slotSize : Nat) (page : PageData) :
    usedSlots slotSize page ⊆ Finset.range (slotCount slotSize) := Finset.filter_subset _ _

theorem usedSlots_newPage (slotSize : Nat) : usedSlots slotSize newPage = ∅ := by
  refine Finset.filter_eq_empty_iff.2 fun i _ => ?_
  unfold bit newPage PageData.zero
  rw [List.getD_eq_getElem?_getD, List.getElem?_replicate]
  split <;> simp

theorem usedSlots_setBitmap_true {idx : Nat} (h : idx < slotCount slotSize) :
    usedSlots slotSize (setBitmap page idx true) = insert idx (usedSlots slotSize page) := by
  ext i
  rw [Finset.mem_insert, mem_usedSlots, mem_usedSlots, bit_setBitmap page (byte_lt h)]
  by_cases hi : i = idx <;> simp [hi, h]

theorem usedSlots_setBitmap_false {idx : Nat} (h : idx < slotCount slotSize) :
    usedSlots slotSize (setBitmap page idx false) = (usedSlots slotSize page).erase idx := by
  ext i
  rw [Finset.mem_erase, mem_usedSlots, mem_usedSlots, bit_setBitmap page (byte_lt h)]
  by_cases hi : i = idx <;> simp [hi]

/-- A page gives the first slot that is not in use, if there is one. -/
theorem allocSlot_cases (slotSize : Nat) (page : PageData) :
    (allocSlot slotSize page = none ∧ usedSlots slotSize page = Finset.range (slotCount slotSize)) ∨
    ∃ slot page', allocSlot slotSize page = some (slot, page') ∧ slot.toNat < slotCount slotSize ∧
      slot.toNat ∉ usedSlots slotSize page ∧
      usedSlots slotSize page' = insert slot.toNat (usedSlots slotSize page) := by
  unfold allocSlot
  cases hf : (List.range (slotCount slotSize)).find? fun i => !isUsed slotSize page (UInt16.ofNat i) with
  | none =>
    refine .inl ⟨rfl, Finset.filter_true_of_mem fun i hi => ?_⟩
    have hlt := Finset.mem_range.1 hi
    have hused := List.find?_eq_none.1 hf i (List.mem_range.2 hlt)
    rw [Bool.not_eq_true, Bool.not_eq_false', isUsed_iff, toNat_slot hlt] at hused
    exact (mem_usedSlots.1 hused).2
  | some i =>
    have hlt := List.mem_range.1 (List.mem_of_find?_eq_some hf)
    have hfree : isUsed slotSize page (UInt16.ofNat i) ≠ true := by
      have := List.find?_some hf
      simpa using this
    rw [ne_eq, isUsed_iff, toNat_slot hlt] at hfree
    refine .inr ⟨UInt16.ofNat i, setBitmap page i true, rfl, ?_, ?_, ?_⟩
    · rw [toNat_slot hlt]
      exact hlt
    · rw [toNat_slot hlt]
      exact hfree
    · rw [toNat_slot hlt]
      exact usedSlots_setBitmap_true hlt

theorem freeSlot_cases (slotSize : Nat) (page : PageData) (slot : UInt16) :
    (freeSlot slotSize page slot = .error (.storageCorrupted 0) ∧ slotCount slotSize ≤ slot.toNat) ∨
    ∃ page', freeSlot slotSize page slot = .ok page' ∧
      usedSlots slotSize page' = (usedSlots slotSize page).erase slot.toNat := by
  unfold freeSlot
  dsimp only
  split
  · rename_i h
    exact .inl ⟨rfl, h⟩
  · rename_i h
    exact .inr ⟨_, rfl, usedSlots_setBitmap_false (Nat.lt_of_not_le h)⟩

/-- What is written behind the bitmap leaves its bits as they are. -/
theorem bit_splice {i idx : Nat} (hi : i < slotCount slotSize) {data : List UInt8}
    (h : slotOffset slotSize idx + data.length ≤ PAGE_SIZE) :
    bit (page.splice (slotOffset slotSize idx) data h) i = bit page i := by
  have hbyte : i / 8 < slotOffset slotSize idx := by
    unfold slotOffset bitmapBytes
    omega
  unfold bit PageData.splice
  dsimp only
  rw [List.getD_eq_getElem?_getD, List.getD_eq_getElem?_getD, getElem?_splice (by rwa [page.size_eq]), if_pos hbyte]

/-- Filling a slot leaves the bitmap as it is. -/
theorem writeSlot_cases (slotSize : Nat) (page : PageData) (slot : UInt16) (data : List UInt8) :
    (writeSlot slotSize page slot data = .error (.storageCorrupted 0) ∧
      (data.length ≠ slotSize ∨ slotCount slotSize ≤ slot.toNat)) ∨
    ∃ page', writeSlot slotSize page slot data = .ok page' ∧ usedSlots slotSize page' = usedSlots slotSize page := by
  unfold writeSlot
  split
  · rename_i h
    exact .inl ⟨rfl, .inl h⟩
  · rename_i hlen
    dsimp only
    split
    · rename_i h
      exact .inl ⟨rfl, .inr h⟩
    · rename_i h
      refine .inr ⟨_, rfl, Finset.filter_congr fun i hi => ?_⟩
      rw [bit_splice (Finset.mem_range.1 hi)]

end Slots

end RecordPage

end ChiffonDB
