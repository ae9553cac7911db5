import ChiffonDB.Storage.Header
import ChiffonDB.Storage.RecordSlots

/-!
# Records and slots as bytes

What a record of `storage/record.rs` and the header of `storage/file.rs` read back after they have been written, and
what a slot operation of `storage/page.rs` leaves alone.

* `decodeRecordId_encodeRecordId` — an id that is there is never read as an absent one.
* `NodeRecord.deserialize_serialize`, `EdgeRecord.deserialize_serialize` — a record survives its bytes.
* `RecordPage.Untouched` — a slot whose bytes and bit are what they were.
* `codecs_faithful_local` — **the codecs lose nothing, and a slot operation only reaches its own slot**.
-/

set_option autoImplicit false

namespace ChiffonDB

open Bytes

/-! ## Record ids -/

/-- A field of a byte string. -/
theorem slice_field {l a b rest : List UInt8} {off n : Nat} (h : l = a ++ (b ++ rest)) (hoff : a.length = off)
    (hn : b.length = n) : slice l off n = b := by
  subst h hoff hn
  rw [slice_append_right (Nat.le_refl _), Nat.sub_self, slice_append_left (by omega)]
  exact slice_zero_length b

/-- Field `i` stands behind the fields in front of it. -/
theorem slice_flatten (fields : List (List UInt8)) (i : Nat) {b : List UInt8} {off n : Nat} (h : fields[i]? = some b)
    (hoff : ((fields.take i).map List.length).sum = off) (hn : b.length = n) : slice fields.flatten off n = b := by
  obtain ⟨hi, rfl⟩ := List.getElem?_eq_some_iff.1 h
  have hsplit : fields.flatten = (fields.take i).flatten ++ (fields[i] ++ (fields.drop (i + 1)).flatten) := by
    rw [← List.flatten_cons, ← List.drop_eq_getElem_cons hi, ← List.flatten_append, List.take_append_drop]
  exact slice_field hsplit (by rw [List.length_flatten, hoff]) hn

theorem getD_of_slice {l : List UInt8} {off : Nat} {b : UInt8} (h : slice l off 1 = [b]) : l.getD off 0 = b := by
  have hget := congrArg (fun bs : List UInt8 => bs[0]?) h
  rw [getElem?_slice, if_pos Nat.one_pos, Nat.add_zero] at hget
  rw [List.getD_eq_getElem?_getD, hget]
  rfl

/-- The padding byte tells an id from an absent one. -/
theorem encodeRecordId_ne_null (rid : RecordId) : encodeRecordId (some rid) ≠ encodeRecordId none := by
  intro h
  have hlast := congrArg (fun l : List UInt8 => l.getD 6 1) h
  have hpad : (encodeRecordId (some rid)).getD 6 1 = 0 := by simp [encodeRecordId]
  have hnull : (encodeRecordId none).getD 6 1 = 0xFF := rfl
  simp only [hpad, hnull] at hlast
  exact absurd hlast (by decide)

theorem decodeRecordId_encodeRecordId (rid : Option RecordId) : decodeRecordId (encodeRecordId rid) = rid := by
  unfold decodeRecordId
  cases rid with
  | none => exact if_pos rfl
  | some rid =>
    rw [if_neg (show encodeRecordId (some rid) ≠ NULL_RECORD from encodeRecordId_ne_null rid)]
    have hpage : u32At (encodeRecordId (some rid)) 0 = rid.pageId :=
      u32At_of_slice (slice_field (a := []) (List.append_assoc _ _ _) rfl (length_u32Bytes _))
    have hslot : u16At (encodeRecordId (some rid)) 4 = rid.slotId :=
      u16At_of_slice (slice_field (List.append_assoc _ _ _) (length_u32Bytes _) (length_u16Bytes _))
    rw [hpage, hslot]

/-! ## Records -/

/-- What a record is packed into, field by field. -/
def NodeRecord.fields (n : NodeRecord) : List (List UInt8) :=
  [encodeRecordId6 n.id, u16Bytes n.nodeTypeId, encodeRecordId n.firstOutEdge, encodeRecordId n.firstInEdge,
    encodeRecordId n.propertyRef, encodeRecordId n.labelRef, [n.flags], List.replicate 27 0]

theorem NodeRecord.serialize_eq (n : NodeRecord) : n.serialize = n.fields.flatten := by
  simp [serialize, fields]

theorem NodeRecord.deserialize_serialize (n : NodeRecord) : NodeRecord.deserialize n.serialize = n := by
  have hid : slice n.fields.flatten 0 6 = encodeRecordId6 n.id := slice_flatten n.fields 0 rfl rfl (by simp)
  have htype : u16At n.fields.flatten 6 = n.nodeTypeId :=
    u16At_of_slice (slice_flatten n.fields 1 rfl (by simp [fields]) (by simp))
  have hout : slice n.fields.flatten 8 7 = encodeRecordId n.firstOutEdge :=
    slice_flatten n.fields 2 rfl (by simp [fields]) (length_encodeRecordId _)
  have hin : slice n.fields.flatten 15 7 = encodeRecordId n.firstInEdge :=
    slice_flatten n.fields 3 rfl (by simp [fields, length_encodeRecordId]) (length_encodeRecordId _)
  have hprops : slice n.fields.flatten 22 7 = encodeRecordId n.propertyRef :=
    slice_flatten n.fields 4 rfl (by simp [fields, length_encodeRecordId]) (length_encodeRecordId _)
  have hlabels : slice n.fields.flatten 29 7 = encodeRecordId n.labelRef :=
    slice_flatten n.fields 5 rfl (by simp [fields, length_encodeRecordId]) (length_encodeRecordId _)
  have hflags : slice n.fields.flatten 36 1 = [n.flags] :=
    slice_flatten n.fields 6 rfl (by simp [fields, length_encodeRecordId]) rfl
  unfold deserialize
  rw [n.serialize_eq, hid, htype, hout, hin, hprops, hlabels, getD_of_slice hflags]
  simp only [decodeRecordId6_encodeRecordId6, decodeRecordId_encodeRecordId]

def EdgeRecord.fields (e : EdgeRecord) : List (List UInt8) :=
  [encodeRecordId6 e.id, u16Bytes e.edgeTypeId, encodeRecordId6 e.fromNode, encodeRecordId6 e.toNode,
    encodeRecordId e.nextOutEdge, encodeRecordId e.nextInEdge, encodeRecordId e.propertyRef, [e.flags],
    encodeRecordId e.labelRef, List.replicate 15 0]

theorem EdgeRecord.serialize_eq (e : EdgeRecord) : e.serialize = e.fields.flatten := by
  simp [serialize, fields]

theorem EdgeRecord.deserialize_serialize (e : EdgeRecord) : EdgeRecord.deserialize e.serialize = e := by
  have hid : slice e.fields.flatten 0 6 = encodeRecordId6 e.id := slice_flatten e.fields 0 rfl rfl (by simp)
  have htype : u16At e.fields.flatten 6 = e.edgeTypeId :=
    u16At_of_slice (slice_flatten e.fields 1 rfl (by simp [fields]) (by simp))
  have hfrom : slice e.fields.flatten 8 6 = encodeRecordId6 e.fromNode :=
    slice_flatten e.fields 2 rfl (by simp [fields]) (by simp)
  have hto : slice e.fields.flatten 14 6 = encodeRecordId6 e.toNode :=
    slice_flatten e.fields 3 rfl (by simp [fields]) (by simp)
  have hout : slice e.fields.flatten 20 7 = encodeRecordId e.nextOutEdge :=
    slice_flatten e.fields 4 rfl (by simp [fields]) (length_encodeRecordId _)
  have hin : slice e.fields.flatten 27 7 = encodeRecordId e.nextInEdge :=
    slice_flatten e.fields 5 rfl (by simp [fields, length_encodeRecordId]) (length_encodeRecordId _)
  have hprops : slice e.fields.flatten 34 7 = encodeRecordId e.propertyRef :=
    slice_flatten e.fields 6 rfl (by simp [fields, length_encodeRecordId]) (length_encodeRecordId _)
  have hflags : slice e.fields.flatten 41 1 = [e.flags] :=
    slice_flatten e.fields 7 rfl (by simp [fields, length_encodeRecordId]) rfl
  have hlabels : slice e.fields.flatten 42 7 = encodeRecordId e.labelRef :=
    slice_flatten e.fields 8 rfl (by simp [fields, length_encodeRecordId]) (length_encodeRecordId _)
  unfold deserialize
  rw [e.serialize_eq, hid, htype, hfrom, hto, hout, hin, hprops, getD_of_slice hflags, hlabels]
  simp only [decodeRecordId6_encodeRecordId6, decodeRecordId_encodeRecordId]

/-! ## Slots -/

namespace RecordPage

section Slots

variable {slotSize : Nat} {page page' : PageData}

/-- The bytes of a slot. -/
def slotBytes (slotSize : Nat) (page : PageData) (idx : Nat) : List UInt8 :=
  slice page.bytes (slotOffset slotSize idx) slotSize

/-- A slot whose bytes and bit are what they were. -/
structure Untouched (slotSize : Nat) (page page' : PageData) (idx : Nat) : Prop where
  bytes : slotBytes slotSize page' idx = slotBytes slotSize page idx
  bit : bit page' idx = bit page idx

/-- What is read of such a slot is what was read. -/
theorem Untouched.readSlot_eq {slot : UInt16} (h : Untouched slotSize page page' slot.toNat) :
    readSlot slotSize page' slot = readSlot slotSize page slot := by
  have hbytes := h.bytes
  unfold slotBytes at hbytes
  unfold readSlot
  dsimp only
  rw [hbytes]

theorem Untouched.isUsed_eq {slot : UInt16} (h : Untouched slotSize page page' slot.toNat) :
    isUsed slotSize page' slot = isUsed slotSize page slot := by
  have hbit := h.bit
  unfold RecordPage.bit at hbit
  unfold isUsed
  dsimp only
  rw [hbit]

/-- The bitmap ends where the slots begin. -/
theorem slotBytes_setBitmap (page : PageData) {idx : Nat} (h : idx < slotCount slotSize) (used : Bool) (i : Nat) :
    slotBytes slotSize (setBitmap page idx used) i = slotBytes slotSize page i := by
  have hbyte : idx / 8 < bitmapBytes (slotCount slotSize) := by
    unfold bitmapBytes
    omega
  unfold slotBytes setBitmap
  apply List.ext_getElem?
  intro k
  rw [getElem?_slice, getElem?_slice]
  split
  · refine List.getElem?_modify_ne _ page.bytes ?_
    unfold slotOffset
    omega
  · rfl

theorem untouched_setBitmap (page : PageData) {idx : Nat} (h : idx < slotCount slotSize) (used : Bool) {i : Nat}
    (hne : i ≠ idx) : Untouched slotSize page (setBitmap page idx used) i where
  bytes := slotBytes_setBitmap page h used i
  bit := by rw [bit_setBitmap page (byte_lt h), if_neg hne]

/-- **Taking a slot** leaves the others alone, and its own bytes. -/
theorem untouched_allocSlot {slot : UInt16} (h : allocSlot slotSize page = some (slot, page')) :
    slot.toNat < slotCount slotSize ∧ slotBytes slotSize page' slot.toNat = slotBytes slotSize page slot.toNat ∧
      ∀ i, i ≠ slot.toNat → Untouched slotSize page page' i := by
  unfold allocSlot at h
  obtain ⟨idx, hidx, heq⟩ := Option.map_eq_some_iff.1 h
  cases heq
  have hlt := List.mem_range.1 (List.mem_of_find?_eq_some hidx)
  rw [toNat_slot hlt]
  exact ⟨hlt, slotBytes_setBitmap page hlt true idx, fun i hi => untouched_setBitmap page hlt true hi⟩

/-- **Giving one back** leaves the others alone, and its own bytes. -/
theorem untouched_freeSlot {slot : UInt16} (h : freeSlot slotSize page slot = .ok page') :
    slotBytes slotSize page' slot.toNat = slotBytes slotSize page slot.toNat ∧
      ∀ i, i ≠ slot.toNat → Untouched slotSize page page' i := by
  unfold freeSlot at h
  dsimp only at h
  split at h
  · cases h
  · rename_i hlt
    cases h
    exact ⟨slotBytes_setBitmap page (Nat.lt_of_not_le hlt) false _,
      fun i hi => untouched_setBitmap page (Nat.lt_of_not_le hlt) false hi⟩

/-- Two slots do not overlap. -/
theorem slotOffset_disjoint {i j : Nat} (h : i ≠ j) :
    slotOffset slotSize i + slotSize ≤ slotOffset slotSize j ∨ slotOffset slotSize j + slotSize ≤ slotOffset slotSize i := by
  unfold slotOffset
  rcases Nat.lt_or_gt_of_ne h with hlt | hgt
  · have := Nat.mul_le_mul_right slotSize hlt
    rw [Nat.succ_mul] at this
    omega
  · have := Nat.mul_le_mul_right slotSize hgt
    rw [Nat.succ_mul] at this
    omega

/-- **Filling one** leaves the others alone, and its own bit. -/
theorem untouched_writeSlot {slot : UInt16} {data : List UInt8} (h : writeSlot slotSize page slot data = .ok page') :
    slotBytes slotSize page' slot.toNat = data ∧ bit page' slot.toNat = bit page slot.toNat ∧
      ∀ i < slotCount slotSize, i ≠ slot.toNat → Untouched slotSize page page' i := by
  unfold writeSlot at h
  split at h
  · cases h
  · rename_i hlen
    dsimp only at h
    split at h
    · cases h
    · rename_i hidx
      cases h
      obtain rfl : data.length = slotSize := not_not.1 hlen
      refine ⟨?_, bit_splice (Nat.lt_of_not_le hidx) _, fun i hi hne => ⟨?_, bit_splice hi _⟩⟩
      · exact PageData.slice_splice_self page _
      · exact PageData.slice_splice_ne page _ (slotOffset_disjoint hne)

/-- The slot operations of a page, and what each gives. -/
inductive SlotStep (slotSize : Nat) (page : PageData) : UInt16 → PageData → Prop where
  | write {slot : UInt16} {data : List UInt8} {page' : PageData} (h : writeSlot slotSize page slot data = .ok page') :
    SlotStep slotSize page slot page'
  | alloc {slot : UInt16} {page' : PageData} (h : allocSlot slotSize page = some (slot, page')) :
    SlotStep slotSize page slot page'
  | free {slot : UInt16} {page' : PageData} (h : freeSlot slotSize page slot = .ok page') :
    SlotStep slotSize page slot page'

/-- **A slot operation reaches no other slot.** -/
theorem SlotStep.untouched {slot : UInt16} (h : SlotStep slotSize page slot page') {i : Nat}
    (hi : i < slotCount slotSize) (hne : i ≠ slot.toNat) : Untouched slotSize page page' i := by
  cases h with
  | write h => exact (untouched_writeSlot h).2.2 i hi hne
  | alloc h => exact (untouched_allocSlot h).2.2 i hne
  | free h => exact (untouched_freeSlot h).2 i hne

end Slots

end RecordPage

open RecordPage in
/-- **The codecs of records and of the header lose nothing**, no id that is there has the bytes of an absent one, and a
    slot operation leaves the bytes and the bit of every other slot as they were. -/
theorem codecs_faithful_local :
    (∀ n : NodeRecord, NodeRecord.deserialize n.serialize = n) ∧
    (∀ e : EdgeRecord, EdgeRecord.deserialize e.serialize = e) ∧
    (∀ h : FileHeader, h.version = VERSION → FileHeader.deserialize h.serialize = .ok h) ∧
    (∀ rid : Option RecordId, decodeRecordId (encodeRecordId rid) = rid) ∧
    (∀ rid : RecordId, encodeRecordId (some rid) ≠ encodeRecordId none) ∧
    ∀ (slotSize : Nat) (page page' : PageData) (slot : UInt16), SlotStep slotSize page slot page' →
      ∀ i < slotCount slotSize, i ≠ slot.toNat → Untouched slotSize page page' i :=
  ⟨NodeRecord.deserialize_serialize, EdgeRecord.deserialize_serialize, fun _ => FileHeader.deserialize_serialize,
    decodeRecordId_encodeRecordId, encodeRecordId_ne_null, fun _ _ _ _ h _ hi hne => h.untouched hi hne⟩

open RecordPage in
/-- The header of a new file, and the first slot of a page that gives its second one back. -/
theorem codecs_faithful_local_new : FileHeader.deserialize FileHeader.new.serialize = .ok FileHeader.new ∧
    Untouched NODE_RECORD_SIZE newPage (setBitmap newPage 1 false) 0 :=
  ⟨codecs_faithful_local.2.2.1 FileHeader.new rfl,
    codecs_faithful_local.2.2.2.2.2 NODE_RECORD_SIZE newPage _ 1 (.free rfl) 0 (by decide) (by decide)⟩

end ChiffonDB
