import Mathlib.Data.Finite.Prod
import ChiffonDB.Storage.LabelPage

/-!
# Record pages

The fixed-slot pages of `storage/page.rs` and the records of `storage/record.rs`.

* `slotCount` — how many slots of a size fit on a page behind the bitmap.
* `readSlot` — the bytes of a slot, whether it is in use or not.
* `NodeRecord.deserialize`, `EdgeRecord.deserialize` — **every 64 bytes are a record**.
-/

set_option autoImplicit false

namespace ChiffonDB

open Bytes

namespace RecordPage

/-- Bytes of the bitmap. -/
def bitmapBytes (slotCount : Nat) : Nat := (slotCount + 7) / 8

/-- The loop of `compute_slot_count`. -/
def shrink (slotSize : Nat) : Nat → Nat
  | 0 => 0
  | n + 1 => if bitmapBytes (n + 1) + (n + 1) * slotSize > PAGE_SIZE then shrink slotSize n else n + 1

/-- `compute_slot_count`. -/
def slotCount (slotSize : Nat) : Nat := shrink slotSize (PAGE_SIZE / (slotSize + 1))

def slotOffset (slotSize idx : Nat) : Nat := bitmapBytes (slotCount slotSize) + idx * slotSize

/-- `is_used`. -/
def isUsed (slotSize : Nat) (page : PageData) (slot : UInt16) : Bool :=
  let idx := slot.toNat
  if idx ≥ slotCount slotSize then false
  else (page.bytes.getD (idx / 8) 0).toNat.testBit (idx % 8)

/-- `read_slot`. -/
def readSlot (slotSize : Nat) (page : PageData) (slot : UInt16) : Except GraphError (List UInt8) :=
  let idx := slot.toNat
  if idx ≥ slotCount slotSize then .error (.storageCorrupted 0)
  else .ok (slice page.bytes (slotOffset slotSize idx) slotSize)

theorem bitmap_add_slots_le (slotSize n : Nat) :
    bitmapBytes (shrink slotSize n) + shrink slotSize n * slotSize ≤ PAGE_SIZE := by
  induction n with
  | zero => simp [shrink, bitmapBytes]
  | succ n ih =>
    unfold shrink
    split
    · exact ih
    · omega

/-- **A slot lies on the page.** -/
theorem slotOffset_add_le {slotSize idx : Nat} (h : idx < slotCount slotSize) :
    slotOffset slotSize idx + slotSize ≤ PAGE_SIZE := by
  have hfit := bitmap_add_slots_le slotSize (PAGE_SIZE / (slotSize + 1))
  have hmul : (idx + 1) * slotSize ≤ slotCount slotSize * slotSize := Nat.mul_le_mul_right _ h
  rw [Nat.add_mul, Nat.one_mul] at hmul
  unfold slotOffset
  show bitmapBytes (slotCount slotSize) + _ + _ ≤ _
  change bitmapBytes (slotCount slotSize) + slotCount slotSize * slotSize ≤ PAGE_SIZE at hfit
  omega

theorem length_readSlot {slotSize : Nat} {page : PageData} {slot : UInt16} {bytes : List UInt8}
    (h : readSlot slotSize page slot = .ok bytes) : bytes.length = slotSize := by
  unfold readSlot at h
  dsimp only at h
  split at h
  · cases h
  · rename_i hlt
    cases h
    exact length_slice (by rw [page.size_eq]; exact slotOffset_add_le (Nat.lt_of_not_le hlt))

end RecordPage

/-! ## Records -/

/-- `{:?}` of a record id. -/
def RecordId.debug (rid : RecordId) : String :=
  "RecordId \x7b page_id: PageId(" ++ toString rid.pageId ++ "), slot_id: SlotId(" ++ toString rid.slotId ++ ") \x7d"

theorem RecordId.ext_toNat {r r' : RecordId} (hp : r.pageId.toNat = r'.pageId.toNat)
    (hs : r.slotId.toNat = r'.slotId.toNat) : r = r' := by
  obtain ⟨p, s⟩ := r
  obtain ⟨p', s'⟩ := r'
  exact congrArg₂ RecordId.mk (UInt32.toNat_inj.1 hp) (UInt16.toNat_inj.1 hs)

instance : Finite RecordId := by
  refine Finite.of_injective
    (fun r : RecordId => ((⟨r.pageId.toNat, r.pageId.toNat_lt⟩, ⟨r.slotId.toNat, r.slotId.toNat_lt⟩) :
      Fin (2 ^ 32) × Fin (2 ^ 16))) fun r r' h => ?_
  simp only [Prod.mk.injEq, Fin.mk.injEq] at h
  exact RecordId.ext_toNat h.1 h.2

/-- All seven bytes of an absent record id. -/
def NULL_RECORD : List UInt8 := List.replicate 7 0xFF

/-- `decode_record_id`. -/
def decodeRecordId (buf : List UInt8) : Option RecordId :=
  if buf = NULL_RECORD then none else some ⟨u32At buf 0, u16At buf 4⟩

def NODE_RECORD_SIZE : Nat := 64

structure NodeRecord where
  id : RecordId
  nodeTypeId : UInt16
  firstOutEdge : Option RecordId
  firstInEdge : Option RecordId
  propertyRef : Option RecordId
  labelRef : Option RecordId
  flags : UInt8
  deriving DecidableEq, Repr

/-- `NodeRecord::deserialize`, which accepts every record. -/
def NodeRecord.deserialize (buf : List UInt8) : NodeRecord where
  id := decodeRecordId6 (slice buf 0 6)
  nodeTypeId := u16At buf 6
  firstOutEdge := decodeRecordId (slice buf 8 7)
  firstInEdge := decodeRecordId (slice buf 15 7)
  propertyRef := decodeRecordId (slice buf 22 7)
  labelRef := decodeRecordId (slice buf 29 7)
  flags := buf.getD 36 0

def EDGE_RECORD_SIZE : Nat := 64

structure EdgeRecord where
  id : RecordId
  edgeTypeId : UInt16
  fromNode : RecordId
  toNode : RecordId
  nextOutEdge : Option RecordId
  nextInEdge : Option RecordId
  propertyRef : Option RecordId
  flags : UInt8
  labelRef : Option RecordId
  deriving DecidableEq, Repr

/-- `EdgeRecord::deserialize`, which accepts every record. -/
def EdgeRecord.deserialize (buf : List UInt8) : EdgeRecord where
  id := decodeRecordId6 (slice buf 0 6)
  edgeTypeId := u16At buf 6
  fromNode := decodeRecordId6 (slice buf 8 6)
  toNode := decodeRecordId6 (slice buf 14 6)
  nextOutEdge := decodeRecordId (slice buf 20 7)
  nextInEdge := decodeRecordId (slice buf 27 7)
  propertyRef := decodeRecordId (slice buf 34 7)
  flags := buf.getD 41 0
  labelRef := decodeRecordId (slice buf 42 7)

inductive EdgeDirection where
  | out
  | «in»
  deriving DecidableEq, Repr

/-- The first edge of a node's list. -/
def NodeRecord.first (n : NodeRecord) : EdgeDirection → Option RecordId
  | .out => n.firstOutEdge
  | .in => n.firstInEdge

/-- The edge behind this one in a list. -/
def EdgeRecord.next (e : EdgeRecord) : EdgeDirection → Option RecordId
  | .out => e.nextOutEdge
  | .in => e.nextInEdge

/-- The node whose list of a direction an edge belongs to. -/
def EdgeRecord.anchor (e : EdgeRecord) : EdgeDirection → RecordId
  | .out => e.fromNode
  | .in => e.toNode

end ChiffonDB
