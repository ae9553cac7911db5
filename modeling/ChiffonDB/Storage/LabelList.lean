import Mathlib.Data.Fintype.Card
import ChiffonDB.Lib.MessagePack
import ChiffonDB.Storage.Basic

/-!
# Label lists

The additional labels of a record, as they go into the property store.

* `encodeLabelList`, `decodeLabelList` — as MessagePack.
* `decodeLabelList_encodeLabelList`, `exists_encodeLabelList` — **every list without repetitions goes in, and comes back**.
-/

set_option autoImplicit false

namespace ChiffonDB

open MessagePack

/-- `encode_label_list`. -/
def encodeLabelList (typeIds : List UInt16) : Except GraphError (List UInt8) :=
  match packArray packUInt16 typeIds with
  | some bytes => .ok bytes
  | none => .error (.schemaError "invalid value write")

/-- `decode_label_list`. -/
def decodeLabelList (bytes : List UInt8) : Except GraphError (List UInt16) :=
  match unpackArray unpackUInt16 bytes with
  | some typeIds => .ok typeIds
  | none => .error (.schemaError "invalid type")

theorem decodeLabelList_encodeLabelList {typeIds : List UInt16} {bytes : List UInt8}
    (h : encodeLabelList typeIds = .ok bytes) : decodeLabelList bytes = .ok typeIds := by
  unfold encodeLabelList at h
  split at h
  · rename_i packed hpacked
    cases h
    unfold decodeLabelList
    rw [unpackArray_packArray reads_uint16 hpacked]
  · cases h

/-- There are no more than that many labels. -/
theorem length_labels_le {typeIds : List UInt16} (h : typeIds.Nodup) : typeIds.length ≤ UInt16.size := by
  have hnd : (typeIds.map UInt16.toFin).Nodup := h.map fun a b hab => UInt16.toFin_inj.1 hab
  have hcard := hnd.length_le_card
  rwa [List.length_map, Fintype.card_fin] at hcard

theorem exists_encodeLabelList {typeIds : List UInt16} (h : typeIds.Nodup) :
    ∃ bytes, encodeLabelList typeIds = .ok bytes := by
  have hlen : typeIds.length < 256 ^ 4 := by
    have hle : typeIds.length ≤ 65536 := length_labels_le h
    omega
  obtain ⟨bytes, hbytes⟩ := Option.isSome_iff_exists.1 (@isSome_packArray _ packUInt16 _ hlen)
  refine ⟨bytes, ?_⟩
  unfold encodeLabelList
  rw [hbytes]

example : encodeLabelList [1, 200, 300] = .ok [0x93, 1, 0xcc, 200, 0xcd, 1, 44] := rfl

end ChiffonDB
