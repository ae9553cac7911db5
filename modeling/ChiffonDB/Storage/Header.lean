import ChiffonDB.Storage.Basic

/-!
# The file header

`FileHeader` of `storage/file.rs`, page 0 of every database file: `serialize`, `deserialize`
and `deserialize_serialize` (a header of the current version survives the round trip).
-/

set_option autoImplicit false

namespace ChiffonDB

open Bytes

/-- `b"CHIFFON\0"`. -/
def MAGIC : List UInt8 := [0x43, 0x48, 0x49, 0x46, 0x46, 0x4F, 0x4E, 0x00]

def VERSION : UInt32 := 10

/-- Header sentinel for "no page-directory root yet". -/
def NO_DIR_ROOT : UInt32 := 0xFFFFFFFF

/-- Header sentinel for "property free-page list is empty". -/
def NO_FREE_PAGE : UInt32 := 0xFFFFFFFF

structure FileHeader where
  version : UInt32
  labelIndexRoot : UInt32
  propertyIndexRoot : UInt32
  schemaRoot : UInt32
  schemaVersion : UInt32
  nodePageCount : UInt32
  edgePageCount : UInt32
  propertyDirRoot : UInt32
  propertyDirLen : UInt32
  nodeDirRoot : UInt32
  edgeDirRoot : UInt32
  nodeFirstFreePage : UInt32
  edgeFirstFreePage : UInt32
  propertyFirstFreePage : UInt32
  propertyFreeListHead : UInt32
  deriving DecidableEq, Repr

/-- `FileHeader::new`. -/
def FileHeader.new : FileHeader where
  version := VERSION
  labelIndexRoot := NO_DIR_ROOT
  propertyIndexRoot := NO_DIR_ROOT
  schemaRoot := 0
  schemaVersion := 0
  nodePageCount := 0
  edgePageCount := 0
  propertyDirRoot := NO_DIR_ROOT
  propertyDirLen := 0
  nodeDirRoot := NO_DIR_ROOT
  edgeDirRoot := NO_DIR_ROOT
  nodeFirstFreePage := 0
  edgeFirstFreePage := 0
  propertyFirstFreePage := 0
  propertyFreeListHead := NO_FREE_PAGE

instance : Inhabited FileHeader := ⟨FileHeader.new⟩

/-- The 32-bit words behind the magic number, at offsets 8, 12, .. 76; the two at 24..32 are
    reserved. -/
def FileHeader.words (h : FileHeader) : List UInt32 :=
  [h.version, UInt32.ofNat PAGE_SIZE, h.labelIndexRoot, h.propertyIndexRoot, 0, 0,
   h.schemaRoot, h.schemaVersion, h.nodePageCount, h.edgePageCount,
   h.propertyDirRoot, h.propertyDirLen, h.nodeDirRoot, h.edgeDirRoot,
   h.nodeFirstFreePage, h.edgeFirstFreePage, h.propertyFirstFreePage, h.propertyFreeListHead]

/-- The first 80 bytes of the header page. -/
def FileHeader.fields (h : FileHeader) : List UInt8 := MAGIC ++ h.words.flatMap u32Bytes

theorem FileHeader.length_fields (h : FileHeader) : h.fields.length = 80 := by
  rw [FileHeader.fields, List.length_append, length_flatMap_u32Bytes]; rfl

/-- `FileHeader::serialize`. -/
def FileHeader.serialize (h : FileHeader) : PageData :=
  ⟨h.fields ++ List.replicate (PAGE_SIZE - 80) 0, by
    rw [List.length_append, h.length_fields, List.length_replicate]; rfl⟩

/-- `FileHeader::deserialize`. -/
def FileHeader.deserialize (buf : PageData) : Except GraphError FileHeader :=
  if slice buf.bytes 0 8 ≠ MAGIC then .error (.schemaError "invalid magic number")
  else
    let version := u32At buf.bytes 8
    if version ≠ VERSION then .error (.unsupportedVersion version VERSION)
    else .ok {
      version := version
      labelIndexRoot := u32At buf.bytes 16
      propertyIndexRoot := u32At buf.bytes 20
      schemaRoot := u32At buf.bytes 32
      schemaVersion := u32At buf.bytes 36
      nodePageCount := u32At buf.bytes 40
      edgePageCount := u32At buf.bytes 44
      propertyDirRoot := u32At buf.bytes 48
      propertyDirLen := u32At buf.bytes 52
      nodeDirRoot := u32At buf.bytes 56
      edgeDirRoot := u32At buf.bytes 60
      nodeFirstFreePage := u32At buf.bytes 64
      edgeFirstFreePage := u32At buf.bytes 68
      propertyFirstFreePage := u32At buf.bytes 72
      propertyFreeListHead := u32At buf.bytes 76 }

/-- Word `i` of the header page is read at offset `8 + 4 * i`. -/
theorem FileHeader.u32At_serialize {h : FileHeader} (i : Nat) {off : Nat} {v : UInt32}
    (hw : h.words[i]? = some v) (hoff : off = 8 + 4 * i) (hi : i < 18) :
    u32At h.serialize.bytes off = v := by
  subst hoff
  apply u32At_of_slice
  show slice (h.fields ++ _) (8 + 4 * i) 4 = _
  rw [slice_append_left (by rw [h.length_fields]; omega), FileHeader.fields,
    slice_append_right (show MAGIC.length ≤ 8 + 4 * i by simp [MAGIC])]
  have : 8 + 4 * i - MAGIC.length = 4 * i := by simp [MAGIC]
  rw [this, slice_flatMap_u32Bytes hw]

theorem FileHeader.deserialize_serialize {h : FileHeader} (hv : h.version = VERSION) :
    FileHeader.deserialize h.serialize = .ok h := by
  have hmagic : slice h.serialize.bytes 0 8 = MAGIC := by
    show slice (h.fields ++ _) 0 8 = _
    rw [slice_append_left (by rw [h.length_fields]; omega), FileHeader.fields,
      slice_append_left (show 0 + 8 ≤ MAGIC.length from Nat.le_refl 8)]
    rfl
  unfold FileHeader.deserialize
  rw [if_neg (not_not.2 hmagic)]
  simp only [h.u32At_serialize 0 rfl rfl (by omega), h.u32At_serialize 2 rfl rfl (by omega),
    h.u32At_serialize 3 rfl rfl (by omega), h.u32At_serialize 6 rfl rfl (by omega),
    h.u32At_serialize 7 rfl rfl (by omega), h.u32At_serialize 8 rfl rfl (by omega),
    h.u32At_serialize 9 rfl rfl (by omega), h.u32At_serialize 10 rfl rfl (by omega),
    h.u32At_serialize 11 rfl rfl (by omega), h.u32At_serialize 12 rfl rfl (by omega),
    h.u32At_serialize 13 rfl rfl (by omega), h.u32At_serialize 14 rfl rfl (by omega),
    h.u32At_serialize 15 rfl rfl (by omega), h.u32At_serialize 16 rfl rfl (by omega),
    h.u32At_serialize 17 rfl rfl (by omega), hv, ne_eq, not_true, if_false]
  cases h; cases hv; rfl

end ChiffonDB
