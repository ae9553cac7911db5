import ChiffonDB.Lib.ByteFile

/-!
# Errors, pages and record ids

`GraphError` is `error.rs`; `PageData` is the `[u8; PAGE_SIZE]` buffer every storage layer
passes around; `RecordId` is the logical pointer of `storage/page.rs`.
-/

set_option autoImplicit false

namespace ChiffonDB

open Bytes

/-- `GraphError`.  An `Io` error carries no data here: the model's file calls fail only where
    the file is too short (`UnexpectedEof`). -/
inductive GraphError where
  | nodeNotFound (msg : String)
  | edgeNotFound (msg : String)
  | schemaError (msg : String)
  | storageCorrupted (page : UInt32)
  | propertySlotFreed
  | unsupportedVersion (found supported : UInt32)
  | invalidCommand (msg : String)
  | typeMismatch (expected actual : String)
  | validationError (msg : String)
  | uniqueViolation (field value : String)
  | io
  deriving DecidableEq, Repr

/-- The texts of `error.rs`; the only `Io` error is the end of file that `read_exact` meets. -/
def GraphError.text : GraphError → String
  | .nodeNotFound msg => "Node not found: " ++ msg
  | .edgeNotFound msg => "Edge not found: " ++ msg
  | .schemaError msg => "Schema error: " ++ msg
  | .storageCorrupted page => "Storage corrupted at page " ++ toString page
  | .propertySlotFreed => "Property slot has been freed"
  | .unsupportedVersion found supported =>
    "Unsupported file format version: found " ++ toString found ++ ", supported " ++ toString supported
  | .invalidCommand msg => "Invalid traversal command: " ++ msg
  | .typeMismatch expected actual => "Type mismatch: expected " ++ expected ++ ", got " ++ actual
  | .validationError msg => "Validation error: " ++ msg
  | .uniqueViolation field value =>
    "Unique constraint violation on '" ++ field ++ "': value " ++ value ++ " already exists"
  | .io => "IO error: failed to fill whole buffer"

def PAGE_SIZE : Nat := 4096

/-- `[u8; PAGE_SIZE]`. -/
structure PageData where
  bytes : List UInt8
  size_eq : bytes.length = PAGE_SIZE
  deriving DecidableEq, Repr

theorem PageData.ext {p q : PageData} (h : p.bytes = q.bytes) : p = q := by
  cases p; cases q; cases h; rfl

/-- `[0u8; PAGE_SIZE]`. -/
def PageData.zero : PageData := ⟨List.replicate PAGE_SIZE 0, by simp⟩

instance : Inhabited PageData := ⟨PageData.zero⟩

/-- `page[off..off + bs.len()].copy_from_slice(bs)`; the caller shows that the range lies in
    the page. -/
def PageData.splice (p : PageData) (off : Nat) (bs : List UInt8)
    (h : off + bs.length ≤ PAGE_SIZE) : PageData :=
  ⟨Bytes.splice p.bytes off bs, by rw [length_splice (by rw [p.size_eq]; exact h), p.size_eq]⟩

/-- A link at the front of a page lies in it. -/
theorem link_fits (pid : UInt32) : 0 + (u32Bytes pid).length ≤ PAGE_SIZE := by
  rw [length_u32Bytes]
  decide

/-! What a spliced page holds: the new bytes there, the old ones elsewhere. -/

section Splice

variable (p : PageData) {off o n : Nat} {bs : List UInt8}

theorem PageData.slice_splice_self (h : off + bs.length ≤ PAGE_SIZE) :
    slice (p.splice off bs h).bytes off bs.length = bs :=
  Bytes.slice_splice_self (by rwa [p.size_eq])

theorem PageData.u16At_splice_self (v : UInt16) (h : off + (u16Bytes v).length ≤ PAGE_SIZE) :
    u16At (p.splice off (u16Bytes v) h).bytes off = v :=
  Bytes.u16At_splice_self v (by rwa [p.size_eq, ← length_u16Bytes v])

theorem PageData.u32At_splice_self (v : UInt32) (h : off + (u32Bytes v).length ≤ PAGE_SIZE) :
    u32At (p.splice off (u32Bytes v) h).bytes off = v :=
  Bytes.u32At_splice_self v (by rwa [p.size_eq, ← length_u32Bytes v])

theorem PageData.slice_splice_ne (h : off + bs.length ≤ PAGE_SIZE)
    (ho : o + n ≤ off ∨ off + bs.length ≤ o) :
    slice (p.splice off bs h).bytes o n = slice p.bytes o n :=
  slice_splice_of_disjoint (by rwa [p.size_eq]) ho

theorem PageData.u16At_splice_ne (h : off + bs.length ≤ PAGE_SIZE)
    (ho : o + 2 ≤ off ∨ off + bs.length ≤ o) :
    u16At (p.splice off bs h).bytes o = u16At p.bytes o :=
  u16At_splice_of_disjoint (by rwa [p.size_eq]) ho

theorem PageData.u32At_splice_ne (h : off + bs.length ≤ PAGE_SIZE)
    (ho : o + 4 ≤ off ∨ off + bs.length ≤ o) :
    u32At (p.splice off bs h).bytes o = u32At p.bytes o :=
  u32At_splice_of_disjoint (by rwa [p.size_eq]) ho

end Splice

/-- A page read from a byte string of the right length (`try_into`). -/
def PageData.ofBytes? (bs : List UInt8) : Option PageData :=
  if h : bs.length = PAGE_SIZE then some ⟨bs, h⟩ else none

theorem PageData.ofBytes?_bytes (p : PageData) : PageData.ofBytes? p.bytes = some p := by
  unfold PageData.ofBytes?; rw [dif_pos p.size_eq]

/-- `RecordId`: a page number and a slot number. -/
structure RecordId where
  pageId : UInt32
  slotId : UInt16
  deriving DecidableEq, Repr, Inhabited

end ChiffonDB
