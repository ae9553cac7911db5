import ChiffonDB.Storage.LabelIndex

/-!
# The property index

`PropertyIndex` of `storage/property_index.rs`: hash buckets, whose chains have the links and counts of
the label index's pages, behind a directory of their heads.
-/

set_option autoImplicit false

namespace ChiffonDB

open Bytes

namespace PropertyIndex

open LabelIndex (walk readNext writeNext writeCount appendEmptyPage)

def HEADER : Nat := 8

def ENTRY_SIZE : Nat := 24

def ENTRIES_PER_PAGE : Nat := (PAGE_SIZE - HEADER) / ENTRY_SIZE

def BUCKET_COUNT : Nat := 256

def DIR_SLOTS_PER_PAGE : Nat := (PAGE_SIZE - HEADER) / 4

structure IndexKey where
  typeId : UInt16
  pathHash : UInt64
  valueHash : UInt64
  deriving DecidableEq, Repr

/-- 64-bit FNV-1a. -/
def fnv1a (bytes : List UInt8) : UInt64 :=
  bytes.foldl (fun hash b => (hash ^^^ b.toUInt64) * 0x00000100000001b3) 0xcbf29ce484222325

namespace IndexKey

def new (typeId : UInt16) (pathDisplay valueBytes : List UInt8) : IndexKey :=
  ⟨typeId, fnv1a pathDisplay, fnv1a valueBytes⟩

def bucket (k : IndexKey) : Nat :=
  (fnv1a (u16Bytes k.typeId ++ leBytes 8 k.pathHash.toNat ++ leBytes 8 k.valueHash.toNat)).toNat % BUCKET_COUNT

end IndexKey

/-- `read_count`, clamped to the entries a page can hold. -/
def readCount (page : PageData) : Nat := min (u32At page.bytes 4).toNat ENTRIES_PER_PAGE

def readDirSlot (page : PageData) (slot : Nat) : UInt32 := u32At page.bytes (HEADER + slot * 4)

/-- `read_entry`: the key and the record id. -/
def readEntry (page : PageData) (idx : Nat) : IndexKey × RecordId :=
  let off := HEADER + idx * ENTRY_SIZE
  (⟨u16At page.bytes off, UInt64.ofNat (ofLE (slice page.bytes (off + 2) 8)),
    UInt64.ofNat (ofLE (slice page.bytes (off + 10) 8))⟩, decodeRecordId6 (slice page.bytes (off + 18) 6))

def entries (page : PageData) : List (IndexKey × RecordId) :=
  (List.range (readCount page)).map (readEntry page)

/-- The bytes of `write_entry_raw`. -/
def encodeEntry (e : IndexKey × RecordId) : List UInt8 :=
  u16Bytes e.1.typeId ++ leBytes 8 e.1.pathHash.toNat ++ leBytes 8 e.1.valueHash.toNat ++ encodeRecordId6 e.2

theorem length_encodeEntry (e : IndexKey × RecordId) : (encodeEntry e).length = ENTRY_SIZE := by
  simp [encodeEntry, ENTRY_SIZE]

/-- `write_entry`, `write_entry_raw`. -/
def writeEntry (page : PageData) (idx : Fin ENTRIES_PER_PAGE) (e : IndexKey × RecordId) : PageData :=
  page.splice (HEADER + idx * ENTRY_SIZE) (encodeEntry e) (by
    have hidx : idx.val < 170 := idx.isLt
    rw [length_encodeEntry]
    show 8 + idx.val * 24 + 24 ≤ 4096
    omega)

def writeDirSlot (page : PageData) (slot : Fin DIR_SLOTS_PER_PAGE) (pid : UInt32) : PageData :=
  page.splice (HEADER + slot * 4) (u32Bytes pid) (by
    have hslot : slot.val < 1022 := slot.isLt
    rw [length_u32Bytes]
    show 8 + slot.val * 4 + 4 ≤ 4096
    omega)

/-- `dir_location`. -/
def dirLocation (b : Nat) : Nat × Nat := (b / DIR_SLOTS_PER_PAGE, b % DIR_SLOTS_PER_PAGE)

/-- The loop of `bucket_head`. -/
def dirWalk : Nat → UInt32 → Prog (Option UInt32)
  | 0, pid => pure (some pid)
  | n + 1, pid => do
    let page ← Prog.read pid
    let next := readNext page
    if next = NO_ROOT then pure none else dirWalk n next

def bucketHead (b : Nat) : Prog (Option UInt32) := do
  let header ← Prog.getHeader
  let root := header.propertyIndexRoot
  if root = NO_ROOT then pure none
  else do
    let (dirPid, slot) := dirLocation b
    match ← dirWalk dirPid root with
    | none => pure none
    | some pid => do
      let page ← Prog.read pid
      let head := readDirSlot page slot
      pure (if head = NO_ROOT then none else some head)

/-! ## Adding -/

/-- The page of `append_empty_dir_page`. -/
def emptyDirPage : PageData :=
  (List.finRange DIR_SLOTS_PER_PAGE).foldl (fun page slot => writeDirSlot page slot NO_ROOT)
    (writeCount (writeNext PageData.zero NO_ROOT) 0)

/-- `bucket_head_ensure`, as far as it makes sure that there is a directory. -/
def ensureDirectory : Prog Unit := do
  let header ← Prog.getHeader
  if header.propertyIndexRoot = NO_ROOT then do
    let pid ← Prog.append emptyDirPage
    let header ← Prog.getHeader
    Prog.putHeader { header with propertyIndexRoot := pid }
  else pure ()

/-- The loop of `bucket_head_ensure`. -/
def dirWalkEnsure : Nat → UInt32 → Prog UInt32
  | 0, pid => pure pid
  | n + 1, pid => do
    let page ← Prog.read pid
    let next := readNext page
    if next ≠ NO_ROOT then dirWalkEnsure n next
    else do
      let newPid ← Prog.append emptyDirPage
      Prog.write pid (writeNext page newPid)
      dirWalkEnsure n newPid

/-- `bucket_head_ensure`. -/
def bucketHeadEnsure (b : Nat) : Prog UInt32 := do
  match ← bucketHead b with
  | some pid => pure pid
  | none => do
    ensureDirectory
    let header ← Prog.getHeader
    let slot : Fin DIR_SLOTS_PER_PAGE := ⟨(dirLocation b).2, Nat.mod_lt _ (by decide)⟩
    let pid ← dirWalkEnsure (dirLocation b).1 header.propertyIndexRoot
    let head ← appendEmptyPage
    let page ← Prog.read pid
    let page := writeDirSlot page slot head
    Prog.write pid (writeCount page (max (readCount page) (slot + 1)))
    pure head

instance : LawfulBEq (IndexKey × RecordId) := inferInstance

/-- The entry is there, or the first page with room so far. -/
def visitAdd (e : IndexKey × RecordId) (firstFree : Option UInt32) (pid : UInt32) (page : PageData) :
    Unit ⊕ Option UInt32 :=
  if e ∈ entries page then .inl ()
  else .inr (firstFree.or (if readCount page < ENTRIES_PER_PAGE then some pid else none))

def visitLast (_ : UInt32 × PageData) (pid : UInt32) (page : PageData) : Empty ⊕ (UInt32 × PageData) :=
  .inr (pid, page)

/-- `link_tail`. -/
def linkTail (head newPid : UInt32) : Prog Unit := do
  let limit ← Prog.count
  match ← walk visitLast limit.toNat head (head, PageData.zero) with
  | .inl a => nomatch a
  | .inr (pid, page) => Prog.write pid (writeNext page newPid)

/-- One more entry on a page; a page without room panics. -/
def pushEntry (page : PageData) (e : IndexKey × RecordId) : Option PageData :=
  if h : readCount page < ENTRIES_PER_PAGE then
    some (writeCount (writeEntry page ⟨readCount page, h⟩ e) (readCount page + 1))
  else none

/-- `add`. -/
def add (key : IndexKey) (rid : RecordId) : Prog Unit := do
  let head ← bucketHeadEnsure key.bucket
  let limit ← Prog.count
  match ← walk (visitAdd (key, rid)) limit.toNat head none with
  | .inl () => pure ()
  | .inr (some freePid) => do
    let page ← Prog.read freePid
    match pushEntry page (key, rid) with
    | some page => Prog.write freePid page
    | none => .panic
  | .inr none => do
    let newPid ← appendEmptyPage
    let newPage ← Prog.read newPid
    Prog.write newPid (writeCount (writeEntry newPage ⟨0, by decide⟩ (key, rid)) 1)
    linkTail head newPid

/-! ## Removing -/

/-- The page without the entry, if it has it: the last entry takes its place. -/
def visitRemove (e : IndexKey × RecordId) (_ : Unit) (pid : UInt32) (page : PageData) :
    (UInt32 × PageData) ⊕ Unit :=
  match (entries page).findFinIdx? (· == e) with
  | some i =>
    let idx : Fin ENTRIES_PER_PAGE := i.castLE (by simp [entries, readCount])
    .inl (pid, writeCount (writeEntry page idx (readEntry page (readCount page - 1))) (readCount page - 1))
  | none => .inr ()

/-- `remove`. -/
def remove (key : IndexKey) (rid : RecordId) : Prog Unit := do
  match ← bucketHead key.bucket with
  | none => pure ()
  | some head => do
    let limit ← Prog.count
    match ← walk (visitRemove (key, rid)) limit.toNat head () with
    | .inl (pid, page) => Prog.write pid page
    | .inr () => pure ()

/-! ## Reading -/

def visitCandidates (key : IndexKey) (out : List RecordId) (_ : UInt32) (page : PageData) :
    Empty ⊕ List RecordId :=
  .inr (out ++ (entries page).filterMap fun (k, rid) => if k = key then some rid else none)

def candidates (key : IndexKey) : Prog (List RecordId) := do
  match ← bucketHead key.bucket with
  | none => pure []
  | some pid => do
    let limit ← Prog.count
    match ← walk (visitCandidates key) limit.toNat pid [] with
    | .inl a => nomatch a
    | .inr out => pure out

end PropertyIndex

end ChiffonDB
