import ChiffonDB.Storage.LabelPage

/-!
# The label index

`LabelIndex` of `storage/label_index.rs`, as programs over the calls of `DatabaseFile`.  Every walk
over a chain of pages is `walk`: it gives up behind `page_count` steps.
-/

set_option autoImplicit false

namespace ChiffonDB

namespace LabelIndex

variable {α σ : Type}

/-- A walk along the links from `pid`, which `visit` may end early; at most `steps` links. -/
def walk (visit : σ → UInt32 → PageData → α ⊕ σ) (steps : Nat) (pid : UInt32) (s : σ) :
    Prog (α ⊕ σ) := do
  let page ← Prog.read pid
  match visit s pid page with
  | .inl a => pure (.inl a)
  | .inr s =>
    if readNext page = NO_ROOT then pure (.inr s)
    else match steps with
      | 0 => .throw (.storageCorrupted pid)
      | steps + 1 => walk visit steps (readNext page) s

/-- The first entry of the page that is `rid`. -/
def entryIdx (page : PageData) (rid : RecordId) : Option (Fin ENTRIES_PER_PAGE) :=
  ((entries page).findFinIdx? (· == rid)).map (Fin.castLE (by
    rw [length_entries]; exact readCount_le page))

/-- The first root slot of the page for `typeId`. -/
def slotIdx (page : PageData) (typeId : UInt16) : Option (Fin ENTRIES_PER_PAGE) :=
  ((slots page).findFinIdx? (·.1 == typeId)).map (Fin.castLE (by
    rw [length_slots]; exact readCount_le page))

/-! ## Root map -/

def visitHead (typeId : UInt16) (_ : Unit) (_ : UInt32) (page : PageData) : UInt32 ⊕ Unit :=
  match (slots page).find? (·.1 == typeId) with
  | some (_, head) => .inl head
  | none => .inr ()

/-- `head_of`. -/
def headOf (typeId : UInt16) : Prog (Option UInt32) := do
  let header ← Prog.getHeader
  let pid := header.labelIndexRoot
  if pid = NO_ROOT then pure none
  else do
    let limit ← Prog.count
    match ← walk (visitHead typeId) limit.toNat pid () with
    | .inl head => pure (some head)
    | .inr _ => pure none

def appendEmptyPage : Prog UInt32 := Prog.append (writeCount (writeNext PageData.zero NO_ROOT) 0)

/-- A slot to overwrite, or room for a new one. -/
def visitSetHead (typeId : UInt16) (head : UInt32) (_ : UInt32 × PageData) (pid : UInt32)
    (page : PageData) : (UInt32 × PageData) ⊕ (UInt32 × PageData) :=
  match slotIdx page typeId with
  | some i => .inl (pid, writeRootSlot page i typeId head)
  | none =>
    if h : readCount page < ROOT_SLOTS_PER_PAGE then
      .inl (pid, writeCount (writeRootSlot page ⟨readCount page, h⟩ typeId head) (readCount page + 1))
    else .inr (pid, page)

/-- `set_head`, as far as it makes sure that there is a root page. -/
def ensureRoot : Prog Unit := do
  let header ← Prog.getHeader
  if header.labelIndexRoot = NO_ROOT then do
    let pid ← appendEmptyPage
    let header ← Prog.getHeader
    Prog.putHeader { header with labelIndexRoot := pid }
  else pure ()

/-- `set_head`, from the first root page on. -/
def placeHead (typeId : UInt16) (head : UInt32) : Prog Unit := do
  let header ← Prog.getHeader
  let root := header.labelIndexRoot
  let limit ← Prog.count
  match ← walk (visitSetHead typeId head) limit.toNat root (root, PageData.zero) with
  | .inl (pid, page) => Prog.write pid page
  | .inr (pid, page) => do
    let newPid ← appendEmptyPage
    let newPage ← Prog.read newPid
    Prog.write newPid (writeCount (writeRootSlot newPage ⟨0, by decide⟩ typeId head) 1)
    Prog.write pid (writeNext page newPid)

/-- `set_head`. -/
def setHead (typeId : UInt16) (head : UInt32) : Prog Unit := do
  ensureRoot
  placeHead typeId head

/-! ## Adding -/

/-- `promote_spare`, as far as it looks for the last spare of the run that `s1` leads; without a usable
record `s1` is the whole run. -/
def spareRunEnd (head s1 : UInt32) (s1Page : PageData) : Prog UInt32 :=
  match readSpareTail s1Page with
  | some t =>
    if t ≠ s1 ∧ t ≠ head then do
      let page ← Prog.read t
      pure (if readCount page = 0 then t else s1)
    else pure s1
  | none => pure s1

/-- `promote_spare`. -/
def promoteSpare (head : UInt32) : Prog (Option UInt32) := do
  let headPage ← Prog.read head
  let s1 := readNext headPage
  if s1 = NO_ROOT then pure none
  else do
    let s1Page ← Prog.read s1
    if readCount s1Page ≠ 0 then pure none
    else do
      let s2 := readNext s1Page
      let tail ← spareRunEnd head s1 s1Page
      if tail = s1 then do
        Prog.write head (writeNext headPage s2)
        Prog.write s1 (writeNext s1Page head)
        pure (some s1)
      else do
        let tailPage ← Prog.read tail
        Prog.write head (writeNext headPage (readNext tailPage))
        Prog.write tail (writeNext tailPage head)
        -- `s2` now leads the run and takes over the end-of-run record
        let s2Page ← Prog.read s2
        if readCount s2Page = 0 then Prog.write s2 (writeSpareTail s2Page tail)
        pure (some s1)

/-- `add_new`. -/
def addNew (typeId : UInt16) (rid : RecordId) : Prog Unit := do
  let newPage := writeCount (writeEntry PageData.zero ⟨0, by decide⟩ rid) 1
  match ← headOf typeId with
  | none => do
    let newPid ← Prog.append (writeNext newPage NO_ROOT)
    setHead typeId newPid
  | some head => do
    let page ← Prog.read head
    if h : readCount page < ENTRIES_PER_PAGE then
      Prog.write head (writeCount (writeEntry page ⟨readCount page, h⟩ rid) (readCount page + 1))
    else
      match ← promoteSpare head with
      | some spare => do
        let sparePage ← Prog.read spare
        Prog.write spare (writeCount (writeEntry sparePage ⟨0, by decide⟩ rid) 1)
        setHead typeId spare
      | none => do
        let newPid ← Prog.append (writeNext newPage head)
        setHead typeId newPid

def visitEntry (rid : RecordId) (_ : Unit) (pid : UInt32) (page : PageData) :
    (UInt32 × Fin ENTRIES_PER_PAGE) ⊕ Unit :=
  match entryIdx page rid with
  | some i => .inl (pid, i)
  | none => .inr ()

/-- `add`. -/
def add (typeId : UInt16) (rid : RecordId) : Prog Unit := do
  match ← headOf typeId with
  | none => addNew typeId rid
  | some pid => do
    let limit ← Prog.count
    match ← walk (visitEntry rid) limit.toNat pid () with
    | .inl _ => pure ()
    | .inr _ => addNew typeId rid

/-! ## Removing -/

/-- The page `pid`, which need not be read again if it is `known`. -/
def readUnless (known : UInt32) (page : PageData) (pid : UInt32) : Prog PageData :=
  if pid = known then pure page else Prog.read pid

/-- `end_of_spare_run`. -/
def endOfSpareRun (first : UInt32) (firstPage : PageData) : Prog (Option (UInt32 × UInt32)) :=
  match readSpareTail firstPage with
  | none => pure none
  | some tail => do
    let tailPage ← readUnless first firstPage tail
    let d := readNext tailPage
    if readCount tailPage ≠ 0 ∨ d = NO_ROOT then pure none
    else do
      let dPage ← Prog.read d
      if readCount dPage = 0 then pure none else pure (some (tail, d))

/-- The walk to the first page with entries, with the empty page in front of it. -/
def walkToEntries : Nat → UInt32 → UInt32 → Prog (UInt32 × UInt32)
  | 0, lastEmpty, _ => .throw (.storageCorrupted lastEmpty)
  | steps + 1, lastEmpty, d =>
    if d = NO_ROOT then .throw (.storageCorrupted lastEmpty)
    else do
      let page ← Prog.read d
      if readCount page ≠ 0 then pure (lastEmpty, d)
      else walkToEntries steps d (readNext page)

/-- `promote_first_non_empty`, as far as it looks for the first page with entries: the empty page in
front of it, and the page. -/
def firstNonEmpty (head first : UInt32) (firstPage : PageData) : Prog (UInt32 × UInt32) :=
  if readCount firstPage ≠ 0 then pure (head, first)
  else do
    match ← endOfSpareRun first firstPage with
    | some found => pure found
    | none => do
      let limit ← Prog.count
      walkToEntries limit.toNat first (readNext firstPage)

/-- `promote_first_non_empty`. -/
def promoteFirstNonEmpty (typeId : UInt16) (head : UInt32) : Prog UInt32 := do
  let headPage ← Prog.read head
  let first := readNext headPage
  if first = NO_ROOT then .throw (.storageCorrupted head)
  else do
    let firstPage ← Prog.read first
    let (lastEmpty, d) ← firstNonEmpty head first firstPage
    let dPage ← Prog.read d
    let rest := readNext dPage
    Prog.write d (writeNext dPage head)
    setHead typeId d
    if lastEmpty ≠ head then do
      let lastPage ← Prog.read lastEmpty
      Prog.write lastEmpty (writeNext lastPage rest)
    let headPage ← Prog.read head
    let headPage := if lastEmpty = head then writeNext headPage rest else headPage
    Prog.write head (writeSpareTail headPage lastEmpty)
    pure d

/-- `fill_hole_from_head`, as far as it looks for a page that can donate an entry: the head, unless it
is empty. -/
def donorOf (typeId : UInt16) (head : UInt32) : Prog (UInt32 × PageData) := do
  let page ← Prog.read head
  if readCount page = 0 then do
    let donorPid ← promoteFirstNonEmpty typeId head
    let donor ← Prog.read donorPid
    pure (donorPid, donor)
  else pure (head, page)

/-- `fill_hole_from_head`. -/
def fillHoleFromHead (typeId : UInt16) (head pid : UInt32) (idx : Fin ENTRIES_PER_PAGE) :
    Prog Unit := do
  let (donorPid, donor) ← donorOf typeId head
  let donorCount := readCount donor
  if donorCount = 0 then .throw (.storageCorrupted donorPid)
  else do
    let last := readEntry donor (donorCount - 1)
    let donor := writeCount donor (donorCount - 1)
    if pid = donorPid then Prog.write donorPid (writeEntry donor idx last)
    else do
      Prog.write donorPid donor
      let page ← Prog.read pid
      Prog.write pid (writeEntry page idx last)

/-- `remove`. -/
def remove (typeId : UInt16) (rid : RecordId) : Prog Unit := do
  match ← headOf typeId with
  | none => pure ()
  | some head => do
    let limit ← Prog.count
    match ← walk (visitEntry rid) limit.toNat head () with
    | .inl (pid, i) => fillHoleFromHead typeId head pid i
    | .inr _ => pure ()

/-! ## Reading -/

def visitAll (out : List RecordId) (_ : UInt32) (page : PageData) : Empty ⊕ List RecordId :=
  .inr (out ++ entries page)

/-- `get`. -/
def get (typeId : UInt16) : Prog (List RecordId) := do
  match ← headOf typeId with
  | none => pure []
  | some pid => do
    let limit ← Prog.count
    match ← walk visitAll limit.toNat pid [] with
    | .inl a => nomatch a
    | .inr out => pure out

def visitCount (total : Nat) (_ : UInt32) (page : PageData) : Empty ⊕ Nat := .inr (total + readCount page)

/-- `count`; the total of a file's pages fits into 64 bits. -/
def count (typeId : UInt16) : Prog Nat := do
  match ← headOf typeId with
  | none => pure 0
  | some pid => do
    let limit ← Prog.count
    match ← walk visitCount limit.toNat pid 0 with
    | .inl a => nomatch a
    | .inr total => pure total

end LabelIndex

end ChiffonDB
