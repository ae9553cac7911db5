import ChiffonDB.Storage.Recovery

/-!
# Runs of a database file

Sequences of calls on a `DatabaseFile`, `reopen` being a drop without flush followed by an open,
and the same calls on a plain page map.

* `FileInv` — the invariant of the file backend: the log's entries and the main file hold the
  pages below the count, page 0 the current header.
* `FileInv.step` — every call keeps it and answers as the plain map does, provided a write
  targets an existing page.
* `refinesPlainMap_iff` — **the file backend refines the plain page map for every sequence of
  calls, cache capacity and checkpoint order, exactly when every write targets an existing page**.
-/

set_option autoImplicit false

namespace ChiffonDB

open Bytes ByteFile Journal

/-- A call on a database file. -/
inductive FileOp where
  | append (data : PageData)
  | write (pageId : UInt32) (data : PageData)
  /-- Set `db.header`, then `write_header`. -/
  | writeHeader (header : FileHeader)
  | read (pageId : UInt32)
  | flush (order : HashOrder)
  /-- Drop without flush, then open. -/
  | reopen (order : HashOrder) (opts : OpenOptions)

/-- What the caller sees. -/
inductive FileResult where
  | appended (pageId : UInt32)
  | wrote (ok : Bool)
  | page (data : Option PageData)
  | flushed (ok : Bool)
  | opened (ok : Bool)
  deriving DecidableEq

/-- `Result::is_ok`. -/
def isOk {α : Type} : Except GraphError α → Bool
  | .ok _ => true
  | .error _ => false

namespace DatabaseFile

/-- One call; `none` when the page count overflows. -/
def step (db : DatabaseFile) : FileOp → Option (FileResult × DatabaseFile)
  | .append d =>
    match db.appendPage d with
    | none => none
    | some (p, db) => some (.appended p, db)
  | .write p d => some (.wrote (isOk (db.writePage p d).1), (db.writePage p d).2)
  | .writeHeader h =>
    let r := { db with header := h }.writeHeader
    some (.wrote (isOk r.1), r.2)
  | .read p => some (.page (db.readPage p).1.toOption, (db.readPage p).2)
  | .flush order => some (.flushed (isOk (db.flush order).1), (db.flush order).2)
  | .reopen order opts =>
    match db.disk with
    | none => some (.opened false, db)
    | some disk =>
      match openInner order opts disk with
      | .error _ => some (.opened false, db)
      | .ok db => some (.opened true, db)

/-- The results of a sequence of calls, each with the page count behind it; a call that panics
    ends the sequence. -/
def results (db : DatabaseFile) : List FileOp → List (Option (FileResult × UInt32))
  | [] => []
  | op :: ops =>
    match db.step op with
    | none => [none]
    | some (r, db) => some (r, db.pageCount) :: results db ops

theorem results_cons {db db' : DatabaseFile} {op : FileOp} {r : FileResult}
    (h : db.step op = some (r, db')) (ops : List FileOp) :
    db.results (op :: ops) = some (r, db'.pageCount) :: db'.results ops := by
  rw [results, h]

end DatabaseFile

namespace PageMap

/-- A new database. -/
def fresh : PageMap where
  durable := false
  pages := Function.update (fun _ => none) 0 (some FileHeader.new.serialize)
  header := FileHeader.new
  count := 1

/-- The calls on a plain page map: flushes and reopens change nothing, and a write to a page that
    does not exist is an error. -/
def step (m : PageMap) : FileOp → Option (FileResult × PageMap)
  | .append d =>
    match m.appendPage d with
    | none => none
    | some (p, m) => some (.appended p, m)
  | .write p d => if p < m.count then some (.wrote true, m.set p d) else some (.wrote false, m)
  | .writeHeader h => some (.wrote true, { m.set 0 h.serialize with header := h })
  | .read p => some (.page (m.pages p), m)
  | .flush _ => some (.flushed true, m)
  | .reopen _ _ => some (.opened true, m)

def results (m : PageMap) : List FileOp → List (Option (FileResult × UInt32))
  | [] => []
  | op :: ops =>
    match m.step op with
    | none => [none]
    | some (r, m) => some (r, m.count) :: results m ops

end PageMap

/-- Page 0 is written through `write_header` only, with a header of this version. -/
def FileOp.KeepsHeader : FileOp → Prop
  | .write p _ => p ≠ 0
  | .writeHeader h => h.version = VERSION
  | _ => True

def FileOp.IsReopen : FileOp → Prop
  | .reopen _ _ => True
  | _ => False

/-- A write goes to a page of the database. -/
def FileOp.TargetExists (m : PageMap) : FileOp → Prop
  | .write p _ => p < m.count
  | _ => True

/-- Every write of the run goes to a page that exists at that point. -/
def WritesExist (m : PageMap) : List FileOp → Prop
  | [] => True
  | op :: ops => op.TargetExists m ∧ ∀ r m', m.step op = some (r, m') → WritesExist m' ops

/-! ## The invariant of the file backend -/

/-- The state of a file-backed database that only ever wrote to its own pages. -/
structure FileInv (db : DatabaseFile) (m : PageMap) (main : ByteFile) (wal : WalFile)
    (cache : PageCache) (es : List WalEntry) : Prop where
  backend : db.backend = .file main wal cache
  layers : FileShows main wal cache es []
  sized : Sized main es m.count
  pages : m.pages = overlay es (mainPages main)
  header : db.header = m.header
  count : db.logicalPageCount = m.count
  page0 : m.pages 0 = some m.header.serialize
  version : m.header.version = VERSION

/-- `db` is a well-formed file-backed database with the pages of `m`. -/
def IsFile (db : DatabaseFile) (m : PageMap) : Prop :=
  ∃ main wal cache es, FileInv db m main wal cache es

namespace FileInv

variable {db : DatabaseFile} {m : PageMap} {main : ByteFile} {wal : WalFile} {cache : PageCache}
  {es : List WalEntry}

theorem exists_page (h : FileInv db m main wal cache es) {p : UInt32} :
    (m.pages p).isSome ↔ p < m.count := by
  rw [h.pages]
  exact h.sized.isSome_iff p

theorem write (h : FileInv db m main wal cache es) {p : UInt32} (hp : p < m.count) (d : PageData)
    (h0 : p = 0 → d = m.header.serialize) : IsFile (db.writePage p d).2 (m.set p d) := by
  obtain ⟨b, hdr, cnt⟩ := db
  obtain rfl : b = .file main wal cache := h.backend
  refine ⟨main, _, _, es ++ [(p, d)], rfl, h.layers.writePage p d, h.sized.write hp d, ?_,
    h.header, h.count, ?_, h.version⟩
  · show Function.update m.pages p (some d) = _
    rw [overlay_update, h.pages]
  · show Function.update m.pages p (some d) 0 = some m.header.serialize
    by_cases hz : p = 0
    · rw [h0 hz, hz, Function.update_self]
    · rw [Function.update_of_ne (Ne.symm hz), h.page0]

theorem writeHeader (h : FileInv db m main wal cache es) {hd : FileHeader}
    (hv : hd.version = VERSION) :
    IsFile { db with header := hd }.writeHeader.2 { m.set 0 hd.serialize with header := hd } := by
  obtain ⟨b, hdr, cnt⟩ := db
  obtain rfl : b = .file main wal cache := h.backend
  have hp : (0 : UInt32) < m.count := by
    rw [← h.exists_page, h.page0]; rfl
  refine ⟨main, _, _, es ++ [(0, hd.serialize)], rfl, h.layers.writePage 0 hd.serialize,
    h.sized.write hp hd.serialize, ?_, rfl, h.count, ?_, hv⟩
  · show Function.update m.pages 0 (some hd.serialize) = _
    rw [overlay_update, h.pages]
  · show Function.update m.pages 0 (some hd.serialize) 0 = _
    rw [Function.update_self]

theorem append (h : FileInv db m main wal cache es) (d : PageData) :
    (db.appendPage d = none ∧ m.appendPage d = none) ∨
    ∃ p db' m', db.appendPage d = some (p, db') ∧ m.appendPage d = some (p, m') ∧ IsFile db' m' := by
  obtain ⟨b, hdr, cnt⟩ := db
  obtain rfl : b = .file main wal cache := h.backend
  obtain rfl : cnt = m.count := h.count
  unfold DatabaseFile.appendPage PageMap.appendPage
  by_cases hc : m.count.toNat + 1 < UInt32.size
  · refine .inr ⟨m.count, _, _, if_pos hc, if_pos hc, ?_⟩
    refine ⟨main, _, _, es ++ [(m.count, d)], rfl, h.layers.writePage m.count d,
      h.sized.append hc d, ?_, h.header, rfl, ?_, h.version⟩
    · show Function.update m.pages m.count (some d) = _
      rw [overlay_update, h.pages]
    · show Function.update m.pages m.count (some d) 0 = some m.header.serialize
      have hne : (0 : UInt32) ≠ m.count := by
        have hp : (0 : UInt32) < m.count := by
          rw [← h.exists_page, h.page0]; rfl
        exact fun he => absurd hp (by rw [← he]; exact UInt32.lt_irrefl 0)
      rw [Function.update_of_ne hne, h.page0]
  · exact .inl ⟨if_neg hc, if_neg hc⟩

theorem read (h : FileInv db m main wal cache es) (p : UInt32) :
    (db.readPage p).1.toOption = m.pages p ∧ IsFile (db.readPage p).2 m := by
  obtain ⟨b, hdr, cnt⟩ := db
  obtain rfl : b = .file main wal cache := h.backend
  obtain ⟨cache', hr, h'⟩ := h.layers.readPage p
  unfold DatabaseFile.readPage
  rw [hr, h.pages]
  refine ⟨?_, main, wal, cache', es, rfl, h', h.sized, h.pages, h.header, h.count, h.page0,
    h.version⟩
  dsimp only
  cases overlay es (mainPages main) p <;> rfl

theorem flush (h : FileInv db m main wal cache es) (order : HashOrder) :
    isOk (db.flush order).1 = true ∧ IsFile (db.flush order).2 m := by
  obtain ⟨b, hdr, cnt⟩ := db
  obtain rfl : b = .file main wal cache := h.backend
  obtain rfl : cnt = m.count := h.count
  unfold DatabaseFile.flush
  by_cases hes : es = []
  · subst hes
    rw [h.layers.flush_nil order]
    exact ⟨rfl, main, wal, cache, [], rfl, h.layers, h.sized, h.pages, h.header, rfl, h.page0,
      h.version⟩
  · obtain ⟨hr, h'⟩ := h.layers.flush hes order m.count
    obtain ⟨hs, hp⟩ := h.sized.flushed
    rw [hr]
    refine ⟨rfl, _, _, cache, [], rfl, h', hs, ?_, h.header, rfl, h.page0, h.version⟩
    funext p
    rw [overlay_nil, hp, h.pages]

/-- **Dropping the database without a flush loses nothing.** -/
theorem reopen (h : FileInv db m main wal cache es) (order : HashOrder) (opts : OpenOptions) :
    ∃ disk db', db.disk = some disk ∧ DatabaseFile.openInner order opts disk = .ok db' ∧
      IsFile db' m := by
  obtain ⟨b, hdr, cnt⟩ := db
  obtain rfl : b = .file main wal cache := h.backend
  obtain ⟨hlen, hpages⟩ := h.sized.recovered
  have hfile : wal.file = encodeEntries es ++ [] := h.layers.log.file
  have hbuf : mainPages (replay es main) 0 = some m.header.serialize := by
    rw [hpages, ← h.pages, h.page0]
  obtain ⟨db', hopen, hhdr⟩ := openInner_ok decodeEntry_nil order opts hbuf
    (FileHeader.deserialize_serialize h.version)
  obtain ⟨wal', hb, hsh, hcnt, _⟩ := openInner_spec decodeEntry_nil hopen
  refine ⟨⟨main, wal.file⟩, db', rfl, by rw [hfile]; exact hopen, ?_⟩
  have hdiv : UInt32.ofNat (m.count.toNat * PAGE_SIZE / PAGE_SIZE) = m.count := by
    rw [Nat.mul_div_cancel _ (by decide), UInt32.ofNat_toNat]
  have hrest : (if es = [] then ([] : List UInt8) else []) = [] := by split <;> rfl
  rw [hrest] at hsh
  refine ⟨_, wal', _, [], hb, hsh, Sized.nil_of_length hlen, ?_, hhdr, ?_, h.page0, h.version⟩
  · funext p
    rw [overlay_nil, hpages, h.pages]
  · rw [hcnt, hlen, hdiv]

/-- **One call**: the file backend panics where the plain map does, and otherwise answers alike and
    keeps the invariant, as long as a write goes to an existing page. -/
theorem step (h : FileInv db m main wal cache es) {op : FileOp} (hop : op.KeepsHeader)
    (ht : op.TargetExists m) :
    (db.step op = none ∧ m.step op = none) ∨
    ∃ r db' m', db.step op = some (r, db') ∧ m.step op = some (r, m') ∧ IsFile db' m' := by
  cases op with
  | append d =>
    rcases h.append d with ⟨h1, h2⟩ | ⟨p, db', m', h1, h2, h3⟩
    · exact .inl ⟨by simp only [DatabaseFile.step, h1], by simp only [PageMap.step, h2]⟩
    · exact .inr ⟨.appended p, db', m', by simp only [DatabaseFile.step, h1],
        by simp only [PageMap.step, h2], h3⟩
  | write p d =>
    have hw := h.write ht d (fun h0 => absurd h0 hop)
    refine .inr ⟨.wrote true, (db.writePage p d).2, m.set p d, ?_, if_pos ht, hw⟩
    obtain ⟨b, hdr, cnt⟩ := db
    obtain rfl : b = .file main wal cache := h.backend
    rfl
  | writeHeader hd =>
    refine .inr ⟨.wrote true, _, _, ?_, rfl, h.writeHeader hop⟩
    obtain ⟨b, hdr, cnt⟩ := db
    obtain rfl : b = .file main wal cache := h.backend
    rfl
  | read p =>
    obtain ⟨hr, hf⟩ := h.read p
    refine .inr ⟨.page (m.pages p), _, m, ?_, rfl, hf⟩
    rw [← hr]
    rfl
  | flush order =>
    obtain ⟨hr, hf⟩ := h.flush order
    refine .inr ⟨.flushed true, _, m, ?_, rfl, hf⟩
    rw [← hr]
    rfl
  | reopen order opts =>
    obtain ⟨disk, db', hd, ho, hf⟩ := h.reopen order opts
    refine .inr ⟨.opened true, db', m, ?_, rfl, hf⟩
    unfold DatabaseFile.step
    rw [hd]
    dsimp only
    rw [ho]

end FileInv

theorem IsFile.pageCount {db : DatabaseFile} {m : PageMap} (h : IsFile db m) :
    db.pageCount = m.count := by
  obtain ⟨_, _, _, _, h⟩ := h
  exact h.count

theorem mainPages_new : mainPages FileHeader.new.serialize.bytes = PageMap.fresh.pages := by
  have hw : FileHeader.new.serialize.bytes = writeMain [] 0 FileHeader.new.serialize :=
    (writeAll_length [] FileHeader.new.serialize.bytes).symm
  have hnil : mainPages [] = fun _ => none := by
    funext q
    have : ¬ (q.toNat * PAGE_SIZE + PAGE_SIZE ≤ ([] : List UInt8).length) := by
      rw [List.length_nil]; unfold PAGE_SIZE; omega
    exact if_neg this
  rw [hw, mainPages_writeMain (by simp), hnil]
  rfl

theorem IsFile.create (opts : OpenOptions) : IsFile (DatabaseFile.create [] opts) PageMap.fresh := by
  have hopen := Holds.openWal [] decodeEntry_nil
  have hlen : FileHeader.new.serialize.bytes.length = (1 : UInt32).toNat * PAGE_SIZE := by
    rw [FileHeader.new.serialize.size_eq]
    exact (Nat.one_mul _).symm
  refine ⟨_, _, _, [], rfl, FileShows.opened hopen opts, Sized.nil_of_length hlen, ?_, rfl, rfl, ?_,
    rfl⟩
  · funext p
    rw [overlay_nil, mainPages_new]
  · simp [PageMap.fresh]

/-! ## Runs -/

theorem IsFile.results {db : DatabaseFile} {m : PageMap} (h : IsFile db m) {ops : List FileOp}
    (hops : ∀ op ∈ ops, op.KeepsHeader) : db.results ops = m.results ops ↔ WritesExist m ops := by
  induction ops generalizing db m with
  | nil => exact ⟨fun _ => trivial, fun _ => rfl⟩
  | cons op ops ih =>
    obtain ⟨main, wal, cache, es, hi⟩ := h
    have hop := hops op List.mem_cons_self
    have hrest : ∀ op ∈ ops, op.KeepsHeader := fun o ho => hops o (List.mem_cons_of_mem _ ho)
    unfold DatabaseFile.results PageMap.results WritesExist
    by_cases ht : op.TargetExists m
    · rcases hi.step hop ht with ⟨h1, h2⟩ | ⟨r, db', m', h1, h2, h3⟩
      · rw [h1, h2]
        refine ⟨fun _ => ⟨ht, fun r m' he => by cases he⟩, fun _ => rfl⟩
      · rw [h1, h2]
        dsimp only
        rw [h3.pageCount, List.cons_inj_right, ih h3 hrest]
        constructor
        · intro hw
          refine ⟨ht, fun r m'' he => ?_⟩
          cases he
          exact hw
        · rintro ⟨_, hw⟩
          exact hw r m' rfl
    · -- the file backend reports success, the plain map an error
      refine ⟨fun heq => absurd heq ?_, fun hw => absurd hw.1 ht⟩
      cases op with
      | write p d =>
        have hp : ¬ p < m.count := ht
        have h1 : db.step (.write p d) = some (.wrote true, (db.writePage p d).2) := by
          obtain ⟨b, hdr, cnt⟩ := db
          obtain rfl : b = .file main wal cache := hi.backend
          rfl
        have h2 : m.step (.write p d) = some (.wrote false, m) := if_neg hp
        rw [h1, h2]
        intro heq
        simp at heq
      | append => exact absurd trivial ht
      | writeHeader => exact absurd trivial ht
      | read => exact absurd trivial ht
      | flush => exact absurd trivial ht
      | reopen => exact absurd trivial ht

/-! ## The memory backend -/

/-- The memory backend with the pages of `m`. -/
structure MemoryInv (db : DatabaseFile) (m : PageMap) : Prop where
  pages : Shows db m
  memory : m.durable = false
  nonempty : 0 < m.count

namespace MemoryInv

variable {db : DatabaseFile} {m : PageMap}

theorem exists_page (h : MemoryInv db m) (p : UInt32) : (m.pages p).isSome ↔ p < m.count := by
  obtain ⟨hs, hm, _⟩ := h
  cases hs with
  | file => cases hm
  | memory hl =>
    rw [mainPages_isSome, hl, UInt32.lt_iff_toNat_lt]
    dsimp only
    unfold PAGE_SIZE
    omega

theorem writePage (h : MemoryInv db m) (p : UInt32) (d : PageData) : m.writePage p d =
    if p < m.count then (.ok (), m.set p d) else (.error (.storageCorrupted p), m) := by
  have hp := h.exists_page p
  unfold PageMap.writePage
  rw [h.memory, Bool.false_or]
  by_cases hc : p < m.count
  · rw [if_pos hc, if_pos (hp.2 hc)]
  · rw [if_neg hc, if_neg (fun hs => hc (hp.1 hs))]

/-- One call on the memory backend, which is never reopened. -/
theorem step (h : MemoryInv db m) {op : FileOp} (hop : ¬ op.IsReopen) :
    (db.step op = none ∧ m.step op = none) ∨
    ∃ r db' m', db.step op = some (r, db') ∧ m.step op = some (r, m') ∧ MemoryInv db' m' := by
  cases op with
  | append d =>
    rcases h.pages.appendPage d with ⟨h1, h2⟩ | ⟨p, db', m', h1, h2, h3⟩
    · exact .inl ⟨by simp only [DatabaseFile.step, h1], by simp only [PageMap.step, h2]⟩
    · refine .inr ⟨.appended p, db', m', by simp only [DatabaseFile.step, h1],
        by simp only [PageMap.step, h2], ?_⟩
      unfold PageMap.appendPage at h2
      split at h2
      · rename_i hc
        cases h2
        refine ⟨h3, h.memory, ?_⟩
        rw [UInt32.lt_iff_toNat_lt, UInt32.toNat_add]
        show 0 < (m.count.toNat + 1) % UInt32.size
        rw [Nat.mod_eq_of_lt hc]
        omega
      · cases h2
  | write p d =>
    obtain ⟨hr, hs⟩ := h.pages.writePage p d
    rw [h.writePage] at hr hs
    by_cases hp : p < m.count
    · rw [if_pos hp] at hr hs
      exact .inr ⟨.wrote true, _, _, by simp only [DatabaseFile.step, hr, isOk], if_pos hp, hs,
        h.memory, h.nonempty⟩
    · rw [if_neg hp] at hr hs
      exact .inr ⟨.wrote false, _, _, by simp only [DatabaseFile.step, hr, isOk], if_neg hp, hs,
        h.memory, h.nonempty⟩
  | writeHeader hd =>
    have h' : MemoryInv { db with header := hd } { m with header := hd } :=
      ⟨h.pages.setHeader hd, h.memory, h.nonempty⟩
    obtain ⟨hr, hs⟩ := h'.pages.writeHeader
    rw [h'.writePage, if_pos h.nonempty] at hr hs
    exact .inr ⟨.wrote true, _, _, by simp only [DatabaseFile.step, hr, isOk], rfl, hs, h.memory,
      h.nonempty⟩
  | read p =>
    obtain ⟨hr, hs⟩ := h.pages.readPage p
    refine .inr ⟨.page (m.pages p), _, m, ?_, rfl, hs, h.memory, h.nonempty⟩
    simp only [DatabaseFile.step, hr, PageMap.readPage]
    cases m.pages p <;> rfl
  | flush order =>
    obtain ⟨hs, hm, h0⟩ := h
    cases hs with
    | file => cases hm
    | memory hl header => exact .inr ⟨.flushed true, _, _, rfl, rfl, .memory hl header, hm, h0⟩
  | reopen order opts => exact absurd trivial hop

theorem results (h : MemoryInv db m) {ops : List FileOp} (hops : ∀ op ∈ ops, ¬ op.IsReopen) :
    db.results ops = m.results ops := by
  induction ops generalizing db m with
  | nil => rfl
  | cons op ops ih =>
    unfold DatabaseFile.results PageMap.results
    rcases h.step (hops op List.mem_cons_self) with ⟨h1, h2⟩ | ⟨r, db', m', h1, h2, h3⟩
    · rw [h1, h2]
    · rw [h1, h2]
      dsimp only
      rw [ih h3 (fun o ho => hops o (List.mem_cons_of_mem _ ho)), h3.pages.pageCount]

theorem create : MemoryInv DatabaseFile.createInMemory PageMap.fresh := by
  have hlen : FileHeader.new.serialize.bytes.length = (1 : UInt32).toNat * PAGE_SIZE := by
    rw [FileHeader.new.serialize.size_eq]
    exact (Nat.one_mul _).symm
  have hs := Shows.memory hlen FileHeader.new
  rw [mainPages_new] at hs
  exact ⟨hs, rfl, by decide⟩

end MemoryInv

/-! ## Refinement -/

/-- **The file backend refines the plain page map and agrees with the memory backend**: whatever
    the cache capacity, it gives the results of the plain map, and so those of the memory backend
    (which has nothing to reopen). -/
def RefinesPlainMap (opts : OpenOptions) (ops : List FileOp) : Prop :=
  (DatabaseFile.create [] opts).results ops = PageMap.fresh.results ops ∧
    ((∀ op ∈ ops, ¬ op.IsReopen) →
      (DatabaseFile.create [] opts).results ops = DatabaseFile.createInMemory.results ops)

/-- **The file backend behaves as the plain map for exactly the runs whose writes target existing
    pages.** -/
theorem refinesPlainMap_iff (opts : OpenOptions) (ops : List FileOp)
    (hops : ∀ op ∈ ops, op.KeepsHeader) :
    RefinesPlainMap opts ops ↔ WritesExist PageMap.fresh ops := by
  have hiff := (IsFile.create opts).results hops
  constructor
  · rintro ⟨h, _⟩
    exact hiff.1 h
  · intro h
    refine ⟨hiff.2 h, fun hr => ?_⟩
    rw [hiff.2 h, MemoryInv.create.results hr]

/-- Append a page, overwrite it, and read it behind a reopen with another cache. -/
theorem refinesPlainMap_append_write : RefinesPlainMap ⟨PAGE_SIZE⟩
    [.append .zero, .write 1 .zero, .reopen .id ⟨0⟩, .read 1] := by
  refine (refinesPlainMap_iff _ _ ?_).2 ?_
  · simp [FileOp.KeepsHeader]
  · refine ⟨trivial, fun r m h => ?_⟩
    cases h
    refine ⟨by unfold FileOp.TargetExists; decide, fun r m h => ?_⟩
    cases h
    exact ⟨trivial, fun _ _ _ => ⟨trivial, fun _ _ _ => trivial⟩⟩

/-- **A write to a missing page** succeeds, and the next open counts every page up to it. -/
theorem IsFile.write_missing {db : DatabaseFile} {m : PageMap} (h : IsFile db m) {p : UInt32}
    (hp : m.count ≤ p) (hmax : p.toNat + 1 < UInt32.size) (d : PageData) (order : HashOrder)
    (opts : OpenOptions) : ∃ db₁ db₂, db.step (.write p d) = some (.wrote true, db₁) ∧
      db₁.pageCount = m.count ∧ db₁.step (.reopen order opts) = some (.opened true, db₂) ∧
      db₂.pageCount = p + 1 := by
  obtain ⟨main, wal, cache, es, hi⟩ := h
  obtain ⟨b, hdr, cnt⟩ := db
  obtain rfl : b = .file main wal cache := hi.backend
  have hw := hi.layers.writePage p d
  have hfile : (wal.write p d).file = encodeEntries (es ++ [(p, d)]) ++ [] := hw.log.file
  obtain ⟨hlen, hpages⟩ := hi.sized.recovered
  have h0 : p ≠ 0 := by
    rintro rfl
    have h0 : (0 : UInt32) < m.count := by rw [← hi.exists_page, hi.page0]; rfl
    exact absurd (UInt32.le_iff_toNat_le.1 hp) (not_le.2 (UInt32.lt_iff_toNat_lt.1 h0))
  have hbuf : mainPages (replay (es ++ [(p, d)]) main) 0 = some m.header.serialize := by
    apply mainPages_replay
    rw [overlay_concat, if_neg h0, ← hi.pages, hi.page0]
  obtain ⟨db₂, hopen, _⟩ := openInner_ok decodeEntry_nil order opts hbuf
    (FileHeader.deserialize_serialize hi.version)
  obtain ⟨_, _, _, hcount, _⟩ := openInner_spec decodeEntry_nil hopen
  rw [← hfile] at hopen
  refine ⟨⟨.file main (wal.write p d) (cache.put p d false).2, hdr, cnt⟩, db₂, rfl, hi.count, ?_, ?_⟩
  · simp only [DatabaseFile.step, DatabaseFile.disk, hopen]
  · have hsize : (replay (es ++ [(p, d)]) main).length = (p.toNat + 1) * PAGE_SIZE := by
      have hle := UInt32.le_iff_toNat_le.1 hp
      have hmul := Nat.mul_le_mul_right PAGE_SIZE hle
      rw [replay_append]
      show (writeMain (replay es main) p d).length = _
      rw [writeMain, length_writeAll, d.size_eq, hlen, Nat.add_mul, Nat.one_mul]
      omega
    rw [hsize, Nat.mul_div_cancel _ (by decide)] at hcount
    show db₂.logicalPageCount = _
    rw [hcount]
    apply UInt32.toNat_inj.1
    rw [UInt32.toNat_ofNat', UInt32.toNat_add]
    rfl

/-- **A write to page 5 of a one-page database succeeds, and the reopened database has six
    pages**; the memory backend answers `StorageCorrupted`. -/
theorem write_missing_page_grows :
    ¬ RefinesPlainMap ⟨PAGE_SIZE⟩ [.write 5 .zero, .reopen .id ⟨PAGE_SIZE⟩] ∧
    (DatabaseFile.create [] ⟨PAGE_SIZE⟩).results [.write 5 .zero, .reopen .id ⟨PAGE_SIZE⟩] =
      [some (.wrote true, 1), some (.opened true, 6)] ∧
    PageMap.fresh.results [.write 5 .zero, .reopen .id ⟨PAGE_SIZE⟩] =
      [some (.wrote false, 1), some (.opened true, 1)] := by
  have hplain : PageMap.fresh.results [.write 5 .zero, .reopen .id ⟨PAGE_SIZE⟩] =
      [some (.wrote false, 1), some (.opened true, 1)] := rfl
  obtain ⟨db₁, db₂, h1, hc1, h2, hc2⟩ := (IsFile.create ⟨PAGE_SIZE⟩).write_missing (p := 5)
    (by decide) (by decide) .zero .id ⟨PAGE_SIZE⟩
  have hfile : (DatabaseFile.create [] ⟨PAGE_SIZE⟩).results [.write 5 .zero, .reopen .id ⟨PAGE_SIZE⟩] =
      [some (.wrote true, 1), some (.opened true, 6)] := by
    rw [DatabaseFile.results_cons h1, DatabaseFile.results_cons h2, hc1, hc2]
    rfl
  refine ⟨fun h => ?_, hfile, hplain⟩
  have := h.1
  rw [hfile, hplain] at this
  simp at this

end ChiffonDB
