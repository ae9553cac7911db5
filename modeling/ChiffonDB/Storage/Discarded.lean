import ChiffonDB.Storage.FileRun

/-!
# Entries that recovery has discarded

A run that starts by opening a log file of any content: `P` are its entries in front of the first
invalid or incomplete one.  When `P` is empty the log file is not truncated, and each later append
overwrites one slot of it, so an old entry can come to stand right behind the new ones.

* `Trace.Inv` — between two calls the log file is the pending writes followed by what is left of
  the file found at the first open.
* `Trace.Inv.step` — every call keeps it, a reopen provided the bytes behind the pending writes
  start with no valid entry.
* `discarded_iff` — **what recovery discarded stays discarded exactly when no reopen finds a valid
  old entry right behind the log's end.**
-/

set_option autoImplicit false

namespace ChiffonDB

open Bytes ByteFile Journal

/-- The pages a call writes. -/
def FileOp.writes (db : DatabaseFile) : FileOp → List WalEntry
  | .append d => [(db.logicalPageCount, d)]
  | .write p d => [(p, d)]
  | .writeHeader h => [(0, h.serialize)]
  | _ => []

/-- A database file with the history of its page writes since the first open. -/
structure Trace where
  db : DatabaseFile
  writes : List WalEntry
  /-- The writes since the log was last cleared. -/
  pending : List WalEntry
  /-- Whether the log file found at the first open has been cleared. -/
  cleared : Bool

namespace Trace

/-- The log is empty behind a checkpoint; a checkpoint runs unless the log was empty. -/
def checkpointed (t : Trace) (db : DatabaseFile) : Trace where
  db := db
  writes := t.writes
  pending := []
  cleared := t.cleared || !t.pending.isEmpty

/-- One call; `none` on a panic, and on an open that fails. -/
def step (t : Trace) (op : FileOp) : Option Trace :=
  match t.db.step op with
  | none => none
  | some (r, db) =>
    match op with
    | .flush _ => some (t.checkpointed db)
    | .reopen _ _ => if r = .opened true then some (t.checkpointed db) else none
    | op => some { t with
        db := db, writes := t.writes ++ op.writes t.db, pending := t.pending ++ op.writes t.db }

def run (t : Trace) : List FileOp → Option Trace
  | [] => some t
  | op :: ops => (t.step op).bind (fun t => run t ops)

theorem run_cons {t t' : Trace} {op : FileOp} (h : t.step op = some t') (ops : List FileOp) :
    t.run (op :: ops) = t'.run ops := by
  rw [run, h, Option.bind_some]

theorem step_reopen {t : Trace} {db' : DatabaseFile} {order : HashOrder} {opts : OpenOptions}
    (h : t.db.step (.reopen order opts) = some (.opened true, db')) :
    t.step (.reopen order opts) = some (t.checkpointed db') := by
  unfold step
  rw [h]
  rfl

/-- `φ` holds of the state before each reopen of the run. -/
def EachReopen (φ : Trace → Prop) (t : Trace) : List FileOp → Prop
  | [] => True
  | op :: ops => (op.IsReopen → φ t) ∧ ∀ t', t.step op = some t' → EachReopen φ t' ops

/-- Opening the files as they are replays the pending writes and nothing else. -/
def Recovers (t : Trace) : Prop :=
  ∀ disk, t.db.disk = some disk → RecoversExactly disk.wal t.pending

/-- Every page reads as its last write since the first open, else as `base` had it. -/
def ShowsLast (base : UInt32 → Option PageData) (t : Trace) : Prop :=
  ∀ p d, overlay t.writes base p = some d → (t.db.readPage p).1 = .ok d

/-- The log found at the first open is gone, or the slot behind the pending writes holds no valid
    entry of it. -/
def SlotClear (found : ByteFile) (t : Trace) : Prop :=
  t.cleared = true ∨ decodeEntry (found.drop (t.pending.length * WAL_ENTRY_SIZE)) = none

/-! ## The invariant -/

/-- What stands behind the pending writes in the log file. -/
def leftover (found : ByteFile) (t : Trace) : List UInt8 :=
  if t.cleared then [] else found.drop (t.pending.length * WAL_ENTRY_SIZE)

/-- The layers hold the pending writes over a main file that has everything older. -/
structure Inv (found : ByteFile) (base : UInt32 → Option PageData) (t : Trace) (main : ByteFile)
    (wal : WalFile) (cache : PageCache) : Prop where
  backend : t.db.backend = .file main wal cache
  layers : FileShows main wal cache t.pending (t.leftover found)
  shows : ∀ p d, overlay t.writes base p = some d →
    overlay t.pending (mainPages main) p = some d

def Ok (found : ByteFile) (base : UInt32 → Option PageData) (t : Trace) : Prop :=
  ∃ main wal cache, Inv found base t main wal cache

variable {found : ByteFile} {base : UInt32 → Option PageData} {t : Trace}

theorem decodeEntry_leftover : decodeEntry (t.leftover found) = none ↔ t.SlotClear found := by
  unfold leftover SlotClear
  cases t.cleared
  · simp
  · simp [decodeEntry_nil]

theorem Ok.recovers (h : Ok found base t) : t.Recovers ↔ t.SlotClear found := by
  obtain ⟨main, wal, cache, hi⟩ := h
  have hdisk : t.db.disk = some ⟨main, wal.file⟩ := by
    unfold DatabaseFile.disk; rw [hi.backend]
  rw [← decodeEntry_leftover, ← @recoversExactly_iff_rest t.pending]
  unfold Recovers
  rw [hdisk]
  constructor
  · intro h
    have := h _ rfl
    rwa [hi.layers.log.file] at this
  · rintro h disk hd
    cases hd
    rw [hi.layers.log.file]
    exact h

theorem Ok.showsLast (h : Ok found base t) : t.ShowsLast base := by
  obtain ⟨main, wal, cache, hi⟩ := h
  intro p d hp
  obtain ⟨cache', hr, _⟩ := hi.layers.readPage p
  unfold DatabaseFile.readPage
  rw [hi.backend, hr, hi.shows p d hp]

/-! ## One call -/

/-- A page write overwrites one slot of what is left of the old log. -/
theorem Inv.logged {main : ByteFile} {wal : WalFile} {cache : PageCache}
    (h : Inv found base t main wal cache) (p : UInt32) (d : PageData) (hdr : FileHeader)
    (cnt : UInt32) : Ok found base
      { db := ⟨.file main (wal.write p d) (cache.put p d false).2, hdr, cnt⟩
        writes := t.writes ++ [(p, d)], pending := t.pending ++ [(p, d)], cleared := t.cleared } := by
  refine ⟨_, _, _, rfl, ?_, ?_⟩
  · have hw := h.layers.writePage p d
    have hdrop : (t.leftover found).drop WAL_ENTRY_SIZE = if t.cleared then [] else
        found.drop ((t.pending ++ [(p, d)]).length * WAL_ENTRY_SIZE) := by
      unfold leftover
      cases t.cleared
      · rw [if_neg (by simp), if_neg (by simp), List.drop_drop, List.length_append,
          List.length_singleton, Nat.add_mul, Nat.one_mul]
      · rfl
    rw [hdrop] at hw
    exact hw
  · intro q e he
    rw [overlay_concat] at he ⊢
    split
    · rename_i hq; rwa [if_pos hq] at he
    · rename_i hq
      rw [if_neg hq] at he
      exact h.shows q e he

theorem leftover_checkpointed (db : DatabaseFile) :
    (t.checkpointed db).leftover found = if t.pending = [] then t.leftover found else [] := by
  unfold leftover checkpointed
  cases hp : t.pending with
  | nil => simp
  | cons e es => simp

theorem Inv.flush {main : ByteFile} {wal : WalFile} {cache : PageCache}
    (h : Inv found base t main wal cache) (order : HashOrder) :
    Ok found base (t.checkpointed (t.db.flush order).2) := by
  have hl := @leftover_checkpointed found t (t.db.flush order).2
  unfold DatabaseFile.flush at hl ⊢
  rw [h.backend] at hl ⊢
  by_cases hp : t.pending = []
  · have h' := h.layers
    rw [hp] at h'
    rw [h'.flush_nil order] at hl ⊢
    refine ⟨main, wal, cache, rfl, ?_, ?_⟩
    · rw [hl, if_pos hp]
      exact h'
    · intro q e he
      have := h.shows q e he
      rwa [hp] at this
  · obtain ⟨hr, h'⟩ := h.layers.flush hp order t.db.logicalPageCount
    rw [hr] at hl ⊢
    refine ⟨_, _, cache, rfl, ?_, ?_⟩
    · rw [hl, if_neg hp]
      exact h'
    · intro q e he
      show overlay [] _ q = some e
      rw [overlay_nil]
      exact mainPages_flushed _ (h.shows q e he)

/-- A reopen that finds no valid entry behind the pending writes. -/
theorem Inv.reopen {main : ByteFile} {wal : WalFile} {cache : PageCache}
    (h : Inv found base t main wal cache) (hclear : t.SlotClear found) {order : HashOrder}
    {opts : OpenOptions} {db' : DatabaseFile}
    (hopen : DatabaseFile.openInner order opts ⟨main, wal.file⟩ = .ok db') :
    Ok found base (t.checkpointed db') := by
  rw [h.layers.log.file] at hopen
  obtain ⟨wal', hb, hsh, _, _⟩ := openInner_spec (decodeEntry_leftover.2 hclear) hopen
  refine ⟨_, wal', _, hb, ?_, ?_⟩
  · rw [leftover_checkpointed]
    exact hsh
  · intro q e he
    show overlay [] _ q = some e
    rw [overlay_nil]
    exact mainPages_replay (h.shows q e he)

/-- **Every call keeps the invariant.** -/
theorem Ok.step (h : Ok found base t) {op : FileOp} {t' : Trace} (hs : t.step op = some t')
    (hop : op.IsReopen → t.SlotClear found) : Ok found base t' := by
  obtain ⟨main, wal, cache, hi⟩ := h
  obtain ⟨⟨b, hdr, cnt⟩, writes, pending, cleared⟩ := t
  obtain rfl : b = .file main wal cache := hi.backend
  cases op with
  | append d =>
    unfold Trace.step DatabaseFile.step DatabaseFile.appendPage at hs
    dsimp only at hs
    split at hs
    · cases hs
    · rename_i r db heq
      split at heq
      · cases heq
      · rename_i p db' hap
        split at hap
        · cases hap; cases heq; cases hs
          exact hi.logged cnt d hdr (cnt + 1)
        · cases hap
  | write p d =>
    cases hs
    exact hi.logged p d hdr cnt
  | writeHeader hd =>
    cases hs
    exact hi.logged 0 hd.serialize hd cnt
  | read p =>
    obtain ⟨cache', hr, h'⟩ := hi.layers.readPage p
    have hdb : (DatabaseFile.readPage ⟨.file main wal cache, hdr, cnt⟩ p).2 =
        ⟨.file main wal cache', hdr, cnt⟩ := by
      unfold DatabaseFile.readPage
      rw [hr]
    cases hs
    refine ⟨main, wal, cache', ?_, ?_, ?_⟩
    · show (DatabaseFile.readPage ⟨.file main wal cache, hdr, cnt⟩ p).2.backend = _
      rw [hdb]
    · simpa [FileOp.writes, leftover] using h'
    · simpa [FileOp.writes] using hi.shows
  | flush order =>
    cases hs
    exact hi.flush order
  | reopen order opts =>
    unfold Trace.step DatabaseFile.step DatabaseFile.disk at hs
    dsimp only at hs
    split at hs
    · cases hs
    · rename_i r db heq
      split at heq
      · cases heq; simp at hs
      · rename_i db' hopen
        cases heq
        cases hs
        exact hi.reopen (hop trivial) hopen

/-! ## Runs -/

theorem Ok.eachReopen (h : Ok found base t) (ops : List FileOp) :
    EachReopen Recovers t ops ↔ EachReopen (SlotClear found) t ops := by
  induction ops generalizing t with
  | nil => exact Iff.rfl
  | cons op ops ih =>
    unfold EachReopen
    constructor
    · rintro ⟨hop, hrest⟩
      have hop' : op.IsReopen → t.SlotClear found := fun hr => h.recovers.1 (hop hr)
      exact ⟨hop', fun t' hs => (ih (h.step hs hop')).1 (hrest t' hs)⟩
    · rintro ⟨hop, hrest⟩
      exact ⟨fun hr => h.recovers.2 (hop hr), fun t' hs => (ih (h.step hs hop)).2 (hrest t' hs)⟩

theorem Ok.run (h : Ok found base t) {ops : List FileOp} (hops : EachReopen (SlotClear found) t ops)
    {t' : Trace} (hrun : t.run ops = some t') : Ok found base t' := by
  induction ops generalizing t with
  | nil => cases hrun; exact h
  | cons op ops ih =>
    obtain ⟨t₁, hs, hrun'⟩ := Option.bind_eq_some_iff.1 hrun
    exact ih (h.step hs hops.1) (hops.2 t₁ hs) hrun'

/-- The state behind the first open. -/
def first (db : DatabaseFile) (P : List WalEntry) : Trace where
  db := db
  writes := []
  pending := []
  cleared := !P.isEmpty

/-- What the first open has to show: the entries of `P` over the main file. -/
theorem Ok.first {P : List WalEntry} {rest : List UInt8} (hrest : decodeEntry rest = none)
    {order : HashOrder} {opts : OpenOptions} {main : ByteFile} {db : DatabaseFile}
    (hopen : DatabaseFile.openInner order opts ⟨main, encodeEntries P ++ rest⟩ = .ok db) :
    Ok (encodeEntries P ++ rest) (overlay P (mainPages main)) (first db P) := by
  obtain ⟨wal, hb, hsh, _, _⟩ := openInner_spec hrest hopen
  refine ⟨_, wal, _, hb, ?_, ?_⟩
  · have hl : (Trace.first db P).leftover (encodeEntries P ++ rest) =
        if P = [] then rest else [] := by
      unfold leftover Trace.first
      cases P with
      | nil => simp
      | cons e es => simp
    rw [hl]
    exact hsh
  · intro p d h
    exact mainPages_replay h

end Trace

/-- **What recovery has discarded stays discarded**: every reopen of the run replays exactly the
    writes made since the log was last cleared, and at its end, `t`, each page shows its last write
    since the first open, else its version in `P`, else the main file at the first open. -/
def StaysDiscarded (main : ByteFile) (P : List WalEntry) (db : DatabaseFile) (ops : List FileOp)
    (t : Trace) : Prop :=
  (Trace.first db P).EachReopen Trace.Recovers ops ∧ t.ShowsLast (overlay P (mainPages main))

/-- **Discarded entries stay discarded exactly when no reopen finds a valid old entry right behind
    the log's end**: either the log found at the first open has been cleared by then (it has from
    the start when `P` is not empty), or its slot behind the pending writes holds no valid entry. -/
theorem staysDiscarded_iff {P : List WalEntry} {rest : List UInt8} (hrest : decodeEntry rest = none)
    {order : HashOrder} {opts : OpenOptions} {main : ByteFile} {db : DatabaseFile}
    (hopen : DatabaseFile.openInner order opts ⟨main, encodeEntries P ++ rest⟩ = .ok db)
    {ops : List FileOp} {t : Trace} (hrun : (Trace.first db P).run ops = some t) :
    StaysDiscarded main P db ops t ↔
      (Trace.first db P).EachReopen (Trace.SlotClear (encodeEntries P ++ rest)) ops := by
  have h := Trace.Ok.first hrest hopen
  unfold StaysDiscarded
  rw [h.eachReopen ops]
  exact ⟨fun hd => hd.1, fun hd => ⟨hd, (h.run hd hrun).showsLast⟩⟩

/-! ## Two logs found at open -/

/-- A main file of two pages: the header of a new database and a page of zeros. -/
def twoPages : ByteFile := writeMain FileHeader.new.serialize.bytes 1 .zero

theorem mainPages_twoPages : mainPages twoPages 0 = some FileHeader.new.serialize ∧
    mainPages twoPages 1 = some .zero := by
  have hle : (1 : UInt32).toNat * PAGE_SIZE ≤ FileHeader.new.serialize.bytes.length := by
    rw [PageData.size_eq]; decide
  have hp : mainPages twoPages = Function.update (mainPages FileHeader.new.serialize.bytes) 1
      (some .zero) := mainPages_writeMain hle .zero
  rw [hp, mainPages_new]
  exact ⟨by simp [PageMap.fresh], by simp⟩

/-- A log whose last entry is cut: the run is clean behind the first open's checkpoint. -/
theorem staysDiscarded_truncated : ∃ db t,
    DatabaseFile.openInner .id ⟨PAGE_SIZE⟩ ⟨twoPages, encodeEntries [(1, .zero)] ++ [0]⟩ = .ok db ∧
    (Trace.first db [(1, .zero)]).run [.write 1 .zero, .flush .id] = some t ∧
    StaysDiscarded twoPages [(1, .zero)] db [.write 1 .zero, .flush .id] t := by
  have hrest : decodeEntry [0] = none := decodeEntry_of_length_lt (by decide)
  have hbuf : mainPages (replay [(1, .zero)] twoPages) 0 = some FileHeader.new.serialize := by
    apply mainPages_replay
    rw [overlay, latest_eq_none_iff.2 (by simp), Option.none_or, mainPages_twoPages.1]
  obtain ⟨db, hopen, _⟩ := openInner_ok hrest .id ⟨PAGE_SIZE⟩ hbuf
    (FileHeader.deserialize_serialize rfl)
  refine ⟨db, _, hopen, rfl, (staysDiscarded_iff hrest hopen rfl).2 ?_⟩
  exact ⟨fun h => absurd h id, fun _ _ => ⟨fun h => absurd h id, fun _ _ => trivial⟩⟩

/-- A page of ones. -/
def onesPage : PageData := ⟨List.replicate PAGE_SIZE 1, List.length_replicate⟩

theorem zero_ne_onesPage : PageData.zero ≠ onesPage := by
  intro h
  have hb : (List.replicate PAGE_SIZE (0 : UInt8))[0]? = (List.replicate PAGE_SIZE (1 : UInt8))[0]? :=
    congrArg (fun d => d.bytes[0]?) h
  rw [List.getElem?_replicate, List.getElem?_replicate, if_pos (by decide)] at hb
  cases hb

/-- A log of two entries: the first has a wrong checksum, the second writes ones to page 1. -/
def staleLog : ByteFile := u32Bytes 0 ++ (u32Bytes 1 ++ PageData.zero.bytes) ++ walEntry 1 onesPage

/-- **An entry behind the invalid one is replayed**: after one header write and a drop, page 1 of
    the reopened database holds the discarded ones, not the zeros of the main file. -/
theorem stale_entry_replayed : ∃ db t,
    DatabaseFile.openInner .id ⟨PAGE_SIZE⟩ ⟨twoPages, encodeEntries [] ++ staleLog⟩ = .ok db ∧
    (Trace.first db []).run [.writeHeader FileHeader.new, .reopen .id ⟨PAGE_SIZE⟩] = some t ∧
    (t.db.readPage 1).1 = .ok onesPage ∧
    ¬ StaysDiscarded twoPages [] db [.writeHeader FileHeader.new, .reopen .id ⟨PAGE_SIZE⟩] t := by
  have hrest : decodeEntry staleLog = none := by
    have hz : PageData.zero.bytes = List.replicate PAGE_SIZE 0 := rfl
    rw [staleLog, decodeEntry_fields, hz, checksum_zeros, if_pos (by decide)]
  obtain ⟨db, hopen, _⟩ := @openInner_ok [] staleLog hrest .id ⟨PAGE_SIZE⟩ twoPages _ _
    mainPages_twoPages.1 (FileHeader.deserialize_serialize rfl)
  obtain ⟨wal, hb, hsh, _, _⟩ := openInner_spec hrest hopen
  -- the header write fills the slot of the invalid entry
  have hw := hsh.writePage 0 FileHeader.new.serialize
  have hfile : (wal.write 0 FileHeader.new.serialize).file =
      encodeEntries [(0, FileHeader.new.serialize), (1, onesPage)] ++ [] := by
    have hlen : (u32Bytes 0 ++ (u32Bytes 1 ++ PageData.zero.bytes)).length = WAL_ENTRY_SIZE := by
      simp only [List.length_append, length_u32Bytes, PageData.size_eq]; rfl
    rw [hw.log.file, if_pos rfl, staleLog, List.drop_left' hlen]
    simp only [List.nil_append, encodeEntries_cons, encodeEntries_nil, List.append_nil]
  have hbuf : mainPages (replay [(0, FileHeader.new.serialize), (1, onesPage)] twoPages) 0 =
      some FileHeader.new.serialize := mainPages_replay rfl
  obtain ⟨db₂, hopen₂, _⟩ := openInner_ok decodeEntry_nil .id ⟨PAGE_SIZE⟩ hbuf
    (FileHeader.deserialize_serialize rfl)
  obtain ⟨wal₂, hb₂, hsh₂, _, _⟩ := openInner_spec decodeEntry_nil hopen₂
  have hones : mainPages (replay [(0, FileHeader.new.serialize), (1, onesPage)] twoPages) 1 =
      some onesPage := mainPages_replay rfl
  have hread : (db₂.readPage 1).1 = .ok onesPage := by
    obtain ⟨cache', hr, _⟩ := hsh₂.readPage 1
    unfold DatabaseFile.readPage
    rw [hb₂, hr, overlay_nil, hones]
  rw [← hfile] at hopen₂
  have hstep : (Trace.first db []).step (.writeHeader FileHeader.new) = some
      { db := { db with header := FileHeader.new }.writeHeader.2
        writes := [(0, FileHeader.new.serialize)], pending := [(0, FileHeader.new.serialize)]
        cleared := false } := rfl
  have hdisk : { db with header := FileHeader.new }.writeHeader.2.disk =
      some ⟨twoPages, (wal.write 0 FileHeader.new.serialize).file⟩ := by
    unfold DatabaseFile.writeHeader DatabaseFile.writePage DatabaseFile.disk
    dsimp only
    rw [hb]
    rfl
  refine ⟨db, { db := db₂, writes := [(0, FileHeader.new.serialize)], pending := [], cleared := true },
    hopen, ?_, hread, ?_⟩
  · have hreopen : { db with header := FileHeader.new }.writeHeader.2.step
        (.reopen .id ⟨PAGE_SIZE⟩) = some (.opened true, db₂) := by
      simp only [DatabaseFile.step, hdisk, hopen₂]
    rw [Trace.run_cons hstep, Trace.run_cons (Trace.step_reopen hreopen)]
    rfl
  · rintro ⟨_, hshow⟩
    have hz := hshow 1 .zero (by
      rw [overlay, latest_eq_none_iff.2 (by simp), Option.none_or, overlay_nil]
      exact mainPages_twoPages.2)
    rw [hread] at hz
    injection hz with hz
    exact zero_ne_onesPage hz.symm

end ChiffonDB
