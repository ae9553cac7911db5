import ChiffonDB.Storage.FileRun

/-!
# A crash in the middle of a flush

Runs of calls and rollbacks, and the files a crash leaves at any point of `flush` before the log is
truncated: `j` of the missing pages appended, the first `m` visited pages copied.

* `Whole` — the main file ends on a page boundary below page 2^32, and every page below the count
  that it does not reach is in the log.
* `SessionInv.step` — every call and every rollback keeps it.
* `replay_crashMain` — **replaying the log over any partly flushed file gives the completed flush.**
* `flushCrash_recovers` — hence a crash in the middle of a flush is recoverable, in every run that
  never writes to page number `0xFFFFFFFF`.
-/

set_option autoImplicit false

namespace ChiffonDB

open Bytes ByteFile Journal

/-! ## Runs with rollbacks -/

/-- A call, or one of the snapshot operations; a transaction keeps its snapshot until it ends. -/
inductive TxOp where
  | call (op : FileOp)
  | snapshot
  | rollback
  /-- Forget the newest snapshot (its transaction succeeded). -/
  | release

structure Session where
  db : DatabaseFile
  /-- The outstanding snapshots, the newest first. -/
  snaps : List FileSnapshot

/-- A transaction ends before the flush that commits it, and before the database is dropped. -/
def FileOp.EndsTransactions : FileOp → Bool
  | .flush _ => true
  | .reopen _ _ => true
  | _ => false

namespace Session

/-- One step; `none` on a panic, on an open that fails, and without a snapshot to take back. -/
def step (s : Session) : TxOp → Option Session
  | .call op =>
    match s.db.step op with
    | none => none
    | some (.opened false, _) => none
    | some (_, db) => some ⟨db, if op.EndsTransactions then [] else s.snaps⟩
  | .snapshot => some ⟨s.db, s.db.snapshot :: s.snaps⟩
  | .rollback =>
    match s.snaps with
    | [] => none
    | snap :: snaps => some ⟨s.db.restore snap, snaps⟩
  | .release =>
    match s.snaps with
    | [] => none
    | _ :: snaps => some ⟨s.db, snaps⟩

def run (s : Session) : List TxOp → Option Session
  | [] => some s
  | op :: ops => (s.step op).bind (fun s => run s ops)

theorem run_cons {s s' : Session} {op : TxOp} (h : s.step op = some s') (ops : List TxOp) :
    s.run (op :: ops) = s'.run ops := by
  rw [run, h, Option.bind_some]

end Session

/-- No write to page `0xFFFFFFFF`, the one page number no page can have. -/
def TxOp.BelowMaxPage : TxOp → Prop
  | .call (.write p _) => p.toNat + 1 < UInt32.size
  | _ => True

/-! ## The invariant -/

/-- The main file is whole pages, and the log has the pages it does not reach. -/
structure Whole (main : ByteFile) (es : List WalEntry) (count : UInt32) : Prop where
  whole : PAGE_SIZE ∣ main.length
  small : main.length < UInt32.size * PAGE_SIZE
  ids : ∀ e ∈ es, e.1.toNat + 1 < UInt32.size
  cover : ∀ p : UInt32, main.length ≤ p.toNat * PAGE_SIZE → p < count → (latest es p).isSome

namespace Whole

variable {main : ByteFile} {es : List WalEntry} {count : UInt32}

theorem write (h : Whole main es count) {p : UInt32} (hp : p.toNat + 1 < UInt32.size) (d : PageData) :
    Whole main (es ++ [(p, d)]) count where
  whole := h.whole
  small := h.small
  ids e he := by
    rcases List.mem_append.1 he with he | he
    · exact h.ids e he
    · rw [List.mem_singleton.1 he]; exact hp
  cover q hq hc := by
    rw [latest_concat]
    split
    · rfl
    · exact h.cover q hq hc

theorem append (h : Whole main es count) (hc : count.toNat + 1 < UInt32.size) (d : PageData) :
    Whole main (es ++ [(count, d)]) (count + 1) where
  whole := h.whole
  small := h.small
  ids := (h.write hc d).ids
  cover q hq hlt := by
    rw [latest_concat]
    split
    · rfl
    · rename_i hne
      apply h.cover q hq
      have hsucc : (count + 1).toNat = count.toNat + 1 := by
        rw [UInt32.toNat_add]; exact Nat.mod_eq_of_lt hc
      rw [UInt32.lt_iff_toNat_lt, hsucc] at hlt
      rw [UInt32.lt_iff_toNat_lt]
      have : count.toNat ≠ q.toNat := fun he => hne (UInt32.toNat_inj.1 he)
      omega

/-- How far the pre-allocation of `flush` brings the main file. -/
theorem missing (h : Whole main es count) :
    main.length + StorageBackend.missingPages main count * PAGE_SIZE =
      max main.length (count.toNat * PAGE_SIZE) := by
  obtain ⟨k, hk⟩ := h.whole
  have hsmall := h.small
  have hkl : k < UInt32.size := by
    rw [hk, Nat.mul_comm] at hsmall
    exact Nat.lt_of_mul_lt_mul_right hsmall
  have hdiv : main.length / PAGE_SIZE = k := by rw [hk, Nat.mul_div_cancel_left k (by decide)]
  have hto : (UInt32.ofNat k).toNat = k := by
    rw [UInt32.toNat_ofNat']; exact Nat.mod_eq_of_lt hkl
  unfold StorageBackend.missingPages
  simp only [hdiv]
  split
  · rename_i hgt
    have hgt' := UInt32.lt_iff_toNat_lt.1 hgt
    rw [hto] at hgt' ⊢
    rw [hk]
    unfold PAGE_SIZE
    omega
  · rename_i hle
    have hle' := UInt32.lt_iff_toNat_lt.not.1 hle
    rw [hto] at hle'
    rw [hk]
    unfold PAGE_SIZE
    omega

theorem dvd_replay (h : PAGE_SIZE ∣ main.length) (es : List WalEntry) :
    PAGE_SIZE ∣ (replay es main).length := by
  induction es using List.reverseRecOn with
  | nil => exact h
  | append_singleton es e ih =>
    rw [replay_append]
    show PAGE_SIZE ∣ (writeMain (replay es main) e.1 e.2).length
    rw [writeMain, length_writeAll, e.2.size_eq]
    rcases Nat.le_total (replay es main).length (e.1.toNat * PAGE_SIZE + PAGE_SIZE) with hl | hl
    · rw [Nat.max_eq_right hl]
      exact ⟨e.1.toNat + 1, by rw [Nat.mul_add, Nat.mul_one, Nat.mul_comm]⟩
    · rw [Nat.max_eq_left hl]
      exact ih

theorem replay_small (h : Whole main es count) {n : Nat}
    (hn : main.length + n < UInt32.size * PAGE_SIZE) :
    (replay es (main ++ List.replicate n 0)).length < UInt32.size * PAGE_SIZE := by
  have hle : (replay es (main ++ List.replicate n 0)).length ≤ UInt32.size * PAGE_SIZE - 1 := by
    rw [length_replay_le, List.length_append, List.length_replicate]
    refine ⟨by omega, fun e he => ?_⟩
    have hid := h.ids e he
    unfold UInt32.size PAGE_SIZE at *
    omega
  have : 0 < UInt32.size * PAGE_SIZE := by decide
  omega

/-- A main file that already reaches `count` pages. -/
theorem of_le {main : ByteFile} {count : UInt32} (hd : PAGE_SIZE ∣ main.length)
    (hs : main.length < UInt32.size * PAGE_SIZE) (hc : count.toNat * PAGE_SIZE ≤ main.length) :
    Whole main [] count where
  whole := hd
  small := hs
  ids := by simp
  cover p hp hlt := by
    have := UInt32.lt_iff_toNat_lt.1 hlt
    unfold PAGE_SIZE at *
    omega

theorem flushed (h : Whole main es count) : Whole (flushedMain main es count) [] count := by
  have hm := h.missing
  have hcount := count.toNat_lt
  have hsmall := h.small
  unfold flushedMain
  rw [extendMain_eq]
  apply of_le
  · apply dvd_replay
    rw [List.length_append, List.length_replicate]
    exact (Nat.dvd_add_right h.whole).2 ⟨_, Nat.mul_comm _ _⟩
  · apply h.replay_small
    rw [hm]
    unfold UInt32.size PAGE_SIZE at *
    omega
  · have hlen := (length_replay_le es _ _).1
      (Nat.le_refl (replay es (main ++ List.replicate
        (StorageBackend.missingPages main count * PAGE_SIZE) 0)).length)
    have h1 := hlen.1
    rw [List.length_append, List.length_replicate, hm] at h1
    exact Nat.le_trans (Nat.le_max_right ..) h1

theorem recovered (h : Whole main es count) :
    Whole (replay es main) [] (UInt32.ofNat ((replay es main).length / PAGE_SIZE)) := by
  have hs := h.replay_small (n := 0) (by have := h.small; omega)
  rw [List.replicate_zero, List.append_nil] at hs
  apply of_le (dvd_replay h.whole es) hs
  rw [UInt32.toNat_ofNat']
  exact Nat.le_trans (Nat.mul_le_mul_right _ (Nat.mod_le ..)) (Nat.div_mul_le_self ..)

end Whole

/-- Each outstanding snapshot was taken when the log was a prefix of what the next newer one saw. -/
def SnapsOk (main : ByteFile) : List WalEntry → List FileSnapshot → Prop
  | _, [] => True
  | es, snap :: snaps => ∃ es₀ fs, es = es₀ ++ fs ∧ snap.walLen = es₀.length * WAL_ENTRY_SIZE ∧
      Whole main es₀ snap.logicalPageCount ∧ SnapsOk main es₀ snaps

theorem SnapsOk.append {main : ByteFile} {es : List WalEntry} {snaps : List FileSnapshot}
    (h : SnapsOk main es snaps) (gs : List WalEntry) : SnapsOk main (es ++ gs) snaps := by
  cases snaps with
  | nil => trivial
  | cons snap snaps =>
    obtain ⟨es₀, fs, rfl, hrest⟩ := h
    exact ⟨es₀, fs ++ gs, List.append_assoc .., hrest⟩

structure SessionInv (s : Session) (main : ByteFile) (wal : WalFile) (cache : PageCache)
    (es : List WalEntry) : Prop where
  backend : s.db.backend = .file main wal cache
  layers : FileShows main wal cache es []
  whole : Whole main es s.db.logicalPageCount
  snaps : SnapsOk main es s.snaps

def Session.Ok (s : Session) : Prop := ∃ main wal cache es, SessionInv s main wal cache es

theorem SessionInv.logged {s : Session} {main : ByteFile} {wal : WalFile} {cache : PageCache}
    {es : List WalEntry} (h : SessionInv s main wal cache es) {p : UInt32}
    (d : PageData) (hdr : FileHeader) {cnt : UInt32} (hw : Whole main (es ++ [(p, d)]) cnt) :
    Session.Ok ⟨⟨.file main (wal.write p d) (cache.put p d false).2, hdr, cnt⟩, s.snaps⟩ :=
  ⟨main, _, _, _, rfl, h.layers.writePage p d, hw, h.snaps.append _⟩

/-- **Every call and every rollback keeps the invariant.** -/
theorem Session.Ok.step {s s' : Session} {op : TxOp} (h : s.Ok) (hop : op.BelowMaxPage)
    (hs : s.step op = some s') : s'.Ok := by
  obtain ⟨main, wal, cache, es, hi⟩ := h
  obtain ⟨⟨b, hdr, cnt⟩, snaps⟩ := s
  obtain rfl : b = .file main wal cache := hi.backend
  have hwhole : Whole main es cnt := hi.whole
  cases op with
  | snapshot =>
    cases hs
    refine ⟨main, wal, cache, es, rfl, hi.layers, hi.whole, es, [], (List.append_nil es).symm, ?_,
      hi.whole, hi.snaps⟩
    exact hi.layers.log.len
  | release =>
    cases snaps with
    | nil => cases hs
    | cons snap snaps =>
      cases hs
      obtain ⟨es₀, fs, hes, _, _, hrest⟩ := hi.snaps
      refine ⟨main, wal, cache, es, rfl, hi.layers, hi.whole, ?_⟩
      rw [hes]
      exact hrest.append fs
  | rollback =>
    cases snaps with
    | nil => cases hs
    | cons snap snaps =>
      cases hs
      obtain ⟨es₀, fs, rfl, hlen, hw, hrest⟩ := hi.snaps
      refine ⟨main, wal.truncateTo snap.walLen, cache.clear, es₀, rfl, ?_, hw, hrest⟩
      rw [hlen]
      exact hi.layers.restore
  | call op =>
    cases op with
    | append d =>
      unfold Session.step DatabaseFile.step DatabaseFile.appendPage at hs
      dsimp only at hs
      by_cases hc : cnt.toNat + 1 < UInt32.size
      · rw [if_pos hc] at hs
        cases hs
        exact hi.logged d hdr (hwhole.append hc d)
      · rw [if_neg hc] at hs
        cases hs
    | write p d =>
      cases hs
      exact hi.logged d hdr (hwhole.write hop d)
    | writeHeader hd =>
      cases hs
      exact hi.logged hd.serialize hd (hwhole.write (by decide) hd.serialize)
    | read p =>
      obtain ⟨cache', hr, h'⟩ := hi.layers.readPage p
      have hinv : SessionInv ⟨(DatabaseFile.readPage ⟨.file main wal cache, hdr, cnt⟩ p).2, snaps⟩
          main wal cache' es := by
        unfold DatabaseFile.readPage
        rw [hr]
        exact ⟨rfl, h', hwhole, hi.snaps⟩
      cases hs
      exact ⟨_, _, _, _, hinv⟩
    | flush order =>
      have hdb : ∃ main' wal' cache' es', SessionInv
          ⟨(DatabaseFile.flush ⟨.file main wal cache, hdr, cnt⟩ order).2, []⟩ main' wal' cache' es' := by
        unfold DatabaseFile.flush
        by_cases hes : es = []
        · subst hes
          dsimp only
          rw [hi.layers.flush_nil order cnt]
          exact ⟨main, wal, cache, [], rfl, hi.layers, hwhole, trivial⟩
        · obtain ⟨hr, h'⟩ := hi.layers.flush hes order cnt
          dsimp only
          rw [hr]
          exact ⟨_, _, cache, [], rfl, h', hwhole.flushed, trivial⟩
      cases hs
      exact hdb
    | reopen order opts =>
      unfold Session.step DatabaseFile.step DatabaseFile.disk at hs
      dsimp only at hs
      rw [hi.layers.log.file] at hs
      cases hopen : DatabaseFile.openInner order opts ⟨main, encodeEntries es ++ []⟩ with
      | error e => rw [hopen] at hs; cases hs
      | ok db' =>
        rw [hopen] at hs
        cases hs
        obtain ⟨wal', hb, hsh, hcnt, _⟩ := openInner_spec decodeEntry_nil hopen
        have hrest : (if es = [] then ([] : List UInt8) else []) = [] := by split <;> rfl
        rw [hrest] at hsh
        refine ⟨_, wal', _, [], hb, hsh, ?_, trivial⟩
        show Whole _ [] db'.logicalPageCount
        rw [hcnt]
        exact hwhole.recovered

theorem Session.Ok.run {s s' : Session} {ops : List TxOp} (h : s.Ok)
    (hops : ∀ op ∈ ops, op.BelowMaxPage) (hrun : s.run ops = some s') : s'.Ok := by
  induction ops generalizing s with
  | nil => cases hrun; exact h
  | cons op ops ih =>
    obtain ⟨s₁, hs, hrun'⟩ := Option.bind_eq_some_iff.1 hrun
    exact ih (h.step (hops op List.mem_cons_self) hs)
      (fun o ho => hops o (List.mem_cons_of_mem _ ho)) hrun'

/-- A new database. -/
def Session.create (opts : OpenOptions) : Session := ⟨DatabaseFile.create [] opts, []⟩

theorem Session.Ok.create (opts : OpenOptions) : (Session.create opts).Ok := by
  have hlen : FileHeader.new.serialize.bytes.length = PAGE_SIZE := FileHeader.new.serialize.size_eq
  refine ⟨_, _, _, [], rfl, FileShows.opened (Holds.openWal [] decodeEntry_nil) opts, ?_,
    trivial⟩
  apply Whole.of_le
  · rw [hlen]
  · rw [hlen]; decide
  · rw [hlen]
    exact Nat.le_of_eq (Nat.one_mul _)

/-! ## The crash -/

/-- The main file of a flush cut off after `j` new pages and `m` copied entries. -/
def WalFile.crashMain (wal : WalFile) (order : HashOrder) (main : ByteFile) (j m : Nat) : ByteFile :=
  (wal.copyEntries ((order.visit wal.offsets.entries).take m) (StorageBackend.extendMain j main)).2

/-- The files on disk when `flush` is cut off before it truncates the log. -/
inductive FlushCrash (main : ByteFile) (wal : WalFile) (count : UInt32) : Disk → Prop where
  /-- While the new pages are appended. -/
  | extending (hne : wal.isEmpty = false) {j : Nat} (hj : j ≤ StorageBackend.missingPages main count) :
      FlushCrash main wal count ⟨StorageBackend.extendMain j main, wal.file⟩
  /-- While the indexed pages are copied. -/
  | copying (hne : wal.isEmpty = false) (order : HashOrder) (m : Nat) :
      FlushCrash main wal count
        ⟨wal.crashMain order main (StorageBackend.missingPages main count) m, wal.file⟩

/-- **A crash in the middle of `flush` is recoverable.** -/
structure FlushCrashRecovers (db : DatabaseFile) : Prop where
  /-- Reopening ends as it does when the flush completed: same pages, header and page count. -/
  completed : ∀ {main wal cache}, db.backend = .file main wal cache → ∀ {disk},
    FlushCrash main wal db.logicalPageCount disk → ∀ order, ∃ done,
      (db.flush order).1 = .ok () ∧ (db.flush order).2.disk = some done ∧ ∀ order' opts,
        DatabaseFile.openInner order' opts disk = DatabaseFile.openInner order' opts done
  /-- Every page reads at its latest entry, or as it was in the main file. -/
  pages : ∀ {main wal cache}, db.backend = .file main wal cache → ∀ {disk},
    FlushCrash main wal db.logicalPageCount disk → ∀ {order opts db'},
      DatabaseFile.openInner order opts disk = .ok db' → ∀ {p d},
        StorageBackend.readThrough main wal p = .ok d → (db'.readPage p).1 = .ok d
  /-- The header is the one on page 0. -/
  header : ∀ {main wal cache}, db.backend = .file main wal cache → ∀ {disk},
    FlushCrash main wal db.logicalPageCount disk → ∀ {buf hdr},
      StorageBackend.readThrough main wal 0 = .ok buf → FileHeader.deserialize buf = .ok hdr →
        ∀ order opts, ∃ db', DatabaseFile.openInner order opts disk = .ok db' ∧ db'.header = hdr

namespace Whole

variable {main : ByteFile} {es : List WalEntry} {count : UInt32}

/-- The main file and the log together reach `count` pages. -/
theorem count_le (h : Whole main es count) {n : Nat} (hm : main.length ≤ n)
    (hn : ∀ e ∈ es, e.1.toNat * PAGE_SIZE + PAGE_SIZE ≤ n) : count.toNat * PAGE_SIZE ≤ n := by
  by_cases hc : count.toNat * PAGE_SIZE ≤ main.length
  · omega
  obtain ⟨k, hk⟩ := h.whole
  have hlt := count.toNat_lt
  have hto : (UInt32.ofNat (count.toNat - 1)).toNat = count.toNat - 1 := by
    rw [UInt32.toNat_ofNat', Nat.mod_eq_of_lt]
    omega
  have hlast := h.cover (UInt32.ofNat (count.toNat - 1))
    (by rw [hto, hk]; unfold PAGE_SIZE at *; omega)
    (by rw [UInt32.lt_iff_toNat_lt, hto]; unfold PAGE_SIZE at *; omega)
  obtain ⟨e, he, hid⟩ := latest_isSome_iff.1 hlast
  have hle := hn e he
  rw [hid, hto, ← Nat.succ_mul, Nat.succ_eq_add_one] at hle
  have hpos : count.toNat - 1 + 1 = count.toNat := by unfold PAGE_SIZE at hc; omega
  rwa [hpos] at hle

/-- **How far the extension came makes no difference once the log is replayed.** -/
theorem replay_extend (h : Whole main es count) {j : Nat}
    (hj : j ≤ StorageBackend.missingPages main count) :
    replay es (StorageBackend.extendMain j main) = flushedMain main es count := by
  have hm := h.missing
  have hjm := Nat.mul_le_mul_right PAGE_SIZE hj
  unfold flushedMain
  rw [extendMain_eq, extendMain_eq]
  refine replay_ext ?_ (fun p => by rw [block_append_zeros, block_append_zeros]) (fun _ => rfl)
  apply Nat.le_antisymm
  · have hle := (length_replay_le es (main ++ List.replicate
      (StorageBackend.missingPages main count * PAGE_SIZE) 0) _).1 (Nat.le_refl _)
    have hlen := hle.1
    rw [List.length_append, List.length_replicate] at hlen
    refine (length_replay_le ..).2 ⟨?_, hle.2⟩
    rw [List.length_append, List.length_replicate]
    omega
  · have hle := (length_replay_le es (main ++ List.replicate (j * PAGE_SIZE) 0) _).1 (Nat.le_refl _)
    have hlen := hle.1
    rw [List.length_append] at hlen
    have hmain := Nat.le_trans (Nat.le_add_right ..) hlen
    refine (length_replay_le ..).2 ⟨?_, hle.2⟩
    rw [List.length_append, List.length_replicate, hm]
    exact Nat.max_le.2 ⟨hmain, h.count_le hmain hle.2⟩

end Whole

/-- **Replaying the log over a partly copied file gives the file a full copy gives.** -/
theorem Holds.replay_copied {wal : WalFile} {es : List WalEntry} {rest : List UInt8}
    (h : Holds wal es rest) (order : HashOrder) (main : ByteFile) (m : Nat) :
    replay es (wal.copyEntries ((order.visit wal.offsets.entries).take m) main).2 =
      replay es main := by
  have hmem : ∀ s ∈ (order.visit wal.offsets.entries).take m, s ∈ wal.offsets.entries :=
    fun s hs => (order.perm _).mem_iff.1 (List.mem_of_mem_take hs)
  rw [h.copyEntries (fun s hs => AList.mem_lookup_iff.2 (hmem s hs)), ← replay_append]
  apply replay_congr
  intro p
  rw [latest_append, latest_visited (fun s hs => (h.mem_entries s.1).1 ⟨s, hmem s hs, rfl⟩)]
  split <;> simp

theorem replay_crash {main : ByteFile} {wal : WalFile} {es : List WalEntry} {count : UInt32}
    {disk : Disk} (hlog : Holds wal es []) (hw : Whole main es count)
    (h : FlushCrash main wal count disk) :
    disk.wal = encodeEntries es ∧ es ≠ [] ∧ replay es disk.main = flushedMain main es count := by
  have hfile : wal.file = encodeEntries es := by rw [hlog.file, List.append_nil]
  have hne : wal.isEmpty = false → es ≠ [] := by
    intro he hnil
    rw [hlog.isEmpty.2 hnil] at he
    cases he
  cases h with
  | extending he hj => exact ⟨hfile, hne he, hw.replay_extend hj⟩
  | copying he order m =>
    refine ⟨hfile, hne he, ?_⟩
    rw [← hw.replay_extend (Nat.le_refl _)]
    exact hlog.replay_copied order _ m

/-- An open depends on the log only through the file it replays to. -/
theorem openInner_of_replay {es : List WalEntry} (hes : es ≠ []) (order : HashOrder)
    (opts : OpenOptions) (main : ByteFile) :
    DatabaseFile.openInner order opts ⟨main, encodeEntries es⟩ =
      DatabaseFile.openInner order opts ⟨replay es main, []⟩ := by
  have hopen := Holds.openWal es decodeEntry_nil
  rw [List.append_nil] at hopen
  have hrec : DatabaseFile.recoverWal order ⟨main, encodeEntries es⟩ =
      .ok ({ file := [], offsets := ∅, len := 0 }, replay es main) := by
    unfold DatabaseFile.recoverWal
    dsimp only
    rw [if_neg (fun he => hes (hopen.isEmpty.1 he)), hopen.checkpoint order]
  have hempty : Holds (WalFile.openWal []) [] [] := Holds.openWal [] decodeEntry_nil
  have hrec' : DatabaseFile.recoverWal order ⟨replay es main, []⟩ =
      .ok (WalFile.openWal [], replay es main) := by
    unfold DatabaseFile.recoverWal
    dsimp only
    rw [if_pos (hempty.isEmpty.2 rfl)]
  have hwal : WalFile.openWal [] = { file := [], offsets := ∅, len := 0 } :=
    loadIndex_spec [] [] decodeEntry_nil
  unfold DatabaseFile.openInner
  rw [hrec, hrec', hwal]

theorem Session.Ok.recovers {s : Session} (h : s.Ok) : FlushCrashRecovers s.db := by
  obtain ⟨main, wal, cache, es, hi⟩ := h
  obtain ⟨⟨b, hdr, cnt⟩, snaps⟩ := s
  obtain rfl : b = .file main wal cache := hi.backend
  have hw : Whole main es cnt := hi.whole
  -- the files of the invariant are those of the crash
  have hcrash : ∀ {main' wal' cache' disk}, StorageBackend.file main wal cache = .file main' wal' cache' →
      FlushCrash main' wal' cnt disk → main' = main ∧ wal' = wal ∧ disk.wal = encodeEntries es ∧
        es ≠ [] ∧ replay es disk.main = flushedMain main es cnt := by
    intro main' wal' cache' disk hb hc
    cases hb
    exact ⟨rfl, rfl, replay_crash hi.layers.log hw hc⟩
  refine ⟨?_, ?_, ?_⟩
  · intro main' wal' cache' hb disk hc order
    obtain ⟨-, -, hwal, hes, hrep⟩ := hcrash hb hc
    obtain ⟨hflush, -⟩ := hi.layers.flush hes order cnt
    refine ⟨⟨flushedMain main es cnt, []⟩, ?_, ?_, fun order' opts => ?_⟩
    · unfold DatabaseFile.flush
      dsimp only
      rw [hflush]
    · unfold DatabaseFile.flush DatabaseFile.disk
      dsimp only
      rw [hflush]
    · obtain ⟨dmain, dwal⟩ := disk
      obtain rfl : dwal = encodeEntries es := hwal
      rw [openInner_of_replay hes, hrep]
  · intro main' wal' cache' hb disk hc order opts db' hopen p d hread
    obtain ⟨rfl, rfl, hwal, hes, hrep⟩ := hcrash hb hc
    obtain ⟨dmain, dwal⟩ := disk
    obtain rfl : dwal = encodeEntries es := hwal
    rw [← List.append_nil (encodeEntries es)] at hopen
    obtain ⟨wal₂, hb₂, hsh, -, -⟩ := openInner_spec decodeEntry_nil hopen
    rw [hi.layers.readThrough p] at hread
    have hp : overlay [] (mainPages (replay es dmain)) p = some d := by
      rw [overlay_nil, hrep]
      apply mainPages_flushed
      cases ho : overlay es (mainPages main') p with
      | none => rw [ho] at hread; cases hread
      | some d' => rw [ho] at hread; cases hread; rfl
    obtain ⟨b₂, hdr₂, cnt₂⟩ := db'
    obtain rfl : b₂ = _ := hb₂
    obtain ⟨cache₂, hr, -⟩ := hsh.readPage p
    unfold DatabaseFile.readPage
    rw [hr, hp]
  · intro main' wal' cache' hb disk hc buf hdr' hread hdes order opts
    obtain ⟨rfl, rfl, hwal, hes, hrep⟩ := hcrash hb hc
    obtain ⟨dmain, dwal⟩ := disk
    obtain rfl : dwal = encodeEntries es := hwal
    rw [hi.layers.readThrough 0] at hread
    have hbuf : mainPages (replay es dmain) 0 = some buf := by
      rw [hrep]
      apply mainPages_flushed
      cases ho : overlay es (mainPages main') 0 with
      | none => rw [ho] at hread; cases hread
      | some d' => rw [ho] at hread; cases hread; rfl
    have := @openInner_ok es [] decodeEntry_nil order opts dmain buf hdr' hbuf hdes
    rwa [List.append_nil] at this

/-- **A crash in the middle of a flush is recoverable in every state reached by calls and rollbacks
    that never write to page `0xFFFFFFFF`.** -/
theorem flushCrash_recovers (opts : OpenOptions) {ops : List TxOp} {s : Session}
    (hops : ∀ op ∈ ops, op.BelowMaxPage) (hrun : (Session.create opts).run ops = some s) :
    FlushCrashRecovers s.db :=
  ((Session.Ok.create opts).run hops hrun).recovers

/-- A page appended and overwritten, a rollback, and a flush. -/
theorem flushCrash_recovers_append_write : ∃ s, (Session.create ⟨PAGE_SIZE⟩).run
    [.call (.append .zero), .snapshot, .call (.write 1 .zero), .rollback] = some s ∧
      FlushCrashRecovers s.db := by
  have hops : ∀ op ∈ [TxOp.call (.append .zero), .snapshot, .call (.write 1 .zero), .rollback],
      op.BelowMaxPage := by
    simp [TxOp.BelowMaxPage]
    decide
  exact ⟨_, rfl, flushCrash_recovers ⟨PAGE_SIZE⟩ hops rfl⟩

/-- A main file of 2^32 pages counts as empty: a flush then extends it without need, and how far
    it came shows in the page count. -/
theorem not_recovers_of_full {main : ByteFile} {wal : WalFile} {cache : PageCache}
    {es : List WalEntry} (hdr : FileHeader) {buf : PageData} {h₀ : FileHeader}
    (h : FileShows main wal cache es []) (hes : es ≠ [])
    (hlen : main.length = UInt32.size * PAGE_SIZE) (hbuf : overlay es (mainPages main) 0 = some buf)
    (hdes : FileHeader.deserialize buf = .ok h₀) :
    ¬ FlushCrashRecovers ⟨.file main wal cache, hdr, 2⟩ := by
  intro hrec
  have hne : wal.isEmpty = false := by
    rw [Bool.eq_false_iff]
    exact fun he => hes (h.log.isEmpty.1 he)
  have hids : ∀ e ∈ es, e.1.toNat * PAGE_SIZE + PAGE_SIZE ≤ UInt32.size * PAGE_SIZE := by
    intro e _
    have := e.1.toNat_lt
    unfold UInt32.size PAGE_SIZE
    omega
  have hmiss : StorageBackend.missingPages main 2 = 2 := by
    unfold StorageBackend.missingPages
    rw [hlen, Nat.mul_div_cancel _ (by decide)]
    decide
  -- the file `j` appended pages leave, once the log is replayed
  have hreplay : ∀ j, (replay es (StorageBackend.extendMain j main)).length =
      (UInt32.size + j) * PAGE_SIZE := by
    intro j
    have hle := (length_replay_le es (StorageBackend.extendMain j main) _).1 (Nat.le_refl _)
    have hext : (StorageBackend.extendMain j main).length = (UInt32.size + j) * PAGE_SIZE := by
      rw [extendMain_eq, List.length_append, List.length_replicate, hlen, Nat.add_mul]
    apply Nat.le_antisymm
    · rw [length_replay_le, hext]
      refine ⟨Nat.le_refl _, fun e he => Nat.le_trans (hids e he) ?_⟩
      exact Nat.mul_le_mul_right _ (Nat.le_add_right ..)
    · rw [← hext]; exact hle.1
  have hopen : ∀ j, ∃ db, DatabaseFile.openInner .id ⟨0⟩
      ⟨StorageBackend.extendMain j main, encodeEntries es⟩ = .ok db ∧
        db.logicalPageCount = UInt32.ofNat (UInt32.size + j) := by
    intro j
    have hp : mainPages (replay es (StorageBackend.extendMain j main)) 0 = some buf := by
      rw [extendMain_eq]
      exact mainPages_replay (overlay_extend _ hbuf)
    obtain ⟨db, hdb, -⟩ := openInner_ok decodeEntry_nil .id ⟨0⟩ hp hdes
    obtain ⟨-, -, -, hcnt, -⟩ := openInner_spec decodeEntry_nil hdb
    rw [List.append_nil] at hdb
    refine ⟨db, hdb, ?_⟩
    rw [hcnt, hreplay, Nat.mul_div_cancel _ (by decide)]
  have hcrash : ∀ j, j ≤ 2 → FlushCrash main wal 2 ⟨StorageBackend.extendMain j main, wal.file⟩ :=
    fun j hj => .extending hne (by rw [hmiss]; exact hj)
  obtain ⟨done, -, hdone, hsame⟩ := hrec.completed rfl (hcrash 1 (by decide)) .id
  obtain ⟨done', -, hdone', hsame'⟩ := hrec.completed rfl (hcrash 2 (by decide)) .id
  rw [hdone] at hdone'
  cases hdone'
  obtain ⟨db₁, h₁, hc₁⟩ := hopen 1
  obtain ⟨db₂, h₂, hc₂⟩ := hopen 2
  have heq := (hsame .id ⟨0⟩).trans (hsame' .id ⟨0⟩).symm
  rw [h.log.file, List.append_nil, h₁, h₂] at heq
  injection heq with heq
  rw [heq, hc₂] at hc₁
  exact absurd hc₁ (by decide)

/-- **A write to page `0xFFFFFFFF` breaks recovery**: after a flush the main file has 2^32 pages,
    and a crash in the next flush leaves one page too few. -/
theorem flush_crash_loses_page : ∃ s, (Session.create ⟨PAGE_SIZE⟩).run
    [.call (.write 0xFFFFFFFF .zero), .call (.flush .id), .call (.append .zero)] = some s ∧
      ¬ FlushCrashRecovers s.db := by
  have hopen : Holds (WalFile.openWal []) [] [] := Holds.openWal [] decodeEntry_nil
  have hnew : FileShows FileHeader.new.serialize.bytes (WalFile.openWal []) _ [] [] :=
    FileShows.opened hopen ⟨PAGE_SIZE⟩
  have hw := hnew.writePage 0xFFFFFFFF .zero
  rw [List.nil_append] at hw
  obtain ⟨hflush, hf⟩ := hw.flush (List.cons_ne_nil _ _) .id 1
  have ha := hf.writePage 1 .zero
  -- the three steps
  generalize hcache : ((PageCache.new (OpenOptions.cacheCapacity ⟨PAGE_SIZE⟩)).put 0xFFFFFFFF
    PageData.zero false).2 = cache at *
  generalize hwal : (WalFile.openWal []).write 0xFFFFFFFF PageData.zero = wal at *
  have h₁ : (Session.create ⟨PAGE_SIZE⟩).step (.call (.write 0xFFFFFFFF .zero)) =
      some ⟨⟨.file FileHeader.new.serialize.bytes wal cache, FileHeader.new, 1⟩, []⟩ := by
    rw [← hcache, ← hwal]
    rfl
  have h₂ : Session.step ⟨⟨.file FileHeader.new.serialize.bytes wal cache, FileHeader.new, 1⟩, []⟩
      (.call (.flush .id)) = some ⟨⟨.file (flushedMain FileHeader.new.serialize.bytes
        [(0xFFFFFFFF, PageData.zero)] 1) { file := [], offsets := ∅, len := 0 } cache,
          FileHeader.new, 1⟩, []⟩ := by
    simp only [Session.step, DatabaseFile.step, DatabaseFile.flush]
    rw [hflush]
    rfl
  refine ⟨_, by rw [Session.run_cons h₁, Session.run_cons h₂]; rfl,
    not_recovers_of_full FileHeader.new ha (by simp) ?_ ?_
      (FileHeader.deserialize_serialize (h := FileHeader.new) rfl)⟩
  · have hone : StorageBackend.missingPages FileHeader.new.serialize.bytes 1 = 0 := by
      unfold StorageBackend.missingPages
      rw [FileHeader.new.serialize.size_eq]
      decide
    unfold flushedMain replay
    rw [hone, List.foldl_cons, List.foldl_nil, StorageBackend.extendMain, writeMain,
      length_writeAll, FileHeader.new.serialize.size_eq, PageData.zero.size_eq]
    decide
  · have h0 : overlay [((0xFFFFFFFF : UInt32), PageData.zero)]
        (mainPages FileHeader.new.serialize.bytes) 0 = some FileHeader.new.serialize := by
      rw [mainPages_new]
      rfl
    rw [overlay_concat, if_neg (by decide), overlay_nil]
    exact mainPages_flushed 1 h0

end ChiffonDB
