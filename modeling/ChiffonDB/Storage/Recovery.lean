import ChiffonDB.Storage.PageMap

/-!
# Checkpoint and recovery

What `flush` and `open_inner` do to the pages.

* `mainPages_replay` — a page readable through the log reads the same after the log is replayed.
* `FileShows.flush` — `flush` succeeds, replays the log and leaves it empty.
* `recoverWal_spec` — opening replays the valid entries at the front of the log file.
* `Sized` — **pages are numbered without gaps**: every page below the count is in the main file or
  in the log, and nothing else is.  Then replaying gives exactly the pages (`Sized.pages_replay`)
  and the right file length (`Sized.length_replay`).
-/

set_option autoImplicit false

namespace ChiffonDB

open Bytes ByteFile Journal

/-! ## Replaying a log -/

theorem mainPages_eq_some {main : ByteFile} {p : UInt32} {d : PageData} :
    mainPages main p = some d ↔
      p.toNat * PAGE_SIZE + PAGE_SIZE ≤ main.length ∧ mainPage main p = d := by
  unfold mainPages
  split <;> simp_all

/-- **Replaying the log changes no readable page.** -/
theorem mainPages_replay {es : List WalEntry} {main : ByteFile} {p : UInt32} {d : PageData}
    (h : overlay es (mainPages main) p = some d) : mainPages (replay es main) p = some d := by
  have hlen := (length_replay_le es main (replay es main).length).1 (Nat.le_refl _)
  rw [mainPages_eq_some, mainPage_replay]
  unfold overlay at h
  cases hl : latest es p with
  | some d' =>
    rw [hl, Option.some_or, Option.some.injEq] at h
    exact ⟨hlen.2 (p, d') (mem_of_latest hl), h⟩
  | none =>
    rw [hl, Option.none_or] at h
    obtain ⟨h1, h2⟩ := mainPages_eq_some.1 h
    exact ⟨Nat.le_trans h1 hlen.1, h2⟩

theorem mainPages_extend {main : ByteFile} {p : UInt32} {d : PageData} (n : Nat)
    (h : mainPages main p = some d) : mainPages (main ++ List.replicate n 0) p = some d := by
  obtain ⟨h1, h2⟩ := mainPages_eq_some.1 h
  rw [mainPages_eq_some]
  refine ⟨by rw [List.length_append]; omega, ?_⟩
  rw [← h2]
  apply PageData.ext
  rw [mainPage_bytes, block_append_zeros, mainPage_bytes]

theorem overlay_extend {es : List WalEntry} {main : ByteFile} {p : UInt32} {d : PageData} (n : Nat)
    (h : overlay es (mainPages main) p = some d) :
    overlay es (mainPages (main ++ List.replicate n 0)) p = some d := by
  unfold overlay at h ⊢
  cases hl : latest es p with
  | some d' => rwa [hl] at h
  | none =>
    rw [hl, Option.none_or] at h
    rw [Option.none_or]
    exact mainPages_extend n h

theorem extendMain_eq (n : Nat) (main : ByteFile) :
    StorageBackend.extendMain n main = main ++ List.replicate (n * PAGE_SIZE) 0 := by
  induction n generalizing main with
  | zero => rw [Nat.zero_mul, List.replicate_zero, List.append_nil]; rfl
  | succ n ih =>
    have hz : PageData.zero.bytes = List.replicate PAGE_SIZE 0 := rfl
    rw [StorageBackend.extendMain, ih, writeAll_length, hz, List.append_assoc,
      List.replicate_append_replicate, Nat.add_mul, Nat.one_mul, Nat.add_comm]

/-! ## Flush -/

/-- The main file a completed flush leaves. -/
def flushedMain (main : ByteFile) (es : List WalEntry) (count : UInt32) : ByteFile :=
  replay es (StorageBackend.extendMain (StorageBackend.missingPages main count) main)

theorem mainPages_flushed {es : List WalEntry} {main : ByteFile} {p : UInt32} {d : PageData}
    (count : UInt32) (h : overlay es (mainPages main) p = some d) :
    mainPages (flushedMain main es count) p = some d := by
  unfold flushedMain
  rw [extendMain_eq]
  exact mainPages_replay (overlay_extend _ h)

/-- **`flush` succeeds and moves every logged page to the main file.** -/
theorem FileShows.flush {main : ByteFile} {wal : WalFile} {cache : PageCache} {es : List WalEntry}
    {rest : List UInt8} (h : FileShows main wal cache es rest) (hes : es ≠ []) (order : HashOrder)
    (count : UInt32) :
    (StorageBackend.file main wal cache).flush order count =
        (.ok (), .file (flushedMain main es count) { file := [], offsets := ∅, len := 0 } cache) ∧
      FileShows (flushedMain main es count) { file := [], offsets := ∅, len := 0 } cache [] [] := by
  have hne : ¬ wal.isEmpty = true := fun he => hes (h.log.isEmpty.1 he)
  refine ⟨?_, ⟨rfl, rfl, rfl⟩, ?_⟩
  · unfold StorageBackend.flush
    dsimp only
    rw [if_neg hne, h.log.checkpoint order]
    rfl
  · obtain ⟨l, hl, hc⟩ := h.cache
    refine ⟨l, hl, fun e he => ⟨(hc e he).1, ?_⟩⟩
    rw [overlay_nil]
    exact mainPages_flushed count (hc e he).2

/-- With an empty log `flush` does nothing. -/
theorem FileShows.flush_nil {main : ByteFile} {wal : WalFile} {cache : PageCache}
    {rest : List UInt8} (h : FileShows main wal cache [] rest) (order : HashOrder) (count : UInt32) :
    (StorageBackend.file main wal cache).flush order count = (.ok (), .file main wal cache) := by
  have he : wal.isEmpty = true := h.log.isEmpty.2 rfl
  unfold StorageBackend.flush
  simp only [he, if_true]

/-! ## Open -/

/-- **Opening replays the valid entries**; only a log without any keeps its file. -/
theorem recoverWal_spec (es : List WalEntry) {rest : List UInt8} (hrest : decodeEntry rest = none)
    (order : HashOrder) (main : ByteFile) :
    ∃ wal, DatabaseFile.recoverWal order ⟨main, encodeEntries es ++ rest⟩ =
        .ok (wal, replay es main) ∧ Holds wal [] (if es = [] then rest else []) := by
  have hopen := Holds.openWal es hrest
  unfold DatabaseFile.recoverWal
  by_cases hes : es = []
  · subst hes
    have he := hopen.isEmpty.2 rfl
    refine ⟨_, by simp only [he, if_true, replay_nil]; rfl, ?_⟩
    rwa [if_pos rfl]
  · have hne : ¬ (WalFile.openWal (encodeEntries es ++ rest)).isEmpty = true :=
      fun he => hes (hopen.isEmpty.1 he)
    refine ⟨{ file := [], offsets := ∅, len := 0 }, ?_, ?_⟩
    · dsimp only
      rw [if_neg hne, hopen.checkpoint order]
    · rw [if_neg hes]
      exact ⟨rfl, rfl, rfl⟩

/-! ## Exact recovery -/

/-- **Recovery is exact**: the log holds exactly the entries `es`, every page reads at its latest
    version, and the checkpoint of `open` writes those versions and leaves every other page of the
    main file as it was. -/
structure RecoversExactly (file : ByteFile) (es : List WalEntry) : Prop where
  len : (WalFile.openWal file).currentLen = es.length * WAL_ENTRY_SIZE
  read : ∀ p, (WalFile.openWal file).read p = .ok (latest es p)
  checkpoint : ∀ order main, ∃ wal main', DatabaseFile.recoverWal order ⟨main, file⟩ = .ok (wal, main') ∧
    ∀ p, mainPage main' p = (latest es p).getD (mainPage main p)

/-- A log file recovers the valid entries at its front. -/
theorem recoversExactly_of_decomp (es : List WalEntry) {rest : List UInt8}
    (hrest : decodeEntry rest = none) : RecoversExactly (encodeEntries es ++ rest) es where
  len := (Holds.openWal es hrest).len
  read p := (Holds.openWal es hrest).read p
  checkpoint order main := by
    obtain ⟨wal, hrec, _⟩ := recoverWal_spec es hrest order main
    exact ⟨wal, _, hrec, fun p => mainPage_replay es main p⟩

/-- **Recovery finds an entry too many exactly when a valid one lies behind the log's end.** -/
theorem recoversExactly_iff_rest {es : List WalEntry} {rest : List UInt8} :
    RecoversExactly (encodeEntries es ++ rest) es ↔ decodeEntry rest = none := by
  refine ⟨fun hrec => ?_, recoversExactly_of_decomp es⟩
  cases hd : decodeEntry rest with
  | none => rfl
  | some e =>
    exfalso
    obtain ⟨fs, rest', hfs, hrest'⟩ := exists_decomp (rest.drop WAL_ENTRY_SIZE)
    have hfile : encodeEntries es ++ rest = encodeEntries (es ++ [e] ++ fs) ++ rest' := by
      rw [eq_walEntry_of_decodeEntry (p := e.1) (d := e.2) hd, hfs, encodeEntries_append,
        encodeEntries_append, encodeEntries_singleton, List.append_assoc, List.append_assoc]
    have hlen := hrec.len
    unfold WalFile.currentLen at hlen
    rw [hfile, (Holds.openWal _ hrest').len] at hlen
    have hlt : es.length < (es ++ [e] ++ fs).length := by simp
    have := Nat.eq_of_mul_eq_mul_right (by decide) hlen
    omega

theorem FileShows.opened {main : ByteFile} {wal : WalFile} {rest : List UInt8}
    (h : Holds wal [] rest) (opts : OpenOptions) :
    FileShows main wal (PageCache.new opts.cacheCapacity) [] rest :=
  ⟨h, [], PageCache.Refines.new _, by simp⟩

/-- What a successful open returns. -/
theorem openInner_spec {es : List WalEntry} {rest : List UInt8} (hrest : decodeEntry rest = none)
    {order : HashOrder} {opts : OpenOptions} {main : ByteFile} {db : DatabaseFile}
    (h : DatabaseFile.openInner order opts ⟨main, encodeEntries es ++ rest⟩ = .ok db) :
    ∃ wal, db.backend = .file (replay es main) wal (PageCache.new opts.cacheCapacity) ∧
      FileShows (replay es main) wal (PageCache.new opts.cacheCapacity) []
        (if es = [] then rest else []) ∧
      db.logicalPageCount = UInt32.ofNat ((replay es main).length / PAGE_SIZE) ∧
      ∃ buf, mainPages (replay es main) 0 = some buf ∧
        FileHeader.deserialize buf = .ok db.header := by
  obtain ⟨wal, hrec, hwal⟩ := recoverWal_spec es hrest order main
  unfold DatabaseFile.openInner at h
  rw [hrec] at h
  simp only [readMain_eq] at h
  cases hbuf : mainPages (replay es main) 0 with
  | none => rw [hbuf] at h; cases h
  | some buf =>
    rw [hbuf] at h
    simp only at h
    cases hd : FileHeader.deserialize buf with
    | error e => rw [hd] at h; cases h
    | ok header =>
      rw [hd] at h
      cases h
      exact ⟨wal, rfl, FileShows.opened hwal opts, rfl, buf, rfl, hd⟩

/-- An open succeeds when page 0 holds a valid header. -/
theorem openInner_ok {es : List WalEntry} {rest : List UInt8} (hrest : decodeEntry rest = none)
    (order : HashOrder) (opts : OpenOptions) {main : ByteFile} {buf : PageData} {header : FileHeader}
    (hbuf : mainPages (replay es main) 0 = some buf)
    (hd : FileHeader.deserialize buf = .ok header) :
    ∃ db, DatabaseFile.openInner order opts ⟨main, encodeEntries es ++ rest⟩ = .ok db ∧
      db.header = header := by
  obtain ⟨wal, hrec, _⟩ := recoverWal_spec es hrest order main
  unfold DatabaseFile.openInner
  rw [hrec]
  simp only [readMain_eq, hbuf, hd]
  exact ⟨_, rfl, rfl⟩

/-! ## Gapless page numbers -/

/-- The main file and the log hold the pages below `count` and no other. -/
structure Sized (main : ByteFile) (es : List WalEntry) (count : UInt32) : Prop where
  whole : PAGE_SIZE ∣ main.length
  fits : main.length ≤ count.toNat * PAGE_SIZE
  ids : ∀ e ∈ es, e.1 < count
  cover : ∀ p, p < count → (overlay es (mainPages main) p).isSome

namespace Sized

variable {main : ByteFile} {es : List WalEntry} {count : UInt32}

theorem isSome_iff (h : Sized main es count) (p : UInt32) :
    (overlay es (mainPages main) p).isSome ↔ p < count := by
  constructor
  · intro hs
    unfold overlay at hs
    cases hl : latest es p with
    | some d => exact h.ids (p, d) (mem_of_latest hl)
    | none =>
      rw [hl, Option.none_or, mainPages_isSome] at hs
      have := h.fits
      rw [UInt32.lt_iff_toNat_lt]
      unfold PAGE_SIZE at *
      omega
  · exact h.cover p

/-- **Replaying a gapless log over the file, extended or not, makes it `count` pages long.** -/
theorem length_replay (h : Sized main es count) {n : Nat}
    (hn : main.length + n ≤ count.toNat * PAGE_SIZE) :
    (replay es (main ++ List.replicate n 0)).length = count.toNat * PAGE_SIZE := by
  apply Nat.le_antisymm
  · rw [length_replay_le, List.length_append, List.length_replicate]
    refine ⟨hn, fun e he => ?_⟩
    have := UInt32.lt_iff_toNat_lt.1 (h.ids e he)
    unfold PAGE_SIZE
    omega
  · by_cases hc : count.toNat = 0
    · rw [hc]; omega
    · have hlt : UInt32.ofNat (count.toNat - 1) < count := by
        rw [UInt32.lt_iff_toNat_lt, UInt32.toNat_ofNat', Nat.mod_eq_of_lt]
        · omega
        · have := count.toNat_lt; omega
      have hto : (UInt32.ofNat (count.toNat - 1)).toNat = count.toNat - 1 := by
        rw [UInt32.toNat_ofNat', Nat.mod_eq_of_lt]
        have := count.toNat_lt
        omega
      obtain ⟨d, hd⟩ := Option.isSome_iff_exists.1 (h.cover _ hlt)
      have hp := (mainPages_eq_some.1 (mainPages_replay (overlay_extend n hd))).1
      have hmul : (count.toNat - 1) * PAGE_SIZE + PAGE_SIZE = count.toNat * PAGE_SIZE := by
        rw [← Nat.succ_mul, Nat.succ_eq_add_one, Nat.sub_add_cancel (by omega)]
      rwa [hto, hmul] at hp

/-- **… and holds exactly the pages that were readable before.** -/
theorem pages_replay (h : Sized main es count) {n : Nat}
    (hn : main.length + n ≤ count.toNat * PAGE_SIZE) :
    mainPages (replay es (main ++ List.replicate n 0)) = overlay es (mainPages main) := by
  funext p
  cases ho : overlay es (mainPages main) p with
  | some d => exact mainPages_replay (overlay_extend n ho)
  | none =>
    have hp : ¬ p < count := by
      rw [← h.isSome_iff p, ho]; simp
    rw [UInt32.lt_iff_toNat_lt] at hp
    have hlen := h.length_replay hn
    unfold mainPages
    rw [if_neg]
    rw [hlen]
    unfold PAGE_SIZE
    omega

theorem missing_le (h : Sized main es count) :
    main.length + StorageBackend.missingPages main count * PAGE_SIZE ≤ count.toNat * PAGE_SIZE := by
  obtain ⟨k, hk⟩ := h.whole
  have hfits := h.fits
  have hc := count.toNat_lt
  have hdiv : main.length / PAGE_SIZE = k := by
    rw [hk, Nat.mul_div_cancel_left k (by decide)]
  have hkc : k ≤ count.toNat := by
    rw [hk] at hfits
    unfold PAGE_SIZE at hfits
    omega
  have hto : (UInt32.ofNat k).toNat = k := by
    rw [UInt32.toNat_ofNat']; exact Nat.mod_eq_of_lt (by omega)
  unfold StorageBackend.missingPages
  simp only [hdiv]
  split
  · rw [hto, hk]
    unfold PAGE_SIZE
    omega
  · omega

/-- A file of exactly `count` pages needs no log. -/
theorem nil_of_length (hl : main.length = count.toNat * PAGE_SIZE) : Sized main [] count where
  whole := ⟨count.toNat, by rw [hl, Nat.mul_comm]⟩
  fits := Nat.le_of_eq hl
  ids := by simp
  cover p hp := by
    rw [overlay_nil, mainPages_isSome, hl]
    have := UInt32.lt_iff_toNat_lt.1 hp
    unfold PAGE_SIZE
    omega

/-- After a completed flush. -/
theorem flushed (h : Sized main es count) :
    Sized (flushedMain main es count) [] count ∧
      mainPages (flushedMain main es count) = overlay es (mainPages main) := by
  have hn := h.missing_le
  unfold flushedMain
  rw [extendMain_eq]
  exact ⟨nil_of_length (h.length_replay hn), h.pages_replay hn⟩

/-- After recovery without a flush. -/
theorem recovered (h : Sized main es count) :
    (replay es main).length = count.toNat * PAGE_SIZE ∧
      mainPages (replay es main) = overlay es (mainPages main) := by
  have h1 := h.length_replay (n := 0) (by have := h.fits; omega)
  have h2 := h.pages_replay (n := 0) (by have := h.fits; omega)
  rw [List.replicate_zero, List.append_nil] at h1 h2
  exact ⟨h1, h2⟩

/-- Writing a page that exists. -/
theorem write (h : Sized main es count) {p : UInt32} (hp : p < count) (d : PageData) :
    Sized main (es ++ [(p, d)]) count where
  whole := h.whole
  fits := h.fits
  ids e he := by
    rcases List.mem_append.1 he with he | he
    · exact h.ids e he
    · rw [List.mem_singleton.1 he]; exact hp
  cover q hq := by
    rw [overlay_concat]
    split
    · rfl
    · exact h.cover q hq

/-- Appending the page numbered `count`. -/
theorem append (h : Sized main es count) (hc : count.toNat + 1 < UInt32.size) (d : PageData) :
    Sized main (es ++ [(count, d)]) (count + 1) := by
  have hsucc : (count + 1).toNat = count.toNat + 1 := by
    rw [UInt32.toNat_add]; exact Nat.mod_eq_of_lt hc
  refine ⟨h.whole, ?_, ?_, ?_⟩
  · have := h.fits
    rw [hsucc, Nat.add_mul]
    omega
  · intro e he
    rw [UInt32.lt_iff_toNat_lt, hsucc]
    rcases List.mem_append.1 he with he | he
    · have := UInt32.lt_iff_toNat_lt.1 (h.ids e he)
      omega
    · rw [List.mem_singleton.1 he]
      exact Nat.lt_succ_self _
  · intro q hq
    rw [overlay_concat]
    split
    · rfl
    · rename_i hne
      apply h.cover q
      rw [UInt32.lt_iff_toNat_lt, hsucc] at hq
      rw [UInt32.lt_iff_toNat_lt]
      have : count.toNat ≠ q.toNat := fun he => hne (UInt32.toNat_inj.1 he)
      omega

end Sized

end ChiffonDB
