import Mathlib.Logic.Function.Basic
import ChiffonDB.Storage.File

/-!
# The page map a database file stands for

`PageMap` is what `DatabaseFile` is for: numbered pages, a header and a page count.  A durable
map (file backend) takes a write to any page number, the memory backend only to its own pages.

* `Shows` — the database file presents the page map: the cache, the log and the main file (or the
  byte vector) together hold its pages.
* `Shows.readPage`, `Shows.writePage`, `Shows.appendPage`, `Shows.setHeader` — **every call
  answers as the map does and keeps the relation**, whatever the cache holds or evicts.
* `FileShows.flush`, `FileShows.restore` — what a checkpoint and a rollback do to the layers.
-/

set_option autoImplicit false

namespace ChiffonDB

open Bytes ByteFile Journal

structure PageMap where
  durable : Bool
  pages : UInt32 → Option PageData
  header : FileHeader
  count : UInt32

namespace PageMap

/-- The error of an access to a page that is not there. -/
def missing (m : PageMap) (p : UInt32) : GraphError :=
  if m.durable then .io else .storageCorrupted p

def readPage (m : PageMap) (p : UInt32) : Except GraphError PageData :=
  match m.pages p with
  | some d => .ok d
  | none => .error (m.missing p)

def set (m : PageMap) (p : UInt32) (d : PageData) : PageMap :=
  { m with pages := Function.update m.pages p (some d) }

theorem set_pages_self (m : PageMap) (p : UInt32) (d : PageData) :
    (m.set p d).pages p = some d := by
  unfold set
  dsimp only
  rw [Function.update_self]

theorem set_pages_of_ne (m : PageMap) {p q : UInt32} (h : q ≠ p) (d : PageData) :
    (m.set p d).pages q = m.pages q := by
  unfold set
  dsimp only
  rw [Function.update_of_ne h]

def writePage (m : PageMap) (p : UInt32) (d : PageData) : Except GraphError Unit × PageMap :=
  if m.durable || (m.pages p).isSome then (.ok (), m.set p d)
  else (.error (.storageCorrupted p), m)

def appendPage (m : PageMap) (d : PageData) : Option (UInt32 × PageMap) :=
  if m.count.toNat + 1 < UInt32.size then some (m.count, { m.set m.count d with count := m.count + 1 })
  else none

end PageMap

/-! ## The pages of a byte vector -/

/-- The pages that lie inside the file. -/
def mainPages (main : ByteFile) (p : UInt32) : Option PageData :=
  if p.toNat * PAGE_SIZE + PAGE_SIZE ≤ main.length then some (mainPage main p) else none

theorem readMain_eq (main : ByteFile) (p : UInt32) :
    StorageBackend.readMain main p = match mainPages main p with
      | none => .error .io
      | some d => .ok d := by
  unfold StorageBackend.readMain mainPages
  by_cases h : p.toNat * PAGE_SIZE + PAGE_SIZE ≤ main.length
  · rw [readExact_block h, if_pos h, Option.bind_some, ← mainPage_bytes, PageData.ofBytes?_bytes]
  · rw [readExact_eq_none (by omega), if_neg h]
    rfl

theorem mainPages_isSome {main : ByteFile} {p : UInt32} :
    (mainPages main p).isSome ↔ p.toNat * PAGE_SIZE + PAGE_SIZE ≤ main.length := by
  unfold mainPages
  split <;> simp_all

theorem slice_eq_block {data : List UInt8} {p : UInt32}
    (h : p.toNat * PAGE_SIZE + PAGE_SIZE ≤ data.length) :
    slice data (p.toNat * PAGE_SIZE) PAGE_SIZE = (mainPage data p).bytes := by
  have hb := readExact_block h
  unfold readExact at hb
  rw [if_pos h] at hb
  exact Option.some.inj hb

/-- Writing page `p` of a file that reaches it. -/
theorem mainPages_writeMain {f : ByteFile} {p : UInt32} (h : p.toNat * PAGE_SIZE ≤ f.length)
    (d : PageData) : mainPages (writeMain f p d) = Function.update (mainPages f) p (some d) := by
  funext q
  have hlen : (writeMain f p d).length = max f.length (p.toNat * PAGE_SIZE + PAGE_SIZE) := by
    rw [writeMain, length_writeAll, d.size_eq]
  have hpage : mainPage (writeMain f p d) q = if q = p then d else mainPage f q := by
    apply PageData.ext
    rw [mainPage_bytes, block_writeMain]
    by_cases hq : q = p
    · simp [hq]
    · rw [if_neg hq, if_neg (fun he => hq (UInt32.toNat_inj.1 he)), mainPage_bytes]
  unfold mainPages
  rw [hlen, hpage]
  by_cases hq : q = p
  · subst hq
    rw [Function.update_self, if_pos (Nat.le_max_right ..), if_pos rfl]
  · rw [Function.update_of_ne hq, if_neg hq]
    have hne : q.toNat ≠ p.toNat := fun he => hq (UInt32.toNat_inj.1 he)
    have hiff : q.toNat * PAGE_SIZE + PAGE_SIZE ≤ max f.length (p.toNat * PAGE_SIZE + PAGE_SIZE) ↔
        q.toNat * PAGE_SIZE + PAGE_SIZE ≤ f.length := by
      unfold PAGE_SIZE at h ⊢
      omega
    simp only [hiff]

theorem splice_eq_writeMain {data : List UInt8} {p : UInt32}
    (h : p.toNat * PAGE_SIZE + PAGE_SIZE ≤ data.length) (d : PageData) :
    splice data (p.toNat * PAGE_SIZE) d.bytes = writeMain data p d := by
  have hz : p.toNat * PAGE_SIZE + d.bytes.length - data.length = 0 := by rw [d.size_eq]; omega
  unfold writeMain writeAll pad
  rw [hz, List.replicate_zero, List.append_nil]

/-! ## The file backend -/

/-- The log holds `es`, and the cache only pages as the log and the main file have them. -/
structure FileShows (main : ByteFile) (wal : WalFile) (cache : PageCache) (es : List WalEntry)
    (rest : List UInt8) : Prop where
  log : Holds wal es rest
  cache : ∃ l, cache.Refines l ∧
    ∀ e ∈ l, e.2.2 = false ∧ overlay es (mainPages main) e.1 = some e.2.1

theorem overlay_update (es : List WalEntry) (base : UInt32 → Option PageData) (p : UInt32)
    (d : PageData) : overlay (es ++ [(p, d)]) base = Function.update (overlay es base) p (some d) := by
  funext q
  rw [overlay_concat]
  by_cases h : p = q
  · subst h; simp
  · rw [if_neg h, Function.update_of_ne (Ne.symm h)]

namespace FileShows

variable {main : ByteFile} {wal : WalFile} {cache : PageCache} {es : List WalEntry}
  {rest : List UInt8}

theorem readThrough (h : FileShows main wal cache es rest) (p : UInt32) :
    StorageBackend.readThrough main wal p = match overlay es (mainPages main) p with
      | none => .error .io
      | some d => .ok d := by
  unfold StorageBackend.readThrough overlay
  rw [h.log.read p]
  cases latest es p with
  | some d => rfl
  | none => exact readMain_eq main p

/-- Caching a page as the layers below have it. -/
theorem put (h : FileShows main wal cache es rest) {p : UInt32} {d : PageData}
    (hp : overlay es (mainPages main) p = some d) :
    FileShows main wal (cache.put p d false).2 es rest where
  log := h.log
  cache := by
    obtain ⟨l, hl, hc⟩ := h.cache
    refine ⟨_, hl.put p d false, ?_⟩
    intro e he
    rcases Lru.mem_insert he with rfl | he
    · refine ⟨?_, hp⟩
      cases hf : Lru.find l p with
      | none => rfl
      | some a => simpa using (hc _ (Lru.mem_of_find hf)).1
    · exact hc e he

theorem get (h : FileShows main wal cache es rest) (p : UInt32) :
    FileShows main wal (cache.get p).2 es rest ∧
      ∀ d, (cache.get p).1 = some d → overlay es (mainPages main) p = some d := by
  obtain ⟨l, hl, hc⟩ := h.cache
  obtain ⟨hget, hl'⟩ := hl.get p
  refine ⟨⟨h.log, _, hl', fun e he => hc e (Lru.mem_touch he)⟩, ?_⟩
  intro d hd
  rw [hget] at hd
  obtain ⟨a, ha, rfl⟩ := Option.map_eq_some_iff.1 hd
  exact (hc _ (Lru.mem_of_find ha)).2

/-- **Whichever layer answers, the answer is the page's latest version.** -/
theorem readPage (h : FileShows main wal cache es rest) (p : UInt32) :
    ∃ cache', (StorageBackend.file main wal cache).readPage p =
        (match overlay es (mainPages main) p with
          | none => .error .io
          | some d => .ok d, .file main wal cache') ∧ FileShows main wal cache' es rest := by
  obtain ⟨hget, hval⟩ := h.get p
  unfold StorageBackend.readPage
  dsimp only
  cases hg : cache.get p with
  | mk r cache₁ =>
    rw [hg] at hget hval
    cases r with
    | some d =>
      refine ⟨cache₁, ?_, hget⟩
      rw [hval d rfl]
    | none =>
      dsimp only
      rw [hget.readThrough p]
      cases hv : overlay es (mainPages main) p with
      | none => exact ⟨cache₁, rfl, hget⟩
      | some d => exact ⟨_, rfl, hget.put hv⟩

theorem writePage (h : FileShows main wal cache es rest) (p : UInt32) (d : PageData) :
    FileShows main (wal.write p d) (cache.put p d false).2 (es ++ [(p, d)])
      (rest.drop WAL_ENTRY_SIZE) where
  log := h.log.write p d
  cache := by
    obtain ⟨l, hl, hc⟩ := h.cache
    have hl' := hl.put p d false
    obtain ⟨order, hw, hcont⟩ := hl'
    refine ⟨_, ⟨order, hw, rfl⟩, ?_⟩
    have hnd := hw.nodupKeys
    rw [hcont] at hnd ⊢
    intro e he
    have hself : (p, (d, ((Lru.find l p).map Prod.snd).getD false || false)) ∈
        Lru.insert cache.capacity l p (d, ((Lru.find l p).map Prod.snd).getD false || false) := by
      unfold Lru.insert
      split <;> simp
    rw [overlay_update]
    by_cases hp : e.1 = p
    · -- the only entry for `p` is the one just put
      have he' := List.inj_on_of_nodup_map hnd he hself hp
      rw [he']
      refine ⟨?_, Function.update_self ..⟩
      cases hf : Lru.find l p with
      | none => rfl
      | some a => simpa using (hc _ (Lru.mem_of_find hf)).1
    · rw [Function.update_of_ne hp]
      rcases Lru.mem_insert he with rfl | he
      · exact absurd rfl hp
      · exact hc e he

/-- **Rollback**: the log is back at `es`, the cache is empty. -/
theorem restore {fs : List WalEntry} (h : FileShows main wal cache (es ++ fs) rest) :
    FileShows main (wal.truncateTo (es.length * WAL_ENTRY_SIZE)) cache.clear es [] where
  log := h.log.truncateTo
  cache := by
    obtain ⟨l, hl, _⟩ := h.cache
    exact ⟨[], hl.clear, by simp⟩

end FileShows

/-! ## The relation -/

/-- The database file presents the page map. -/
inductive Shows : DatabaseFile → PageMap → Prop where
  | file {main : ByteFile} {wal : WalFile} {cache : PageCache} {es : List WalEntry}
      {rest : List UInt8} (h : FileShows main wal cache es rest) (header : FileHeader)
      (count : UInt32) :
      Shows ⟨.file main wal cache, header, count⟩ ⟨true, overlay es (mainPages main), header, count⟩
  | memory {data : List UInt8} {count : UInt32} (h : data.length = count.toNat * PAGE_SIZE)
      (header : FileHeader) : Shows ⟨.memory data, header, count⟩ ⟨false, mainPages data, header, count⟩

namespace Shows

variable {db : DatabaseFile} {m : PageMap}

theorem header (h : Shows db m) : db.header = m.header := by cases h <;> rfl

theorem pageCount (h : Shows db m) : db.pageCount = m.count := by cases h <;> rfl

theorem readPage (h : Shows db m) (p : UInt32) :
    (db.readPage p).1 = m.readPage p ∧ Shows (db.readPage p).2 m := by
  cases h with
  | @file main wal cache es rest h header count =>
    obtain ⟨cache', hr, h'⟩ := h.readPage p
    unfold DatabaseFile.readPage PageMap.readPage
    rw [hr]
    refine ⟨?_, .file h' header count⟩
    dsimp only
    cases overlay es (mainPages main) p <;> rfl
  | @memory data count h header =>
    unfold DatabaseFile.readPage StorageBackend.readPage PageMap.readPage mainPages
    by_cases hp : p.toNat * PAGE_SIZE + PAGE_SIZE ≤ data.length
    · simp only [if_pos hp, dif_neg (not_lt.2 hp), slice_eq_block hp]
      exact ⟨trivial, .memory h header⟩
    · simp only [if_neg hp, dif_pos (not_le.1 hp)]
      exact ⟨rfl, .memory h header⟩

theorem writePage (h : Shows db m) (p : UInt32) (d : PageData) :
    (db.writePage p d).1 = (m.writePage p d).1 ∧ Shows (db.writePage p d).2 (m.writePage p d).2 := by
  cases h with
  | file h header count =>
    refine ⟨rfl, ?_⟩
    have := Shows.file (h.writePage p d) header count
    rwa [overlay_update] at this
  | @memory data count h header =>
    unfold DatabaseFile.writePage StorageBackend.writePage PageMap.writePage
    by_cases hp : p.toNat * PAGE_SIZE + PAGE_SIZE ≤ data.length
    · have hs : (mainPages data p).isSome = true := mainPages_isSome.2 hp
      simp only [if_neg (not_lt.2 hp), hs, Bool.or_true, if_true, splice_eq_writeMain hp]
      refine ⟨trivial, ?_⟩
      have hlen : (writeMain data p d).length = count.toNat * PAGE_SIZE := by
        rw [writeMain, length_writeAll, d.size_eq]; omega
      have hw := Shows.memory hlen header
      rwa [mainPages_writeMain (by omega)] at hw
    · have hs : (mainPages data p).isSome = false := by
        rw [Bool.eq_false_iff]
        exact fun hs => hp (mainPages_isSome.1 hs)
      simp only [if_pos (not_le.1 hp), hs, Bool.or_false, Bool.false_eq_true, if_false]
      exact ⟨trivial, .memory h header⟩

theorem appendPage (h : Shows db m) (d : PageData) :
    (db.appendPage d = none ∧ m.appendPage d = none) ∨
    ∃ p db' m', db.appendPage d = some (p, db') ∧ m.appendPage d = some (p, m') ∧ Shows db' m' := by
  cases h with
  | @file main wal cache es rest h header count =>
    unfold DatabaseFile.appendPage PageMap.appendPage
    by_cases hc : count.toNat + 1 < UInt32.size
    · refine .inr ⟨count, _, _, if_pos hc, if_pos hc, ?_⟩
      have := Shows.file (h.writePage count d) header (count + 1)
      rwa [overlay_update] at this
    · exact .inl ⟨if_neg hc, if_neg hc⟩
  | @memory data count h header =>
    unfold DatabaseFile.appendPage PageMap.appendPage
    by_cases hc : count.toNat + 1 < UInt32.size
    · refine .inr ⟨count, _, _, if_pos hc, if_pos hc, ?_⟩
      have hsucc : (count + 1).toNat = count.toNat + 1 := by
        rw [UInt32.toNat_add]; exact Nat.mod_eq_of_lt hc
      have hdata : data ++ d.bytes = writeMain data count d := by
        unfold writeMain
        rw [← h, writeAll_length]
      have hlen : (writeMain data count d).length = (count + 1).toNat * PAGE_SIZE := by
        rw [← hdata, List.length_append, d.size_eq, hsucc, Nat.add_mul, Nat.one_mul, h]
      have hw := Shows.memory hlen header
      rw [mainPages_writeMain (by omega)] at hw
      simp only [StorageBackend.appendPage, hdata]
      exact hw
    · exact .inl ⟨if_neg hc, if_neg hc⟩

theorem setHeader (h : Shows db m) (hd : FileHeader) :
    Shows { db with header := hd } { m with header := hd } := by
  cases h with
  | file h _ count => exact .file h hd count
  | memory h _ => exact .memory h hd

theorem writeHeader (h : Shows db m) :
    (db.writeHeader).1 = (m.writePage 0 m.header.serialize).1 ∧
      Shows db.writeHeader.2 (m.writePage 0 m.header.serialize).2 := by
  unfold DatabaseFile.writeHeader
  rw [h.header]
  exact h.writePage 0 m.header.serialize

end Shows

end ChiffonDB
