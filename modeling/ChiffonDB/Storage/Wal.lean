import ChiffonDB.Lib.Journal
import ChiffonDB.Storage.Header

/-!
# The write-ahead log

`WalFile` of `storage/wal.rs`: a file of fixed-size entries and, in memory, the offset of each
page's latest entry.  `load_index` scans the file up to the first entry that is incomplete or
fails its checksum.

* `exists_decomp` — every file is a list of valid entries and a remainder that starts with no
  valid entry.
* `loadIndex_spec` — `load_index` recovers exactly those entries.
* `Holds` — the invariant of an open log, kept by `write` (`Holds.write`) and `truncate_to`
  (`Holds.truncateTo`); under it `read` returns the latest entry (`Holds.read`).
* `Holds.checkpoint` — whatever order the index is visited in, `checkpoint` writes what
  replaying the entries in log order writes.
-/

set_option autoImplicit false

namespace ChiffonDB

open Bytes ByteFile Journal

/-! ## Entries -/

def WAL_ENTRY_SIZE : Nat := 4 + 4 + PAGE_SIZE

/-- `checksum`: the page id plus every data byte, wrapping. -/
def checksum (pageId : UInt32) (data : List UInt8) : UInt32 :=
  data.foldl (fun sum b => sum + b.toUInt32) pageId

/-- A logged page write. -/
abbrev WalEntry := UInt32 × PageData

/-- The bytes of an entry. -/
def walEntry (pageId : UInt32) (data : PageData) : List UInt8 :=
  u32Bytes pageId ++ (u32Bytes (checksum pageId data.bytes) ++ data.bytes)

theorem length_walEntry (p : UInt32) (d : PageData) : (walEntry p d).length = WAL_ENTRY_SIZE := by
  simp only [walEntry, List.length_append, length_u32Bytes, d.size_eq]; rfl

/-- The log's bytes for a list of entries. -/
def encodeEntries (es : List WalEntry) : List UInt8 := es.flatMap (fun e => walEntry e.1 e.2)

@[simp] theorem encodeEntries_nil : encodeEntries [] = [] := rfl

theorem encodeEntries_cons (e : WalEntry) (es : List WalEntry) :
    encodeEntries (e :: es) = walEntry e.1 e.2 ++ encodeEntries es := rfl

theorem encodeEntries_append (es fs : List WalEntry) :
    encodeEntries (es ++ fs) = encodeEntries es ++ encodeEntries fs := List.flatMap_append

theorem encodeEntries_singleton (p : UInt32) (d : PageData) :
    encodeEntries [(p, d)] = walEntry p d := by
  rw [encodeEntries_cons, encodeEntries_nil, List.append_nil]

theorem length_encodeEntries (es : List WalEntry) :
    (encodeEntries es).length = es.length * WAL_ENTRY_SIZE := by
  induction es with
  | nil => simp
  | cons e es ih =>
    rw [encodeEntries_cons, List.length_append, length_walEntry, ih, List.length_cons,
      Nat.add_mul, Nat.one_mul, Nat.add_comm]

/-- The entry at the front of `bs`: complete, and with a checksum that matches. -/
def decodeEntry (bs : List UInt8) : Option WalEntry :=
  match readExact bs 0 WAL_ENTRY_SIZE with
  | none => none
  | some entry =>
    let pageId := u32At entry 0
    match PageData.ofBytes? (slice entry 8 PAGE_SIZE) with
    | none => none
    | some data => if u32At entry 4 ≠ checksum pageId data.bytes then none else some (pageId, data)

/-! ## The log -/

/-- The in-memory index: page id to byte offset of its latest entry. -/
abbrev WalIndex := AList (fun _ : UInt32 => Nat)

structure WalFile where
  file : ByteFile
  offsets : WalIndex
  len : Nat

/-- The loop of `load_index`. -/
def loadLoop (file : ByteFile) (offset : Nat) (offsets : WalIndex) : WalIndex × Nat :=
  match _h : readExact file offset WAL_ENTRY_SIZE with
  | none => (offsets, offset)
  | some entry =>
    let pageId := u32At entry 0
    if u32At entry 4 ≠ checksum pageId (slice entry 8 PAGE_SIZE) then (offsets, offset)
    else loadLoop file (offset + WAL_ENTRY_SIZE) (offsets.insert pageId offset)
termination_by file.length - offset
decreasing_by
  have hle : offset + WAL_ENTRY_SIZE ≤ file.length := by
    by_contra hlt
    rw [readExact_eq_none (by omega)] at _h
    cases _h
  have : 0 < WAL_ENTRY_SIZE := by decide
  omega

/-- `load_index`, called with the index cleared. -/
def loadIndex (file : ByteFile) : WalFile :=
  let r := loadLoop file 0 ∅
  { file := file, offsets := r.1, len := r.2 }

namespace WalFile

/-- `WalFile::open`. -/
def openWal (file : ByteFile) : WalFile := loadIndex file

def contains (w : WalFile) (pageId : UInt32) : Bool := (w.offsets.lookup pageId).isSome

def isEmpty (w : WalFile) : Bool := w.offsets.keys.isEmpty

def currentLen (w : WalFile) : Nat := w.len

/-- `WalFile::read`. -/
def read (w : WalFile) (pageId : UInt32) : Except GraphError (Option PageData) :=
  match w.offsets.lookup pageId with
  | none => .ok none
  | some offset =>
    match readExact w.file offset WAL_ENTRY_SIZE with
    | none => .error .io
    | some entry =>
      match PageData.ofBytes? (slice entry 8 PAGE_SIZE) with
      | none => .error (.storageCorrupted pageId)
      | some data => .ok (some data)

/-- `WalFile::write`: append an entry at the logical end. -/
def write (w : WalFile) (pageId : UInt32) (data : PageData) : WalFile where
  file := writeAll w.file w.len (walEntry pageId data)
  offsets := w.offsets.insert pageId w.len
  len := w.len + WAL_ENTRY_SIZE

/-- `WalFile::truncate_to`. -/
def truncateTo (w : WalFile) (targetLen : Nat) : WalFile := loadIndex (setLen w.file targetLen)

end WalFile

/-- The order in which a `HashMap` hands out its entries: any order, a new one at each visit. -/
structure HashOrder where
  visit : List (Σ _ : UInt32, Nat) → List (Σ _ : UInt32, Nat)
  perm : ∀ l, (visit l).Perm l

/-- The order in which the entries are stored in the model. -/
def HashOrder.id : HashOrder := ⟨fun l => l, fun _ => .refl _⟩

instance : Inhabited HashOrder := ⟨HashOrder.id⟩

namespace WalFile

/-- The copy loop of `checkpoint`: each visited entry's page goes to the main file. -/
def copyEntries (w : WalFile) : List (Σ _ : UInt32, Nat) → ByteFile → Except GraphError Unit × ByteFile
  | [], main => (.ok (), main)
  | ⟨pageId, offset⟩ :: rest, main =>
    match readExact w.file offset WAL_ENTRY_SIZE with
    | none => (.error .io, main)
    | some entry =>
      copyEntries w rest (writeAll main (pageId.toNat * PAGE_SIZE) (slice entry 8 PAGE_SIZE))

/-- `WalFile::checkpoint`: copy every indexed page to the main file, then clear the log. -/
def checkpoint (w : WalFile) (order : HashOrder) (main : ByteFile) :
    Except GraphError Unit × WalFile × ByteFile :=
  match w.copyEntries (order.visit w.offsets.entries) main with
  | (.error e, main) => (.error e, w, main)
  | (.ok (), main) => (.ok (), { file := setLen w.file 0, offsets := ∅, len := 0 }, main)

end WalFile

/-! ## The checksum -/

theorem checksum_append (p : UInt32) (a b : List UInt8) :
    checksum p (a ++ b) = checksum (checksum p a) b := List.foldl_append ..

theorem checksum_toNat (p : UInt32) (l : List UInt8) :
    (checksum p l).toNat = (p.toNat + (l.map UInt8.toNat).sum) % 2 ^ 32 := by
  induction l generalizing p with
  | nil =>
    have := p.toNat_lt
    simp only [checksum, List.foldl_nil, List.map_nil, List.sum_nil]
    omega
  | cons b l ih =>
    have hcons : checksum p (b :: l) = checksum (p + b.toUInt32) l := rfl
    rw [hcons, ih, UInt32.toNat_add, UInt8.toNat_toUInt32, List.map_cons, List.sum_cons]
    omega

theorem checksum_zeros (p : UInt32) (n : Nat) : checksum p (List.replicate n 0) = p := by
  apply UInt32.toNat_inj.1
  have := p.toNat_lt
  have hsum : ((List.replicate n (0 : UInt8)).map UInt8.toNat).sum = 0 := by
    rw [List.map_replicate, UInt8.toNat_zero, List.sum_replicate_nat, Nat.mul_zero]
  rw [checksum_toNat, hsum]
  omega

theorem sum_le (l : List UInt8) : (l.map UInt8.toNat).sum ≤ 255 * l.length := by
  induction l with
  | nil => simp
  | cons b l ih =>
    have := b.toNat_lt
    rw [List.map_cons, List.sum_cons, List.length_cons]
    omega

theorem eq_zeros_of_sum {l : List UInt8} (h : (l.map UInt8.toNat).sum = 0) :
    l = List.replicate l.length 0 := by
  induction l with
  | nil => rfl
  | cons b l ih =>
    rw [List.map_cons, List.sum_cons] at h
    have hb : b = 0 := UInt8.toNat_inj.1 (by rw [UInt8.toNat_zero]; omega)
    rw [hb, List.length_cons, List.replicate_succ]
    congr 1
    exact ih (by omega)

/-- Zeroing the end of a page that is shorter than the checksum's period shows in the checksum. -/
theorem eq_zeros_of_checksum {p : UInt32} {a z : List UInt8} (hz : z.length ≤ PAGE_SIZE)
    (h : checksum p (a ++ z) = checksum p (a ++ List.replicate z.length 0)) :
    z = List.replicate z.length 0 := by
  apply eq_zeros_of_sum
  rw [checksum_append, checksum_append, checksum_zeros] at h
  have hn := congrArg UInt32.toNat h
  have hq := (checksum p a).toNat_lt
  have hs := sum_le z
  rw [checksum_toNat] at hn
  unfold PAGE_SIZE at hz
  omega

/-! ## The scan -/

/-- The decoder on an entry given by its three fields. -/
theorem decodeEntry_fields (p cs : UInt32) (d : PageData) (rest : List UInt8) :
    decodeEntry (u32Bytes p ++ (u32Bytes cs ++ d.bytes) ++ rest) =
      if cs ≠ checksum p d.bytes then none else some (p, d) := by
  have hlen : (u32Bytes p ++ (u32Bytes cs ++ d.bytes)).length = WAL_ENTRY_SIZE := by
    simp only [List.length_append, length_u32Bytes, d.size_eq]; rfl
  have hread : readExact (u32Bytes p ++ (u32Bytes cs ++ d.bytes) ++ rest) 0 WAL_ENTRY_SIZE =
      some (u32Bytes p ++ (u32Bytes cs ++ d.bytes)) := readExact_append (a := []) rfl hlen.symm
  have hp : u32At (u32Bytes p ++ (u32Bytes cs ++ d.bytes)) 0 = p := u32At_of_slice (by
    rw [slice_append_left (by simp)]
    exact slice_zero_length (u32Bytes p))
  have hc : u32At (u32Bytes p ++ (u32Bytes cs ++ d.bytes)) 4 = cs := u32At_of_slice (by
    rw [slice_append_right (by simp), length_u32Bytes, Nat.sub_self, slice_append_left (by simp)]
    exact slice_zero_length (u32Bytes cs))
  have hd : slice (u32Bytes p ++ (u32Bytes cs ++ d.bytes)) 8 PAGE_SIZE = d.bytes := by
    rw [slice_append_right (by simp), slice_append_right (by simp)]
    simp only [length_u32Bytes]
    rw [← d.size_eq]
    exact slice_zero_length d.bytes
  unfold decodeEntry
  simp only [hread, hp, hc, hd, PageData.ofBytes?_bytes]

theorem decodeEntry_walEntry (p : UInt32) (d : PageData) (rest : List UInt8) :
    decodeEntry (walEntry p d ++ rest) = some (p, d) := by
  rw [walEntry, decodeEntry_fields, if_neg (not_not.2 rfl)]

/-- A decoded entry is the genuine encoding of what it decodes to. -/
theorem eq_walEntry_of_decodeEntry {bs : List UInt8} {p : UInt32} {d : PageData}
    (h : decodeEntry bs = some (p, d)) : bs = walEntry p d ++ bs.drop WAL_ENTRY_SIZE := by
  unfold decodeEntry at h
  split at h
  · cases h
  rename_i entry hread
  split at h
  · cases h
  rename_i data hdata
  simp only at h
  split at h
  · cases h
  rename_i hcs
  rw [not_ne_iff] at hcs
  injection h with h
  injection h with hp hd
  subst hp hd
  unfold readExact at hread
  split at hread
  swap
  · cases hread
  rename_i hlen
  have hentry : bs.take WAL_ENTRY_SIZE = entry := by simpa [slice] using hread
  have helen : entry.length = WAL_ENTRY_SIZE := by
    rw [← hentry, List.length_take]; omega
  have hbytes : slice entry 8 PAGE_SIZE = data.bytes := by
    unfold PageData.ofBytes? at hdata
    split at hdata
    · cases hdata; rfl
    · cases hdata
  have h8 : entry = slice entry 0 4 ++ (slice entry 4 4 ++ slice entry 8 PAGE_SIZE) := by
    simp only [slice, List.drop_zero]
    have e3 : (entry.drop 8).take PAGE_SIZE = entry.drop 8 :=
      List.take_of_length_le (by rw [List.length_drop, helen]; decide)
    have e2 : (entry.drop 4).take 4 ++ entry.drop 8 = entry.drop 4 := by
      have : entry.drop 8 = (entry.drop 4).drop 4 := by rw [List.drop_drop]
      rw [this, List.take_append_drop]
    rw [e3, e2, List.take_append_drop]
  have hw : entry = walEntry (u32At entry 0) data := by
    unfold walEntry
    have hsz : 8 ≤ entry.length := by rw [helen]; decide
    rw [← hcs, ← hbytes, u32Bytes_u32At (by omega), u32Bytes_u32At (by omega)]
    exact h8
  rw [← hw, ← hentry, List.take_append_drop]

/-- Every file is a list of valid entries and a remainder that starts with none. -/
theorem exists_decomp (f : ByteFile) :
    ∃ es rest, f = encodeEntries es ++ rest ∧ decodeEntry rest = none := by
  induction hn : f.length using Nat.strong_induction_on generalizing f with
  | _ n ih =>
    cases hd : decodeEntry f with
    | none => exact ⟨[], f, rfl, hd⟩
    | some e =>
      obtain ⟨p, d⟩ := e
      have hf := eq_walEntry_of_decodeEntry hd
      have hlen := congrArg List.length hf
      rw [List.length_append, length_walEntry] at hlen
      have hpos : 0 < WAL_ENTRY_SIZE := by decide
      obtain ⟨es, rest, he, hr⟩ :=
        ih (f.drop WAL_ENTRY_SIZE).length (by omega) (f.drop WAL_ENTRY_SIZE) rfl
      refine ⟨(p, d) :: es, rest, ?_, hr⟩
      rw [encodeEntries_cons, List.append_assoc, ← he]
      exact hf

/-- The index of a list of entries, the first of them at offset `off`. -/
def indexFrom (off : Nat) (acc : WalIndex) : List WalEntry → WalIndex
  | [] => acc
  | (p, _) :: es => indexFrom (off + WAL_ENTRY_SIZE) (acc.insert p off) es

/-- The index of the entries of a log. -/
def indexOf (es : List WalEntry) : WalIndex := indexFrom 0 ∅ es

theorem indexFrom_concat (off : Nat) (acc : WalIndex) (es : List WalEntry) (e : WalEntry) :
    indexFrom off acc (es ++ [e]) =
      (indexFrom off acc es).insert e.1 (off + es.length * WAL_ENTRY_SIZE) := by
  induction es generalizing off acc with
  | nil => simp [indexFrom]
  | cons x es ih =>
    rw [List.cons_append, indexFrom, ih, indexFrom, List.length_cons]
    congr 1
    rw [Nat.add_mul, Nat.one_mul]
    omega

theorem indexOf_concat (es : List WalEntry) (p : UInt32) (d : PageData) :
    indexOf (es ++ [(p, d)]) = (indexOf es).insert p (es.length * WAL_ENTRY_SIZE) := by
  rw [indexOf, indexFrom_concat, Nat.zero_add, indexOf]

/-- What an index entry points at. -/
theorem lookup_indexOf (es : List WalEntry) (p : UInt32) :
    ((indexOf es).lookup p = none ∧ latest es p = none) ∨
    ∃ pre d post, es = pre ++ (p, d) :: post ∧ latest es p = some d ∧
      (indexOf es).lookup p = some (pre.length * WAL_ENTRY_SIZE) := by
  induction es using List.reverseRecOn with
  | nil => exact .inl ⟨AList.lookup_empty p, rfl⟩
  | append_singleton es e ih =>
    obtain ⟨q, a⟩ := e
    rw [indexOf_concat]
    by_cases hq : q = p
    · subst hq
      refine .inr ⟨es, a, [], rfl, ?_, AList.lookup_insert _⟩
      rw [latest_concat, if_pos rfl]
    · rw [AList.lookup_insert_ne (Ne.symm hq), latest_concat, if_neg hq]
      rcases ih with ih | ⟨pre, d, post, he, hl, hi⟩
      · exact .inl ih
      · refine .inr ⟨pre, d, post ++ [(q, a)], ?_, hl, hi⟩
        rw [he, List.append_assoc, List.cons_append]

/-- One round of `load_index`'s loop. -/
theorem loadLoop_eq (file : ByteFile) (off : Nat) (acc : WalIndex) (h : off ≤ file.length) :
    loadLoop file off acc =
      match decodeEntry (file.drop off) with
      | none => (acc, off)
      | some (p, _) => loadLoop file (off + WAL_ENTRY_SIZE) (acc.insert p off) := by
  rw [loadLoop.eq_def]
  unfold decodeEntry
  rw [readExact_drop file off _ h]
  cases hread : readExact file off WAL_ENTRY_SIZE with
  | none => rfl
  | some entry =>
    have hlen : entry.length = WAL_ENTRY_SIZE := by
      unfold readExact at hread
      split at hread
      · cases hread; exact length_slice (by assumption)
      · cases hread
    have hdata : PageData.ofBytes? (slice entry 8 PAGE_SIZE) =
        some ⟨slice entry 8 PAGE_SIZE, length_slice (by rw [hlen]; decide)⟩ := by
      unfold PageData.ofBytes?
      rw [dif_pos (length_slice (by rw [hlen]; decide))]
    simp only [hdata]
    split <;> rfl

theorem loadLoop_spec (es : List WalEntry) (pre rest : List UInt8) (acc : WalIndex)
    (hrest : decodeEntry rest = none) :
    loadLoop (pre ++ (encodeEntries es ++ rest)) pre.length acc =
      (indexFrom pre.length acc es, pre.length + es.length * WAL_ENTRY_SIZE) := by
  induction es generalizing pre acc with
  | nil =>
    rw [loadLoop_eq _ _ _ (by simp), List.drop_left]
    simp [hrest, indexFrom]
  | cons e es ih =>
    obtain ⟨p, d⟩ := e
    rw [loadLoop_eq _ _ _ (by simp), List.drop_left, encodeEntries_cons, List.append_assoc,
      decodeEntry_walEntry]
    have hlen : pre.length + WAL_ENTRY_SIZE = (pre ++ walEntry p d).length := by
      rw [List.length_append, length_walEntry]
    simp only
    rw [hlen, ← List.append_assoc, ih, ← hlen, indexFrom, List.length_cons, Nat.add_mul,
      Nat.one_mul, Nat.add_assoc, Nat.add_comm WAL_ENTRY_SIZE]

/-- **`load_index` recovers exactly the entries in front of the first invalid one.** -/
theorem loadIndex_spec (es : List WalEntry) (rest : List UInt8) (hrest : decodeEntry rest = none) :
    loadIndex (encodeEntries es ++ rest) =
      { file := encodeEntries es ++ rest, offsets := indexOf es,
        len := es.length * WAL_ENTRY_SIZE } := by
  have h := loadLoop_spec es [] rest ∅ hrest
  rw [List.nil_append, List.length_nil, Nat.zero_add] at h
  unfold loadIndex indexOf
  rw [h]

/-! ## Pages of the main file -/

/-- `file.seek(page_id * PAGE_SIZE); file.write_all(page)`. -/
def writeMain (main : ByteFile) (pageId : UInt32) (data : PageData) : ByteFile :=
  writeAll main (pageId.toNat * PAGE_SIZE) data.bytes

/-- Page `pageId` of the main file, padded with zeros. -/
def mainPage (main : ByteFile) (pageId : UInt32) : PageData :=
  ⟨block PAGE_SIZE main pageId.toNat, length_block ..⟩

/-- The main file after the entries are copied over it one by one. -/
def replay (es : List WalEntry) (main : ByteFile) : ByteFile :=
  es.foldl (fun f e => writeMain f e.1 e.2) main

theorem block_writeMain (f : ByteFile) (q : UInt32) (d : PageData) (p : Nat) :
    block PAGE_SIZE (writeMain f q d) p = if p = q.toNat then d.bytes else block PAGE_SIZE f p :=
  block_writeAll f q.toNat d.size_eq p

theorem length_writeMain_le (f : ByteFile) (q : UInt32) (d : PageData) (n : Nat) :
    (writeMain f q d).length ≤ n ↔ f.length ≤ n ∧ q.toNat * PAGE_SIZE + PAGE_SIZE ≤ n := by
  rw [writeMain, length_writeAll, d.size_eq, Nat.max_le]

@[simp] theorem mainPage_bytes (main : ByteFile) (p : UInt32) :
    (mainPage main p).bytes = block PAGE_SIZE main p.toNat := rfl

@[simp] theorem replay_nil (main : ByteFile) : replay [] main = main := rfl

theorem replay_append (es fs : List WalEntry) (f : ByteFile) :
    replay (es ++ fs) f = replay fs (replay es f) := List.foldl_append ..

theorem length_replay_le (es : List WalEntry) (f : ByteFile) (n : Nat) :
    (replay es f).length ≤ n ↔
      f.length ≤ n ∧ ∀ e ∈ es, e.1.toNat * PAGE_SIZE + PAGE_SIZE ≤ n := by
  induction es using List.reverseRecOn with
  | nil => simp [replay]
  | append_singleton es e ih =>
    rw [replay_append]
    show (writeMain _ e.1 e.2).length ≤ n ↔ _
    rw [length_writeMain_le, ih, and_assoc]
    simp [or_imp, forall_and]

theorem block_replay (es : List WalEntry) (f : ByteFile) (p : UInt32) :
    block PAGE_SIZE (replay es f) p.toNat =
      ((latest es p).map PageData.bytes).getD (block PAGE_SIZE f p.toNat) := by
  induction es using List.reverseRecOn with
  | nil => simp
  | append_singleton es e ih =>
    obtain ⟨q, d⟩ := e
    rw [replay_append, latest_concat]
    show block PAGE_SIZE (writeMain _ q d) p.toNat = _
    rw [block_writeMain, ih]
    by_cases h : q = p
    · subst h; simp
    · rw [if_neg h, if_neg (fun he => h (UInt32.toNat_inj.1 he).symm)]

theorem block_replay_of_le (es : List WalEntry) (f : ByteFile) {p : Nat} (hp : 2 ^ 32 ≤ p) :
    block PAGE_SIZE (replay es f) p = block PAGE_SIZE f p := by
  induction es using List.reverseRecOn with
  | nil => rw [replay_nil]
  | append_singleton es e ih =>
    rw [replay_append]
    show block PAGE_SIZE (writeMain _ e.1 e.2) p = _
    have := e.1.toNat_lt
    rw [block_writeMain, if_neg (by omega), ih]

theorem mainPage_replay (es : List WalEntry) (f : ByteFile) (p : UInt32) :
    mainPage (replay es f) p = (latest es p).getD (mainPage f p) := by
  apply PageData.ext
  rw [mainPage_bytes, block_replay]
  cases latest es p <;> simp

/-- Two replayed files of one length are equal when their bases and the latest entries agree. -/
theorem replay_ext {es fs : List WalEntry} {f g : ByteFile}
    (hlen : (replay es f).length = (replay fs g).length)
    (hbase : ∀ p, block PAGE_SIZE f p = block PAGE_SIZE g p)
    (h : ∀ p, latest es p = latest fs p) : replay es f = replay fs g := by
  apply ext_block (k := PAGE_SIZE) (by decide) hlen
  intro p
  by_cases hp : p < 2 ^ 32
  · have hto : (UInt32.ofNat p).toNat = p := by
      rw [UInt32.toNat_ofNat']; exact Nat.mod_eq_of_lt hp
    rw [← hto, block_replay, block_replay, h, hbase]
  · rw [block_replay_of_le es f (by omega), block_replay_of_le fs g (by omega), hbase]

/-- A bound on the pages of one journal bounds those of another with the same latest entries. -/
theorem pages_le_of_latest {es fs : List WalEntry} (h : ∀ p, latest es p = latest fs p) {n : Nat}
    (hn : ∀ e ∈ fs, e.1.toNat * PAGE_SIZE + PAGE_SIZE ≤ n) :
    ∀ e ∈ es, e.1.toNat * PAGE_SIZE + PAGE_SIZE ≤ n := by
  intro e he
  have hs : (latest es e.1).isSome := latest_isSome_iff.2 ⟨e, he, rfl⟩
  rw [h, latest_isSome_iff] at hs
  obtain ⟨e', he', hq⟩ := hs
  rw [← hq]
  exact hn e' he'

/-- **Only the latest entry of each page matters.** -/
theorem replay_congr {es fs : List WalEntry} (f : ByteFile)
    (h : ∀ p, latest es p = latest fs p) : replay es f = replay fs f := by
  refine replay_ext ?_ (fun _ => rfl) h
  apply Nat.le_antisymm
  · have hle := (length_replay_le fs f _).1 (Nat.le_refl _)
    exact (length_replay_le es f _).2 ⟨hle.1, pages_le_of_latest h hle.2⟩
  · have hle := (length_replay_le es f _).1 (Nat.le_refl _)
    exact (length_replay_le fs f _).2 ⟨hle.1, pages_le_of_latest (fun p => (h p).symm) hle.2⟩

/-! ## The invariant of an open log -/

/-- `w` holds exactly the entries `es`; the file may carry bytes behind them. -/
structure Holds (w : WalFile) (es : List WalEntry) (rest : List UInt8) : Prop where
  file : w.file = encodeEntries es ++ rest
  offsets : w.offsets = indexOf es
  len : w.len = es.length * WAL_ENTRY_SIZE

theorem Holds.openWal (es : List WalEntry) {rest : List UInt8} (hrest : decodeEntry rest = none) :
    Holds (WalFile.openWal (encodeEntries es ++ rest)) es rest := by
  rw [WalFile.openWal, loadIndex_spec es rest hrest]
  exact ⟨rfl, rfl, rfl⟩

/-- Appending overwrites one entry's worth of the bytes behind the log. -/
theorem Holds.write {w : WalFile} {es : List WalEntry} {rest : List UInt8} (h : Holds w es rest)
    (p : UInt32) (d : PageData) :
    Holds (w.write p d) (es ++ [(p, d)]) (rest.drop WAL_ENTRY_SIZE) where
  file := by
    show writeAll w.file w.len (walEntry p d) = _
    rw [h.file, h.len, ← length_encodeEntries, writeAll_append, length_walEntry,
      encodeEntries_append, encodeEntries_singleton]
  offsets := by
    show w.offsets.insert p w.len = _
    rw [h.offsets, h.len, indexOf_concat]
  len := by
    show w.len + WAL_ENTRY_SIZE = _
    rw [h.len, List.length_append, List.length_singleton, Nat.add_mul, Nat.one_mul]

theorem decodeEntry_of_length_lt {bs : List UInt8} (h : bs.length < WAL_ENTRY_SIZE) :
    decodeEntry bs = none := by
  unfold decodeEntry
  rw [readExact_eq_none (by omega)]

theorem decodeEntry_nil : decodeEntry [] = none := decodeEntry_of_length_lt (by decide)

/-- **Rollback**: truncating to an earlier length leaves the entries written before it. -/
theorem Holds.truncateTo {w : WalFile} {es fs : List WalEntry} {rest : List UInt8}
    (h : Holds w (es ++ fs) rest) : Holds (w.truncateTo (es.length * WAL_ENTRY_SIZE)) es [] := by
  have hfile : setLen w.file (es.length * WAL_ENTRY_SIZE) = encodeEntries es := by
    rw [h.file, setLen_of_le (by
      rw [encodeEntries_append, List.length_append, List.length_append, length_encodeEntries]
      omega), encodeEntries_append, List.append_assoc, ← length_encodeEntries, List.take_left]
  unfold WalFile.truncateTo
  rw [hfile]
  have := Holds.openWal es decodeEntry_nil
  rwa [List.append_nil] at this

/-- The bytes of the entry an index slot points at. -/
theorem Holds.readExact_lookup {w : WalFile} {es : List WalEntry} {rest : List UInt8}
    (h : Holds w es rest) {p : UInt32} {off : Nat} (hl : w.offsets.lookup p = some off) :
    ∃ d, latest es p = some d ∧ readExact w.file off WAL_ENTRY_SIZE = some (walEntry p d) := by
  rw [h.offsets] at hl
  rcases lookup_indexOf es p with ⟨hn, _⟩ | ⟨pre, d, post, he, hlat, hoff⟩
  · rw [hn] at hl; cases hl
  · rw [hoff] at hl
    injection hl with hl
    refine ⟨d, hlat, ?_⟩
    rw [h.file, he, encodeEntries_append, encodeEntries_cons, List.append_assoc,
      List.append_assoc]
    exact readExact_append (by rw [length_encodeEntries, hl]) (length_walEntry p d).symm

theorem slice_walEntry (p : UInt32) (d : PageData) : slice (walEntry p d) 8 PAGE_SIZE = d.bytes := by
  rw [walEntry, slice_append_right (by simp), slice_append_right (by simp)]
  simp only [length_u32Bytes]
  rw [← d.size_eq]
  exact slice_zero_length d.bytes

theorem Holds.lookup_eq_none {w : WalFile} {es : List WalEntry} {rest : List UInt8}
    (h : Holds w es rest) {p : UInt32} : w.offsets.lookup p = none ↔ latest es p = none := by
  rw [h.offsets]
  rcases lookup_indexOf es p with ⟨h1, h2⟩ | ⟨pre, d, post, _, h1, h2⟩ <;> simp [h1, h2]

/-- **Reading a page returns its latest entry.** -/
theorem Holds.read {w : WalFile} {es : List WalEntry} {rest : List UInt8} (h : Holds w es rest)
    (p : UInt32) : w.read p = .ok (latest es p) := by
  unfold WalFile.read
  cases hl : w.offsets.lookup p with
  | none => rw [h.lookup_eq_none.1 hl]
  | some off =>
    obtain ⟨d, hlat, hread⟩ := h.readExact_lookup hl
    simp only [hread, slice_walEntry, PageData.ofBytes?_bytes, hlat]

theorem Holds.isEmpty {w : WalFile} {es : List WalEntry} {rest : List UInt8} (h : Holds w es rest) :
    w.isEmpty = true ↔ es = [] := by
  unfold WalFile.isEmpty
  rw [List.isEmpty_iff]
  constructor
  · intro hk
    cases es with
    | nil => rfl
    | cons e es =>
      exfalso
      have hs : (latest (e :: es) e.1).isSome := latest_isSome_iff.2 ⟨e, List.mem_cons_self, rfl⟩
      have hn : w.offsets.lookup e.1 = none := by
        rw [AList.lookup_eq_none, AList.mem_keys, hk]; simp
      rw [h.lookup_eq_none.1 hn] at hs
      cases hs
  · rintro rfl
    rw [h.offsets]; rfl

/-! ## Checkpoint -/

/-- The journal that visits the index entries `l` in that order. -/
def visited (es : List WalEntry) (l : List (Σ _ : UInt32, Nat)) : List WalEntry :=
  l.map (fun s => (s.1, (latest es s.1).getD PageData.zero))

theorem latest_visited {es : List WalEntry} {l : List (Σ _ : UInt32, Nat)}
    (hl : ∀ s ∈ l, (latest es s.1).isSome) (p : UInt32) :
    latest (visited es l) p = if (∃ s ∈ l, s.1 = p) then latest es p else none := by
  induction l with
  | nil => simp [visited]
  | cons s l ih =>
    have ih' := ih (fun t ht => hl t (List.mem_cons_of_mem _ ht))
    have hs := hl s List.mem_cons_self
    unfold visited at ih' ⊢
    rw [List.map_cons, latest, ih']
    by_cases hsp : s.1 = p
    · subst hsp
      obtain ⟨d, hd⟩ := Option.isSome_iff_exists.1 hs
      simp only [List.mem_cons, exists_eq_or_imp, true_or, if_true, hd, Option.getD_some]
      split <;> rfl
    · simp only [List.mem_cons, exists_eq_or_imp, hsp, false_or, if_false, Option.or_none]

theorem Holds.copyEntries {w : WalFile} {es : List WalEntry} {rest : List UInt8}
    (h : Holds w es rest) {l : List (Σ _ : UInt32, Nat)}
    (hl : ∀ s ∈ l, w.offsets.lookup s.1 = some s.2) (main : ByteFile) :
    w.copyEntries l main = (.ok (), replay (visited es l) main) := by
  induction l generalizing main with
  | nil => rfl
  | cons s l ih =>
    obtain ⟨p, off⟩ := s
    obtain ⟨d, hlat, hread⟩ := h.readExact_lookup (hl ⟨p, off⟩ List.mem_cons_self)
    unfold WalFile.copyEntries
    rw [hread]
    simp only [slice_walEntry]
    rw [ih (fun t ht => hl t (List.mem_cons_of_mem _ ht))]
    simp only [visited, List.map_cons, hlat, Option.getD_some]
    rfl

theorem Holds.mem_entries {w : WalFile} {es : List WalEntry} {rest : List UInt8}
    (h : Holds w es rest) (p : UInt32) :
    (∃ s ∈ w.offsets.entries, s.1 = p) ↔ (latest es p).isSome := by
  have hk : (∃ s ∈ w.offsets.entries, s.1 = p) ↔ p ∈ w.offsets := by
    rw [AList.mem_keys]
    show _ ↔ p ∈ w.offsets.entries.keys
    rw [List.mem_keys]
    constructor
    · rintro ⟨⟨q, off⟩, hs, rfl⟩; exact ⟨off, hs⟩
    · rintro ⟨off, hs⟩; exact ⟨⟨p, off⟩, hs, rfl⟩
  rw [hk, ← not_iff_not, ← AList.lookup_eq_none, h.lookup_eq_none]
  simp

/-- **The checkpoint writes what replaying the log writes**, in whatever order it visits the
    index, and leaves the log empty. -/
theorem Holds.checkpoint {w : WalFile} {es : List WalEntry} {rest : List UInt8}
    (h : Holds w es rest) (order : HashOrder) (main : ByteFile) :
    w.checkpoint order main = (.ok (), { file := [], offsets := ∅, len := 0 }, replay es main) := by
  have hmem : ∀ s, s ∈ order.visit w.offsets.entries ↔ s ∈ w.offsets.entries :=
    fun s => (order.perm w.offsets.entries).mem_iff
  have hl : ∀ s ∈ order.visit w.offsets.entries, w.offsets.lookup s.1 = some s.2 :=
    fun s hs => AList.mem_lookup_iff.2 ((hmem s).1 hs)
  unfold WalFile.checkpoint
  rw [h.copyEntries hl main, setLen_zero]
  simp only [Prod.mk.injEq, true_and]
  apply replay_congr
  intro p
  rw [latest_visited]
  · by_cases hp : ∃ s ∈ w.offsets.entries, s.1 = p
    · rw [if_pos]
      obtain ⟨s, hs, he⟩ := hp
      exact ⟨s, (hmem s).2 hs, he⟩
    · rw [if_neg]
      · rw [h.mem_entries] at hp
        simpa using Eq.symm (Option.not_isSome_iff_eq_none.1 hp)
      · rintro ⟨s, hs, he⟩
        exact hp ⟨s, (hmem s).1 hs, he⟩
  · intro s hs
    exact (h.mem_entries s.1).1 ⟨s, (hmem s).1 hs, rfl⟩

end ChiffonDB
