import ChiffonDB.Storage.Basic

/-!
# Page chains for blobs

Values longer than a page are cut into chunks of `CHAIN_DATA_PER_PAGE` bytes, one a page; each
page carries the number of the next one and its chunk's length (`storage/property.rs`).

* `take_chunks` — the chunks put together are the data.
* `readBlobChain_writeBlobChain` — **reading a written chain gives the data back, at every length**.
* `readBlobChainDense_chain` — so does concatenating the pages, whatever their links.
-/

set_option autoImplicit false

namespace ChiffonDB

open Bytes

def CHAIN_HEADER_SIZE : Nat := 8

def NO_NEXT_PAGE : UInt32 := 0xFFFFFFFF

def CHAIN_DATA_PER_PAGE : Nat := PAGE_SIZE - CHAIN_HEADER_SIZE

/-- `pages_needed`: one page even for an empty blob. -/
def pagesNeeded (dataLen : Nat) : Nat :=
  max ((dataLen + (CHAIN_DATA_PER_PAGE - 1)) / CHAIN_DATA_PER_PAGE) 1

/-- `&data[i * CHAIN_DATA_PER_PAGE..min((i + 1) * CHAIN_DATA_PER_PAGE, data.len())]`. -/
def chunk (data : List UInt8) (i : Nat) : List UInt8 :=
  slice data (i * CHAIN_DATA_PER_PAGE) CHAIN_DATA_PER_PAGE

theorem length_chunk_le (data : List UInt8) (i : Nat) : (chunk data i).length ≤ CHAIN_DATA_PER_PAGE := by
  unfold chunk slice
  rw [List.length_take]
  exact Nat.min_le_left ..

/-- The chain page of chunk `i`: its link, the chunk's length and the chunk, on a page of zeros. -/
def chainPage (next : UInt32) (data : List UInt8) (i : Nat) : PageData where
  bytes := u32Bytes next ++ (u32Bytes (UInt32.ofNat (chunk data i).length) ++
    (chunk data i ++ List.replicate (CHAIN_DATA_PER_PAGE - (chunk data i).length) 0))
  size_eq := by
    have := length_chunk_le data i
    simp only [List.length_append, length_u32Bytes, List.length_replicate]
    unfold CHAIN_DATA_PER_PAGE CHAIN_HEADER_SIZE PAGE_SIZE at *
    omega

/-- `write_blob_chain` on a slice of `pages_needed` empty pages, which is what its callers pass:
    the links count from 0. -/
def writeBlobChain (data : List UInt8) : List PageData :=
  let needed := pagesNeeded data.length
  (List.range needed).map fun i =>
    chainPage (if i + 1 < needed then UInt32.ofNat (i + 1) else NO_NEXT_PAGE) data i

/-- The loop of `read_blob_chain`; `fuel` is the number of pages it may still read. -/
def readBlobChainLoop (pages : List PageData) : Nat → Nat → List UInt8 → Except GraphError (List UInt8)
  | 0, pageIdx, _ => .error (.storageCorrupted (UInt32.ofNat pageIdx))
  | fuel + 1, pageIdx, result =>
    match pages[pageIdx]? with
    | none => .error (.storageCorrupted (UInt32.ofNat pageIdx))
    | some page =>
      let next := u32At page.bytes 0
      let chunkLen := (u32At page.bytes 4).toNat
      if chunkLen > CHAIN_DATA_PER_PAGE then .error (.storageCorrupted (UInt32.ofNat pageIdx))
      else
        let result := result ++ slice page.bytes CHAIN_HEADER_SIZE chunkLen
        if next = NO_NEXT_PAGE then .ok result
        else if fuel = 0 then .error (.storageCorrupted (UInt32.ofNat pageIdx))
        else readBlobChainLoop pages fuel next.toNat result

/-- `read_blob_chain`. -/
def readBlobChain (pages : List PageData) : Except GraphError (List UInt8) :=
  readBlobChainLoop pages (pages.length + 1) 0 []

/-- `read_blob_chain_dense`: concatenate the chunks of pages collected in chain order. -/
def readBlobChainDense (pages : List PageData) : Except GraphError (List UInt8) :=
  go 0 pages []
where
  go : Nat → List PageData → List UInt8 → Except GraphError (List UInt8)
    | _, [], result => .ok result
    | idx, page :: pages, result =>
      let chunkLen := (u32At page.bytes 4).toNat
      if CHAIN_HEADER_SIZE + chunkLen > PAGE_SIZE then .error (.storageCorrupted (UInt32.ofNat idx))
      else go (idx + 1) pages (result ++ slice page.bytes CHAIN_HEADER_SIZE chunkLen)

/-! ## The fields of a chain page -/

theorem chainPage_next (next : UInt32) (data : List UInt8) (i : Nat) :
    u32At (chainPage next data i).bytes 0 = next := by
  apply u32At_of_slice
  show slice (u32Bytes next ++ _) 0 4 = _
  rw [slice_append_left (by rw [length_u32Bytes])]
  exact slice_zero_length (u32Bytes next)

theorem chainPage_len (next : UInt32) (data : List UInt8) (i : Nat) :
    (u32At (chainPage next data i).bytes 4).toNat = (chunk data i).length := by
  have hlen := length_chunk_le data i
  have hu : u32At (chainPage next data i).bytes 4 = UInt32.ofNat (chunk data i).length := by
    apply u32At_of_slice
    show slice (u32Bytes next ++ _) 4 4 = _
    rw [slice_append_right (by rw [length_u32Bytes]), length_u32Bytes, Nat.sub_self,
      slice_append_left (by rw [length_u32Bytes])]
    exact slice_zero_length (u32Bytes _)
  rw [hu, UInt32.toNat_ofNat', Nat.mod_eq_of_lt]
  unfold CHAIN_DATA_PER_PAGE CHAIN_HEADER_SIZE PAGE_SIZE at hlen
  omega

theorem chainPage_chunk (next : UInt32) (data : List UInt8) (i : Nat) :
    slice (chainPage next data i).bytes CHAIN_HEADER_SIZE (chunk data i).length = chunk data i := by
  show slice (u32Bytes next ++ _) 8 _ = _
  rw [slice_append_right (by rw [length_u32Bytes]; omega),
    slice_append_right (by rw [length_u32Bytes, length_u32Bytes]), length_u32Bytes,
    length_u32Bytes, slice_append_left (by simp)]
  exact slice_zero_length (chunk data i)

/-- `page[0..4].copy_from_slice(&next.to_le_bytes())`. -/
def PageData.setNext (page : PageData) (next : UInt32) : PageData :=
  page.splice 0 (u32Bytes next) (link_fits next)

theorem setNext_chainPage (next next' : UInt32) (data : List UInt8) (i : Nat) :
    (chainPage next data i).setNext next' = chainPage next' data i := by
  apply PageData.ext
  show splice (chainPage next data i).bytes 0 (u32Bytes next') = (chainPage next' data i).bytes
  unfold splice chainPage
  dsimp only
  rw [List.take_zero, List.nil_append, length_u32Bytes, Nat.zero_add,
    ← length_u32Bytes next, List.drop_left]

/-! ## The chunks of a blob -/

theorem take_chunks (data : List UInt8) (i : Nat) :
    data.take (i * CHAIN_DATA_PER_PAGE) ++ chunk data i =
      data.take ((i + 1) * CHAIN_DATA_PER_PAGE) := by
  unfold chunk slice
  rw [Nat.add_mul, Nat.one_mul, List.take_add]

theorem pagesNeeded_pos (n : Nat) : 0 < pagesNeeded n := Nat.lt_of_lt_of_le Nat.one_pos (Nat.le_max_right ..)

theorem le_pagesNeeded (n : Nat) : n ≤ pagesNeeded n * CHAIN_DATA_PER_PAGE := by
  have h : (n + (CHAIN_DATA_PER_PAGE - 1)) / CHAIN_DATA_PER_PAGE ≤ pagesNeeded n := Nat.le_max_left ..
  have hmul := Nat.mul_le_mul_right CHAIN_DATA_PER_PAGE h
  unfold CHAIN_DATA_PER_PAGE CHAIN_HEADER_SIZE PAGE_SIZE at *
  omega

@[simp] theorem length_writeBlobChain (data : List UInt8) :
    (writeBlobChain data).length = pagesNeeded data.length := by
  simp [writeBlobChain]

theorem getElem?_writeBlobChain {data : List UInt8} {i : Nat} (h : i < pagesNeeded data.length) :
    (writeBlobChain data)[i]? = some (chainPage (if i + 1 < pagesNeeded data.length then
      UInt32.ofNat (i + 1) else NO_NEXT_PAGE) data i) := by
  unfold writeBlobChain
  rw [List.getElem?_map, List.getElem?_range h]
  rfl

/-! ## Round trips -/

theorem chunk_fits (next : UInt32) (data : List UInt8) (i : Nat) :
    ¬ (u32At (chainPage next data i).bytes 4).toNat > CHAIN_DATA_PER_PAGE := by
  rw [chainPage_len]
  exact not_lt.2 (length_chunk_le data i)

/-- From page `i` on, the loop adds the rest of the data. -/
theorem readBlobChainLoop_writeBlobChain {data : List UInt8}
    (hsmall : pagesNeeded data.length < NO_NEXT_PAGE.toNat) {i fuel : Nat}
    (hi : i < pagesNeeded data.length) (hfuel : pagesNeeded data.length < i + fuel) :
    readBlobChainLoop (writeBlobChain data) fuel i (data.take (i * CHAIN_DATA_PER_PAGE)) = .ok data := by
  induction fuel generalizing i with
  | zero => omega
  | succ fuel ih =>
    rw [readBlobChainLoop, getElem?_writeBlobChain hi]
    dsimp only
    rw [if_neg (chunk_fits _ data i), chainPage_next, chainPage_len, chainPage_chunk, take_chunks]
    by_cases hlast : i + 1 < pagesNeeded data.length
    · have hto : (UInt32.ofNat (i + 1)).toNat = i + 1 := by
        rw [UInt32.toNat_ofNat', Nat.mod_eq_of_lt]
        have : NO_NEXT_PAGE.toNat < 2 ^ 32 := by decide
        omega
      have hne : UInt32.ofNat (i + 1) ≠ NO_NEXT_PAGE := by
        intro he
        rw [he] at hto
        omega
      rw [if_pos hlast, if_neg hne, if_neg (by omega), hto]
      exact ih hlast (by omega)
    · have hend : pagesNeeded data.length = i + 1 := by omega
      have hlen := le_pagesNeeded data.length
      rw [hend] at hlen
      rw [if_neg hlast, if_pos rfl, List.take_of_length_le hlen]

/-- **A written chain reads back, at every length whose pages can be numbered.** -/
theorem readBlobChain_writeBlobChain {data : List UInt8}
    (hsmall : pagesNeeded data.length < NO_NEXT_PAGE.toNat) :
    readBlobChain (writeBlobChain data) = .ok data := by
  have h : readBlobChainLoop (writeBlobChain data) (pagesNeeded data.length + 1) 0
      (data.take (0 * CHAIN_DATA_PER_PAGE)) = .ok data :=
    readBlobChainLoop_writeBlobChain hsmall (pagesNeeded_pos _) (by omega)
  rw [Nat.zero_mul, List.take_zero] at h
  unfold readBlobChain
  rw [length_writeBlobChain, h]

theorem readBlobChainDense_go {data : List UInt8} {n : Nat} (nexts : Nat → UInt32) (i : Nat)
    (hn : data.length ≤ (i + n) * CHAIN_DATA_PER_PAGE) :
    readBlobChainDense.go i ((List.range' i n).map fun j => chainPage (nexts j) data j)
      (data.take (i * CHAIN_DATA_PER_PAGE)) = .ok data := by
  induction n generalizing i with
  | zero =>
    rw [Nat.add_zero] at hn
    rw [List.range'_zero, List.map_nil, readBlobChainDense.go, List.take_of_length_le hn]
  | succ n ih =>
    have hfits : ¬ CHAIN_HEADER_SIZE + (u32At (chainPage (nexts i) data i).bytes 4).toNat > PAGE_SIZE := by
      have := chunk_fits (nexts i) data i
      unfold CHAIN_DATA_PER_PAGE CHAIN_HEADER_SIZE PAGE_SIZE at *
      omega
    rw [List.range'_succ, List.map_cons, readBlobChainDense.go]
    rw [if_neg hfits, chainPage_len, chainPage_chunk, take_chunks]
    apply ih
    rwa [Nat.add_right_comm, Nat.add_assoc]

/-- **Pages in chain order give the data back, whatever they are linked to.** -/
theorem readBlobChainDense_chain (data : List UInt8) (nexts : Nat → UInt32) :
    readBlobChainDense ((List.range (pagesNeeded data.length)).map
      fun j => chainPage (nexts j) data j) = .ok data := by
  have hn : data.length ≤ (0 + pagesNeeded data.length) * CHAIN_DATA_PER_PAGE := by
    rw [Nat.zero_add]
    exact le_pagesNeeded _
  have h := readBlobChainDense_go nexts 0 hn
  rw [Nat.zero_mul, List.take_zero, ← List.range_eq_range'] at h
  exact h

end ChiffonDB
