import Mathlib.Order.Fin.Basic
import ChiffonDB.Storage.PropertyIndex

/-!
# Pages of the property index

The byte helpers of `storage/property_index.rs`: entries of 24 bytes behind a link and a count, and the heads of
the buckets on a directory page.

* `entries_push`, `entries_fill` — **what adding an entry and moving the last one into a hole do to a page**.
* `readDirSlot_writeDirSlot`, `readDirSlot_emptyDirPage` — recording the head of a bucket.
-/

set_option autoImplicit false

namespace ChiffonDB

open Bytes

namespace PropertyIndex

open LabelIndex (readNext writeNext writeCount)

/-! ## An entry -/

theorem ofLE_leBytes_toNat (v : UInt64) : UInt64.ofNat (ofLE (leBytes 8 v.toNat)) = v := by
  rw [ofLE_leBytes, Nat.mod_eq_of_lt (by exact v.toNat_lt), UInt64.ofNat_toNat]

/-- The fields of an entry lie in its 24 bytes. -/
theorem readEntry_of_slice {page : PageData} {i : Nat} {e : IndexKey × RecordId}
    (h : slice page.bytes (HEADER + i * ENTRY_SIZE) ENTRY_SIZE = encodeEntry e) : readEntry page i = e := by
  have hsub : ∀ o n, o + n ≤ 24 → slice page.bytes (HEADER + i * ENTRY_SIZE + o) n = slice (encodeEntry e) o n := by
    intro o n hon
    rw [← h]
    exact (slice_slice hon).symm
  obtain ⟨⟨typeId, pathHash, valueHash⟩, rid⟩ := e
  have htype : slice (encodeEntry (⟨typeId, pathHash, valueHash⟩, rid)) 0 2 = u16Bytes typeId := by
    unfold encodeEntry
    rw [slice_append_left (by simp), slice_append_left (by simp), slice_append_left (by simp)]
    simpa using slice_zero_length (u16Bytes typeId)
  have hpath : slice (encodeEntry (⟨typeId, pathHash, valueHash⟩, rid)) 2 8 = leBytes 8 pathHash.toNat := by
    unfold encodeEntry
    rw [slice_append_left (by simp), slice_append_left (by simp), slice_append_right (by simp)]
    simpa using slice_zero_length (leBytes 8 pathHash.toNat)
  have hvalue : slice (encodeEntry (⟨typeId, pathHash, valueHash⟩, rid)) 10 8 = leBytes 8 valueHash.toNat := by
    unfold encodeEntry
    rw [slice_append_left (by simp), slice_append_right (by simp)]
    simpa using slice_zero_length (leBytes 8 valueHash.toNat)
  have hrid : slice (encodeEntry (⟨typeId, pathHash, valueHash⟩, rid)) 18 6 = encodeRecordId6 rid := by
    unfold encodeEntry
    rw [slice_append_right (by simp)]
    simpa using slice_zero_length (encodeRecordId6 rid)
  have h0 : u16At page.bytes (HEADER + i * ENTRY_SIZE) = typeId := by
    apply u16At_of_slice
    rw [← htype, ← hsub 0 2 (by omega), Nat.add_zero]
  unfold readEntry
  dsimp only
  rw [h0, hsub 2 8 (by omega), hsub 10 8 (by omega), hsub 18 6 (by omega), hpath, hvalue, hrid,
    decodeRecordId6_encodeRecordId6, ofLE_leBytes_toNat, ofLE_leBytes_toNat]

section Writers

variable (page : PageData)

theorem entry_bound {i : Nat} (h : i < ENTRIES_PER_PAGE) : HEADER + i * ENTRY_SIZE + ENTRY_SIZE ≤ PAGE_SIZE := by
  unfold ENTRIES_PER_PAGE PAGE_SIZE HEADER ENTRY_SIZE at h
  unfold PAGE_SIZE HEADER ENTRY_SIZE
  omega

/-- An entry depends on its 24 bytes. -/
theorem readEntry_congr {p q : PageData} {i : Nat}
    (h : slice p.bytes (HEADER + i * ENTRY_SIZE) ENTRY_SIZE = slice q.bytes (HEADER + i * ENTRY_SIZE) ENTRY_SIZE) :
    readEntry p i = readEntry q i := by
  have hsub : ∀ o n, o + n ≤ 24 → slice p.bytes (HEADER + i * ENTRY_SIZE + o) n =
      slice q.bytes (HEADER + i * ENTRY_SIZE + o) n := by
    intro o n hon
    have h1 : slice (slice p.bytes (HEADER + i * ENTRY_SIZE) 24) o n = slice p.bytes (HEADER + i * ENTRY_SIZE + o) n :=
      slice_slice hon
    have h2 : slice (slice q.bytes (HEADER + i * ENTRY_SIZE) 24) o n = slice q.bytes (HEADER + i * ENTRY_SIZE + o) n :=
      slice_slice hon
    change slice p.bytes _ 24 = slice q.bytes _ 24 at h
    rw [← h1, ← h2, h]
  unfold readEntry u16At
  dsimp only
  have h0 := hsub 0 2 (by omega)
  rw [Nat.add_zero] at h0
  rw [h0, hsub 2 8 (by omega), hsub 10 8 (by omega), hsub 18 6 (by omega)]

theorem readEntry_writeEntry (idx : Fin ENTRIES_PER_PAGE) (e : IndexKey × RecordId) (i : Nat) :
    readEntry (writeEntry page idx e) i = if i = idx then e else readEntry page i := by
  split
  · rename_i h
    subst h
    refine readEntry_of_slice ?_
    rw [← length_encodeEntry e]
    exact page.slice_splice_self _
  · rename_i h
    refine readEntry_congr (page.slice_splice_ne _ ?_)
    rw [length_encodeEntry]
    unfold ENTRY_SIZE
    omega

theorem readEntry_writeCount (n i : Nat) : readEntry (writeCount page n) i = readEntry page i := by
  refine readEntry_congr (page.slice_splice_ne _ (.inr ?_))
  rw [length_u32Bytes]
  unfold HEADER
  omega

theorem readEntry_writeNext (pid : UInt32) (i : Nat) : readEntry (writeNext page pid) i = readEntry page i := by
  refine readEntry_congr (page.slice_splice_ne _ (.inr ?_))
  rw [length_u32Bytes]
  unfold HEADER
  omega

/-! ## The count -/

theorem readCount_le : readCount page ≤ ENTRIES_PER_PAGE := Nat.min_le_right _ _

theorem readCount_writeCount {n : Nat} (h : n ≤ ENTRIES_PER_PAGE) : readCount (writeCount page n) = n := by
  unfold readCount writeCount
  have hn : (UInt32.ofNat n).toNat = n :=
    UInt32.toNat_ofNat_of_lt' (Nat.lt_of_le_of_lt h (by decide))
  rw [page.u32At_splice_self, hn]
  exact Nat.min_eq_left h

theorem readCount_writeEntry (idx : Fin ENTRIES_PER_PAGE) (e : IndexKey × RecordId) :
    readCount (writeEntry page idx e) = readCount page := by
  unfold readCount writeEntry
  rw [page.u32At_splice_ne _ (.inl (by unfold HEADER; omega))]

theorem readCount_writeNext (pid : UInt32) : readCount (writeNext page pid) = readCount page := by
  unfold readCount writeNext
  rw [page.u32At_splice_ne _ (.inr (by simp))]

theorem readNext_writeEntry (idx : Fin ENTRIES_PER_PAGE) (e : IndexKey × RecordId) :
    readNext (writeEntry page idx e) = readNext page := by
  unfold readNext writeEntry
  rw [page.u32At_splice_ne _ (.inl (by unfold HEADER; omega))]

/-! ## The entries -/

theorem length_entries : (entries page).length = readCount page := by
  simp [entries]

theorem entries_getElem? (i : Nat) :
    (entries page)[i]? = if i < readCount page then some (readEntry page i) else none := by
  unfold entries
  rw [List.getElem?_map]
  split
  case isTrue h =>
    rw [List.getElem?_range h]
    rfl
  case isFalse h =>
    rw [List.getElem?_eq_none (by simpa using Nat.le_of_not_lt h)]
    rfl

theorem entries_writeNext (pid : UInt32) : entries (writeNext page pid) = entries page := by
  unfold entries
  rw [readCount_writeNext]
  exact List.map_congr_left fun i _ => readEntry_writeNext page pid i

/-- An entry behind the last one. -/
theorem entries_push (idx : Fin ENTRIES_PER_PAGE) (h : readCount page = idx) (e : IndexKey × RecordId) :
    entries (writeCount (writeEntry page idx e) (idx + 1)) = entries page ++ [e] := by
  apply List.ext_getElem?
  intro i
  rw [entries_getElem?, readCount_writeCount _ idx.isLt, readEntry_writeCount, readEntry_writeEntry,
    List.getElem?_append, length_entries, entries_getElem?, h]
  rcases Nat.lt_trichotomy i idx with hi | hi | hi
  · rw [if_pos (by omega), if_neg (by omega), if_pos hi, if_pos hi]
  · subst hi
    simp
  · rw [if_neg (by omega), if_neg (by omega), List.getElem?_eq_none (by simp; omega)]

/-- The last entry moves into the place of another one. -/
theorem entries_fill (idx : Fin ENTRIES_PER_PAGE) {l : List (IndexKey × RecordId)} {x : IndexKey × RecordId}
    (h : entries page = l ++ [x]) :
    entries (writeCount (writeEntry page idx (readEntry page (readCount page - 1))) (readCount page - 1)) =
      l.set idx x := by
  have hcount : readCount page = l.length + 1 := by
    rw [← length_entries, h, List.length_append, List.length_singleton]
  have hlast : readEntry page l.length = x := by
    have := entries_getElem? page l.length
    rw [h, if_pos (by omega)] at this
    simpa using this.symm
  rw [hcount, Nat.add_sub_cancel, hlast]
  have hle : l.length ≤ ENTRIES_PER_PAGE := Nat.le_trans (by omega) (readCount_le page)
  apply List.ext_getElem?
  intro i
  rw [entries_getElem?, readCount_writeCount _ hle, readEntry_writeCount, readEntry_writeEntry, List.getElem?_set]
  by_cases hi : i < l.length
  · rw [if_pos hi]
    by_cases hidx : i = idx
    · rw [if_pos hidx, if_pos hidx.symm, if_pos (hidx ▸ hi)]
    · rw [if_neg hidx, if_neg (Ne.symm hidx), ← List.getElem?_append_left hi, ← h, entries_getElem?,
        if_pos (by omega)]
  · rw [if_neg hi, List.getElem?_eq_none (Nat.le_of_not_lt hi)]
    split
    · rw [if_neg (by omega)]
    · rfl

theorem entries_of_count {p : PageData} (h : readCount p = 0) : entries p = [] := by
  rw [← List.length_eq_zero_iff, length_entries, h]

/-! ## Directory pages -/

theorem readDirSlot_writeDirSlot (slot : Fin DIR_SLOTS_PER_PAGE) (pid : UInt32) (i : Nat) :
    readDirSlot (writeDirSlot page slot pid) i = if i = slot then pid else readDirSlot page i := by
  unfold readDirSlot writeDirSlot
  split
  · rename_i h
    rw [h]
    exact page.u32At_splice_self pid _
  · rename_i h
    refine page.u32At_splice_ne _ ?_
    rw [length_u32Bytes]
    omega

theorem readDirSlot_writeCount (n i : Nat) : readDirSlot (writeCount page n) i = readDirSlot page i := by
  unfold readDirSlot writeCount
  refine page.u32At_splice_ne _ (.inr ?_)
  rw [length_u32Bytes]
  unfold HEADER
  omega

theorem readNext_writeDirSlot (slot : Fin DIR_SLOTS_PER_PAGE) (pid : UInt32) :
    readNext (writeDirSlot page slot pid) = readNext page := by
  unfold readNext writeDirSlot
  rw [page.u32At_splice_ne _ (.inl (by unfold HEADER; omega))]

theorem readDirSlot_foldl (slots : List (Fin DIR_SLOTS_PER_PAGE)) (i : Fin DIR_SLOTS_PER_PAGE) :
    readDirSlot (slots.foldl (fun page slot => writeDirSlot page slot NO_ROOT) page) i =
      if i ∈ slots then NO_ROOT else readDirSlot page i := by
  induction slots generalizing page with
  | nil => simp
  | cons slot slots ih =>
    rw [List.foldl_cons, ih, readDirSlot_writeDirSlot]
    by_cases hi : i ∈ slots
    · simp [hi]
    · by_cases he : i = slot <;> simp [hi, he, Fin.val_inj]

end Writers

/-- A new directory page has no heads. -/
theorem readDirSlot_emptyDirPage (i : Fin DIR_SLOTS_PER_PAGE) : readDirSlot emptyDirPage i = NO_ROOT := by
  unfold emptyDirPage
  rw [readDirSlot_foldl, if_pos (List.mem_finRange i)]

end PropertyIndex

end ChiffonDB
