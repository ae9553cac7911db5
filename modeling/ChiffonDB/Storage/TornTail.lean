import ChiffonDB.Storage.Recovery

/-!
# Recovery behind a torn tail

A log of complete entries whose last append was cut after `k` bytes, the rest of the entry
missing or zero-filled.  The additive checksum of a zeroed page is its page id, so a zero-filled
tail is itself a valid entry whenever its header, zeros included, happens to balance.

* `decodeEntry_tornTail` — the exact tails that `load_index` takes for an entry.
* `recoversExactly_iff` — recovery is exact for precisely the other tails.
-/

set_option autoImplicit false

namespace ChiffonDB

open Bytes ByteFile Journal

/-! ## Torn tails -/

/-- The first `k` bytes of entry `e`; `padded` when the file system has zero-filled the rest. -/
def tornTail (e : WalEntry) (k : Nat) (padded : Bool) : List UInt8 :=
  (walEntry e.1 e.2).take k ++ if padded then List.replicate (WAL_ENTRY_SIZE - k) 0 else []

/-- The entries that count as complete: the torn one only when its bytes are the genuine ones. -/
def completeEntries (es : List WalEntry) (e : WalEntry) (k : Nat) (padded : Bool) : List WalEntry :=
  if tornTail e k padded = walEntry e.1 e.2 then es ++ [e] else es

/-- The zero-filled header of a torn entry balances: the tail passes for an entry with a zero page. -/
def HeaderBalances (e : WalEntry) (k : Nat) : Prop :=
  (k < 4 ∧ e.1.toNat % 256 ^ k = 0) ∨
  (4 ≤ k ∧ k < 8 ∧ (checksum e.1 e.2.bytes).toNat % 256 ^ (k - 4) = e.1.toNat)

theorem length_tornTail_padded (e : WalEntry) {k : Nat} (hk : k ≤ WAL_ENTRY_SIZE) :
    (tornTail e k true).length = WAL_ENTRY_SIZE := by
  simp only [tornTail, if_true, List.length_append, List.length_take, List.length_replicate,
    length_walEntry]
  omega

/-- A tail cut inside the page id. -/
theorem tornTail_pageId (e : WalEntry) {k : Nat} (hk : k ≤ 4) : tornTail e k true =
    u32Bytes (UInt32.ofNat (e.1.toNat % 256 ^ k)) ++ (u32Bytes 0 ++ PageData.zero.bytes) := by
  have hp := e.1.toNat_lt
  have hmod : e.1.toNat % 256 ^ k ≤ e.1.toNat := Nat.mod_le ..
  have hfield : u32Bytes (UInt32.ofNat (e.1.toNat % 256 ^ k)) =
      (u32Bytes e.1).take k ++ List.replicate (4 - k) 0 := by
    unfold u32Bytes
    rw [take_leBytes_zeros _ hk, UInt32.toNat_ofNat', Nat.mod_eq_of_lt (by omega)]
  have hzero : u32Bytes 0 ++ PageData.zero.bytes = List.replicate (4 + PAGE_SIZE) 0 := by
    rw [← List.replicate_append_replicate]
    rfl
  have htake : (walEntry e.1 e.2).take k = (u32Bytes e.1).take k := by
    rw [walEntry, List.take_append_of_le_length (by rw [length_u32Bytes]; exact hk)]
  have hn : WAL_ENTRY_SIZE - k = (4 - k) + (4 + PAGE_SIZE) := by unfold WAL_ENTRY_SIZE; omega
  rw [hfield, hzero, tornTail, htake, if_pos rfl, hn, ← List.replicate_append_replicate,
    List.append_assoc]

/-- A tail cut inside the checksum. -/
theorem tornTail_checksum (e : WalEntry) {j : Nat} (hj : j ≤ 4) : tornTail e (4 + j) true =
    u32Bytes e.1 ++ (u32Bytes (UInt32.ofNat ((checksum e.1 e.2.bytes).toNat % 256 ^ j)) ++
      PageData.zero.bytes) := by
  have hc := (checksum e.1 e.2.bytes).toNat_lt
  have hmod : (checksum e.1 e.2.bytes).toNat % 256 ^ j ≤ (checksum e.1 e.2.bytes).toNat :=
    Nat.mod_le ..
  have hfield : u32Bytes (UInt32.ofNat ((checksum e.1 e.2.bytes).toNat % 256 ^ j)) =
      (u32Bytes (checksum e.1 e.2.bytes)).take j ++ List.replicate (4 - j) 0 := by
    unfold u32Bytes
    rw [take_leBytes_zeros _ hj, UInt32.toNat_ofNat', Nat.mod_eq_of_lt (by omega)]
  have hzero : PageData.zero.bytes = List.replicate PAGE_SIZE 0 := rfl
  have htake : (walEntry e.1 e.2).take (4 + j) =
      u32Bytes e.1 ++ (u32Bytes (checksum e.1 e.2.bytes)).take j := by
    rw [walEntry, List.take_append, length_u32Bytes, Nat.add_sub_cancel_left,
      List.take_of_length_le (by rw [length_u32Bytes]; omega),
      List.take_append_of_le_length (by rw [length_u32Bytes]; exact hj)]
  have hn : WAL_ENTRY_SIZE - (4 + j) = (4 - j) + PAGE_SIZE := by unfold WAL_ENTRY_SIZE; omega
  rw [hfield, hzero, tornTail, htake, if_pos rfl, hn, ← List.replicate_append_replicate,
    List.append_assoc, List.append_assoc]

/-- A tail cut inside the page image. -/
theorem tornTail_data (e : WalEntry) {j : Nat} (hj : j ≤ PAGE_SIZE) :
    ∃ d : PageData, d.bytes = e.2.bytes.take j ++ List.replicate (e.2.bytes.drop j).length 0 ∧
      tornTail e (8 + j) true =
        u32Bytes e.1 ++ (u32Bytes (checksum e.1 e.2.bytes) ++ d.bytes) := by
  have hsize := e.2.size_eq
  refine ⟨⟨e.2.bytes.take j ++ List.replicate (e.2.bytes.drop j).length 0, ?_⟩, rfl, ?_⟩
  · rw [List.length_append, List.length_take, List.length_replicate, List.length_drop]; omega
  · have htake : (walEntry e.1 e.2).take (8 + j) =
        u32Bytes e.1 ++ (u32Bytes (checksum e.1 e.2.bytes) ++ e.2.bytes.take j) := by
      have h1 : 8 + j - 4 = 4 + j := by omega
      have h2 : 4 + j - 4 = j := by omega
      rw [walEntry, List.take_append, length_u32Bytes, h1,
        List.take_of_length_le (by rw [length_u32Bytes]; omega), List.take_append, length_u32Bytes,
        h2, List.take_of_length_le (by rw [length_u32Bytes]; omega)]
    have hn : WAL_ENTRY_SIZE - (8 + j) = (e.2.bytes.drop j).length := by
      rw [List.length_drop, hsize]; unfold WAL_ENTRY_SIZE; omega
    rw [tornTail, htake, if_pos rfl, hn, List.append_assoc, List.append_assoc]

/-! ## What the decoder makes of a tail -/

theorem tornTail_unpadded (e : WalEntry) {k : Nat} (hk : k < WAL_ENTRY_SIZE) :
    (tornTail e k false).length < WAL_ENTRY_SIZE := by
  simp only [tornTail, Bool.false_eq_true, if_false, List.append_nil, List.length_take,
    length_walEntry]
  omega

/-- **The tails `load_index` takes for an entry**: the genuine ones, and those whose zero-filled
    header balances. -/
theorem decodeEntry_tornTail (e : WalEntry) {k : Nat} (hk : k < WAL_ENTRY_SIZE) (padded : Bool) :
    (decodeEntry (tornTail e k padded)).isSome ↔
      tornTail e k padded = walEntry e.1 e.2 ∨ (padded = true ∧ HeaderBalances e k) := by
  have hgenuine : tornTail e k padded = walEntry e.1 e.2 →
      (decodeEntry (tornTail e k padded)).isSome := by
    intro h
    rw [h, ← List.append_nil (walEntry e.1 e.2), decodeEntry_walEntry]
    rfl
  cases padded with
  | false =>
    have hlen := tornTail_unpadded e hk
    rw [decodeEntry_of_length_lt hlen]
    constructor
    · intro h; cases h
    · rintro (h | ⟨h, _⟩)
      · rw [h, length_walEntry] at hlen
        exact absurd hlen (Nat.lt_irrefl _)
      · cases h
  | true =>
    have hp := e.1.toNat_lt
    have hc := (checksum e.1 e.2.bytes).toNat_lt
    by_cases h4 : k < 4
    · -- header and page image are zero but for the low bytes of the page id
      have hmod : e.1.toNat % 256 ^ k ≤ e.1.toNat := Nat.mod_le ..
      have hdec : (decodeEntry (tornTail e k true)).isSome ↔ e.1.toNat % 256 ^ k = 0 := by
        rw [tornTail_pageId e (by omega), ← List.append_nil (_ ++ (_ ++ _)), decodeEntry_fields]
        have hz : PageData.zero.bytes = List.replicate PAGE_SIZE 0 := rfl
        rw [hz, checksum_zeros]
        have hiff : (0 : UInt32) = UInt32.ofNat (e.1.toNat % 256 ^ k) ↔ e.1.toNat % 256 ^ k = 0 := by
          rw [← UInt32.toNat_inj, UInt32.toNat_ofNat', Nat.mod_eq_of_lt (by omega)]
          exact eq_comm
        by_cases h0 : e.1.toNat % 256 ^ k = 0
        · rw [if_neg (not_not.2 (hiff.2 h0))]; simp [h0]
        · rw [if_pos (fun h => h0 (hiff.1 h))]; simp [h0]
      constructor
      · intro h
        exact .inr ⟨rfl, .inl ⟨h4, hdec.1 h⟩⟩
      · rintro (h | ⟨_, ⟨_, h⟩ | ⟨h, _⟩⟩)
        · exact hgenuine h
        · exact hdec.2 h
        · omega
    · by_cases h8 : k < 8
      · -- the page id is whole, the checksum is cut, the page image is zero
        obtain ⟨j, rfl⟩ : ∃ j, k = 4 + j := ⟨k - 4, by omega⟩
        have hmod : (checksum e.1 e.2.bytes).toNat % 256 ^ j ≤ (checksum e.1 e.2.bytes).toNat :=
          Nat.mod_le ..
        have hdec : (decodeEntry (tornTail e (4 + j) true)).isSome ↔
            (checksum e.1 e.2.bytes).toNat % 256 ^ j = e.1.toNat := by
          rw [tornTail_checksum e (by omega), ← List.append_nil (_ ++ (_ ++ _)), decodeEntry_fields]
          have hz : PageData.zero.bytes = List.replicate PAGE_SIZE 0 := rfl
          rw [hz, checksum_zeros]
          have hiff : UInt32.ofNat ((checksum e.1 e.2.bytes).toNat % 256 ^ j) = e.1 ↔
              (checksum e.1 e.2.bytes).toNat % 256 ^ j = e.1.toNat := by
            rw [← UInt32.toNat_inj, UInt32.toNat_ofNat', Nat.mod_eq_of_lt (by omega)]
          by_cases h0 : (checksum e.1 e.2.bytes).toNat % 256 ^ j = e.1.toNat
          · rw [if_neg (not_not.2 (hiff.2 h0))]; simp [h0]
          · rw [if_pos (fun h => h0 (hiff.1 h))]; simp [h0]
        constructor
        · intro h
          refine .inr ⟨rfl, .inr ⟨by omega, h8, ?_⟩⟩
          rw [Nat.add_sub_cancel_left]
          exact hdec.1 h
        · rintro (h | ⟨_, ⟨h, _⟩ | ⟨_, _, h⟩⟩)
          · exact hgenuine h
          · omega
          · rw [Nat.add_sub_cancel_left] at h
            exact hdec.2 h
      · -- the header is whole: the checksum tells whether bytes were lost
        obtain ⟨j, rfl⟩ : ∃ j, k = 8 + j := ⟨k - 8, by omega⟩
        obtain ⟨d, hd, htail⟩ := tornTail_data e (j := j) (by unfold WAL_ENTRY_SIZE at hk; omega)
        constructor
        · intro h
          left
          rw [htail, ← List.append_nil (_ ++ (_ ++ _)), decodeEntry_fields] at h
          by_cases hcs : checksum e.1 e.2.bytes = checksum e.1 d.bytes
          · have hsplit := List.take_append_drop j e.2.bytes
            have hcs' : checksum e.1 (e.2.bytes.take j ++ e.2.bytes.drop j) =
                checksum e.1 (e.2.bytes.take j ++ List.replicate (e.2.bytes.drop j).length 0) := by
              rw [hsplit, ← hd, hcs]
            have hzero := eq_zeros_of_checksum (by rw [List.length_drop, e.2.size_eq]; omega) hcs'
            rw [htail, walEntry, hd, ← hzero, hsplit]
          · rw [if_pos hcs] at h
            cases h
        · rintro (h | ⟨_, ⟨h, _⟩ | ⟨_, h, _⟩⟩)
          · exact hgenuine h
          · omega
          · omega

/-! ## Recovery -/

/-- **Recovery of a log with a torn tail is exact unless the tail's zero-filled header balances**
    (and the tail is not the genuine entry anyway). -/
theorem recoversExactly_iff (es : List WalEntry) (e : WalEntry) {k : Nat} (hk : k < WAL_ENTRY_SIZE)
    (padded : Bool) :
    RecoversExactly (encodeEntries es ++ tornTail e k padded) (completeEntries es e k padded) ↔
      (tornTail e k padded = walEntry e.1 e.2 ∨ ¬ (padded = true ∧ HeaderBalances e k)) := by
  unfold completeEntries
  by_cases hg : tornTail e k padded = walEntry e.1 e.2
  · rw [if_pos hg, hg]
    have h := recoversExactly_of_decomp (es ++ [e]) decodeEntry_nil
    rw [encodeEntries_append, List.append_nil] at h
    have he : encodeEntries [e] = walEntry e.1 e.2 := encodeEntries_singleton e.1 e.2
    rw [he] at h
    exact ⟨fun _ => .inl rfl, fun _ => h⟩
  · rw [if_neg hg, recoversExactly_iff_rest, ← Option.not_isSome_iff_eq_none,
      decodeEntry_tornTail e hk padded]
    simp [hg]

/-- Cut behind the first byte of page id 7: the id does not balance against a zero checksum. -/
theorem recoversExactly_iff_cut_id :
    RecoversExactly (encodeEntries [] ++ tornTail (7, PageData.zero) 1 true)
      (completeEntries [] (7, PageData.zero) 1 true) :=
  (recoversExactly_iff [] (7, PageData.zero) (by decide) true).2 (.inr (by
    rintro ⟨_, ⟨_, h⟩ | ⟨h, _⟩⟩
    · revert h; decide
    · omega))

/-- **A zero-filled append of page 1 is replayed as an entry for page 0.** -/
theorem not_recoversExactly_zero_filled :
    ¬ RecoversExactly (encodeEntries [] ++ tornTail (1, PageData.zero) 0 true)
      (completeEntries [] (1, PageData.zero) 0 true) := by
  have htail : tornTail (1, PageData.zero) 0 true = walEntry 0 PageData.zero := by
    have hz : PageData.zero.bytes = List.replicate PAGE_SIZE 0 := rfl
    rw [tornTail_pageId _ (by omega), walEntry, hz, checksum_zeros]
    rfl
  have hne : tornTail (1, PageData.zero) 0 true ≠ walEntry 1 PageData.zero := by
    rw [htail]
    intro h
    have := decodeEntry_walEntry 0 PageData.zero []
    rw [h, decodeEntry_walEntry 1 PageData.zero []] at this
    cases this
  intro h
  have hread := h.read 0
  have hopen := (Holds.openWal [(0, PageData.zero)] decodeEntry_nil).read 0
  rw [List.append_nil, encodeEntries_singleton] at hopen
  rw [encodeEntries_nil, List.nil_append, htail, hopen] at hread
  unfold completeEntries at hread
  rw [if_neg hne] at hread
  cases hread

end ChiffonDB
