import ChiffonDB.Storage.StoreRun

/-!
# The hint of the property store

Where writes and frees leave the hint from which an inline write looks for room.

* `HintUseful` — the slotted pages before the hint are nearly full, and a page is mapped only for want of room.
* `hint_useful` — **so it is along every run whose inline writes settle off the live chains**, as they do where no
  page of a chain passes for a slotted one.
-/

set_option autoImplicit false

namespace ChiffonDB

open SlottedPage

/-- What the hint is good for. -/
structure HintUseful (s : StoreState) : Prop where
  /-- The space that is lost on a page before the hint is bounded by the threshold. -/
  skipped : ∀ i page, i < s.db.header.propertyFirstFreeHint → (propertyPages s.db)[i]? = some page →
    s.HostsSlot i → freeSpace page < HINT_FULL_THRESHOLD
  /-- An inline write that maps a page found none on the free list and no room from the hint on. -/
  mapped : ∀ bytes rid db', bytes.length + 6 ≤ PAGE_SIZE → OffChains s (.write bytes) →
    (writePropertyBytes bytes).exec s.db = (.ok rid, db') →
    (propertyPages s.db).length < (propertyPages db').length →
    FreeList s.db [] ∧ ∀ i page, s.db.header.propertyFirstFreeHint ≤ i → (propertyPages s.db)[i]? = some page →
      s.HostsSlot i → writeProperty page bytes = .err (.storageCorrupted 0)

theorem StoreInv.hintUseful {t : Prop} {s : StoreState} (h : StoreInv t s) : HintUseful s := by
  obtain ⟨m, ps, live, free, hd, hm, hs, hh, hlive⟩ := h
  have hpages := propertyPages_eq hd hm
  have hfirst : s.db.header.propertyFirstFreeHint = min ps.hint.toNat ps.pages.length := by
    rw [hd.header, hm.firstFreeHint_eq]
  refine ⟨fun i page hi hpage hhost => ?_, fun bytes rid db' hinline hoff hexec hgrown => ?_⟩
  · obtain ⟨e, he, hslot, rfl⟩ := (StoreInv.hostsSlot_iff hlive i).1 hhost
    rw [hpages] at hpage
    exact (hh e he hslot page hpage).2 (by omega)
  · obtain ⟨h1, h2⟩ := hd.exec (writePropertyBytes bytes)
    rw [hexec] at h1 h2
    rcases hs.run_write hm bytes (hoff.not_mem_pages hd hm hs hlive) with
      ⟨hpanic, -⟩ | ⟨err, hrun, -⟩ | ⟨e, m', ps', free', hrun, -, hm', -, -, -, hnew⟩
    · cases h1.trans hpanic
    · rw [hrun] at h1
      cases h1
    · rw [hrun] at h2
      rw [hpages, propertyPages_eq h2 hm'] at hgrown
      obtain ⟨rfl, hnone⟩ := hnew hinline hgrown
      refine ⟨?_, fun i page hi hpage hhost => ?_⟩
      · unfold FreeList
        rw [hpages, hd.header, hm.freeHead]
        exact hs.freeAt
      · obtain ⟨e', he', hslot, rfl⟩ := (StoreInv.hostsSlot_iff hlive i).1 hhost
        rw [hpages] at hpage
        rw [hd.header] at hi
        have hvalid := (hh e' he' hslot page hpage).1
        exact writeProperty_of_full fun hfits => hnone _ page hi hpage ⟨hvalid, hfits⟩

end ChiffonDB
