import ChiffonDB.Storage.SlottedPage

/-!
# Runs of a slotted page

Writes and frees on one slotted page, from a new one on.

* `Slots` — what the slots hold: a value, or nothing once freed.
* `SlottedPage.Shows` — the page is valid, and counts and reads like the slots.
* `SlottedPage.Faithful` — a run that never panics, takes exactly the values that fit and shows its slots throughout.
* `SlottedPage.faithful_iff` — **a run is faithful exactly if no write that fits finds all slots freed, and no empty
  value is written to a page without room for another directory entry**.
-/

set_option autoImplicit false

namespace ChiffonDB

/-- The slots in the order of their numbers; a freed one holds nothing. -/
abbrev Slots : Type := List (Option (List UInt8))

inductive SlotCall where
  | write (value : List UInt8)
  | free (slot : UInt16)

namespace SlottedPage

/-- What callers see of the slots. -/
structure Shows (p : PageData) (slots : Slots) : Prop where
  valid : isValid p = true
  live : ∀ (slot : UInt16) b, slots[slot.toNat]? = some (some b) → readProperty p slot = .ok b
  freed : ∀ slot : UInt16, slots[slot.toNat]? = some none → readProperty p slot = .err .propertySlotFreed
  beyond : ∀ slot : UInt16, slots.length ≤ slot.toNat → readProperty p slot = .err (.storageCorrupted 0)
  liveCount : (liveCount p).toNat = slots.countP Option.isSome

/-- A run does as it should: it takes exactly the values that fit and frees exactly the slots that exist, and shows
    the slots after every step. -/
def Faithful (p : PageData) (slots : Slots) : List SlotCall → Prop
  | [] => Shows p slots
  | .write v :: calls => Shows p slots ∧
    ((∃ slot p', writeProperty p v = .ok (slot, p') ∧ slot.toNat = slots.length ∧ v.length ≤ freeSpace p ∧
        Faithful p' (slots ++ [some v]) calls) ∨
      (∃ e, writeProperty p v = .err e ∧ freeSpace p < v.length ∧ Faithful p slots calls))
  | .free slot :: calls => Shows p slots ∧
    ((∃ p', freeSlot p slot = .ok p' ∧ slot.toNat < slots.length ∧
        Faithful p' (slots.set slot.toNat none) calls) ∨
      (∃ e, freeSlot p slot = .err e ∧ slots.length ≤ slot.toNat ∧ Faithful p slots calls))

/-- The page after a call, unless it panics. -/
def SlotCall.page (p : PageData) : SlotCall → Option PageData
  | .write v => match writeProperty p v with
    | .ok (_, p') => some p'
    | .err _ => some p
    | .panic => none
  | .free slot => match freeSlot p slot with
    | .ok p' => some p'
    | .err _ => some p
    | .panic => none

/-- A value that fits finds a live slot unless the page has no slots, and an empty one room for its entry. -/
def Fitting (p : PageData) : SlotCall → Prop
  | .write v => (slotCount p ≠ 0 → liveCount p = 0 → freeSpace p < v.length) ∧ (v = [] → dirEnd p ≤ dataEnd p)
  | .free _ => True

/-- Every step of a run finds the page so. -/
def AllFitting (p : PageData) : List SlotCall → Prop
  | [] => True
  | c :: calls => Fitting p c ∧ ∀ p', SlotCall.page p c = some p' → AllFitting p' calls

/-! ## The page behind the slots -/

/-- The directory and the counters describe the slots. -/
structure Tracks (p : PageData) (slots : Slots) : Prop where
  count : (slotCount p).toNat = slots.length
  room : dirOffset slots.length ≤ PAGE_SIZE
  live : ∀ (slot : UInt16) b, slots[slot.toNat]? = some (some b) → SlotHolds p slot b
  freed : ∀ i, slots[i]? = some none → entryOff p i = TOMBSTONE_OFF
  liveCount : (liveCount p).toNat = slots.countP Option.isSome

theorem Tracks.new : Tracks new [] := by
  refine ⟨by simp, ?_, by simp, by simp, by simp⟩
  unfold dirOffset HEADER_SIZE PAGE_SIZE
  simp

variable {p : PageData} {slots : Slots}

/-- A slot of the page is live or freed. -/
theorem Tracks.slot_cases (h : Tracks p slots) {i : Nat} (hi : i < slots.length) :
    (∃ slot : UInt16, slot.toNat = i ∧ ∃ b, slots[i]? = some (some b) ∧ SlotHolds p slot b) ∨
      slots[i]? = some none := by
  have hlt : i < UInt16.size := by
    have := h.count ▸ (slotCount p).toNat_lt
    have hsize : UInt16.size = 65536 := rfl
    omega
  have hslot : (UInt16.ofNat i).toNat = i := UInt16.toNat_ofNat_of_lt' hlt
  cases hb : slots[i] with
  | none => exact .inr (by rw [List.getElem?_eq_getElem hi, hb])
  | some b =>
    have hsome : slots[i]? = some (some b) := by rw [List.getElem?_eq_getElem hi, hb]
    exact .inl ⟨UInt16.ofNat i, hslot, b, hsome, h.live _ b (by rw [hslot]; exact hsome)⟩

theorem Tracks.shows (h : Tracks p slots) : Shows p slots where
  valid := by
    have hroom := h.room
    have hmark : slotCount p ≠ FREE_PAGE_MARKER := by
      intro he
      have hc := h.count
      rw [he] at hc
      have hm : FREE_PAGE_MARKER.toNat = 65535 := rfl
      unfold dirOffset HEADER_SIZE SLOT_ENTRY_SIZE PAGE_SIZE at hroom
      omega
    refine isValid_iff.2 ⟨hmark, h.count.symm ▸ hroom, fun i hi => ?_⟩
    rw [h.count] at hi
    rcases h.slot_cases hi with ⟨slot, rfl, b, -, hs⟩ | hfreed
    · exact .inr (by rw [hs.len]; exact hs.fits)
    · exact .inl (h.freed i hfreed)
  live slot b hb := (h.live slot b hb).read
  freed slot hf := by
    have hlt : slot.toNat < slots.length := (List.getElem?_eq_some_iff.1 hf).1
    have hdir := dirOffset_le (Nat.succ_le_of_lt hlt)
    have hroom := h.room
    have hnot : ¬ slot ≥ slotCount p := by
      intro hge
      have := UInt16.le_iff_toNat_le.1 hge
      have := h.count
      omega
    unfold readProperty
    rw [if_neg hnot, if_neg, if_pos (h.freed _ hf)]
    unfold dirOffset SLOT_ENTRY_SIZE at *
    omega
  beyond slot hge := by
    unfold readProperty
    rw [if_pos]
    rw [ge_iff_le, UInt16.le_iff_toNat_le, h.count]
    exact hge
  liveCount := h.liveCount

/-! ## The data boundary -/

theorem dataEnd_mem (p : PageData) : (slotCount p).toNat = 0 ∧ dataEnd p = PAGE_SIZE ∨
    ∃ i < (slotCount p).toNat, dataEnd p = (entryOff p i).toNat := by
  unfold dataEnd
  by_cases hc : (slotCount p).toNat = 0
  · exact .inl ⟨hc, if_pos hc⟩
  · rw [if_neg hc]
    have hmem : (entryOff p 0).toNat ∈ (List.range (slotCount p).toNat).map fun i => (entryOff p i).toNat :=
      List.mem_map.2 ⟨0, List.mem_range.2 (Nat.pos_of_ne_zero hc), rfl⟩
    obtain ⟨a, ha⟩ := Option.isSome_iff_exists.1 (List.isSome_min?_of_mem hmem)
    obtain ⟨i, hi, hoff⟩ := List.mem_map.1 (List.min?_eq_some_iff.1 ha).1
    exact .inr ⟨i, List.mem_range.1 hi, by rw [ha, Option.getD_some, hoff]⟩

theorem Tracks.noLive_iff (h : Tracks p slots) :
    SlottedPage.liveCount p = 0 ↔ ∀ i, i < slots.length → slots[i]? = some none := by
  rw [← UInt16.toNat_inj, h.liveCount]
  show slots.countP Option.isSome = 0 ↔ _
  rw [List.countP_eq_zero]
  constructor
  · intro hnone i hi
    rw [List.getElem?_eq_getElem hi]
    have := hnone _ (List.getElem_mem hi)
    cases hs : slots[i] with
    | none => rfl
    | some b => simp [hs] at this
  · intro hnone s hs
    obtain ⟨i, hi, rfl⟩ := List.getElem_of_mem hs
    have := hnone i hi
    rw [List.getElem?_eq_getElem hi] at this
    simp [Option.some.inj this]

/-- The data area of a page whose slots are all freed starts behind the page. -/
theorem Tracks.dataEnd_of_noLive (h : Tracks p slots) (hcount : slotCount p ≠ 0)
    (hlive : SlottedPage.liveCount p = 0) : dataEnd p = 65535 := by
  rcases dataEnd_mem p with ⟨hc, -⟩ | ⟨i, hi, he⟩
  · exact absurd (UInt16.toNat_inj.1 hc) hcount
  · rw [he, h.freed i (h.noLive_iff.1 hlive i (h.count ▸ hi))]
    rfl

theorem Tracks.dataEnd_le_page (h : Tracks p slots) (hl : slotCount p = 0 ∨ SlottedPage.liveCount p ≠ 0) :
    dataEnd p ≤ PAGE_SIZE := by
  rcases dataEnd_mem p with ⟨-, he⟩ | ⟨j, hj, -⟩
  · exact he.le
  · have hlive : SlottedPage.liveCount p ≠ 0 := by
      rcases hl with hc | hl
      · rw [hc] at hj
        exact absurd hj (Nat.not_lt_zero _)
      · exact hl
    rw [Ne, h.noLive_iff] at hlive
    push Not at hlive
    obtain ⟨i, hi, hne⟩ := hlive
    rcases h.slot_cases hi with ⟨slot, rfl, b, -, hs⟩ | hnone
    · have h1 := dataEnd_le (p := p) (h.count.symm ▸ hi)
      have h2 := hs.fits
      omega
    · exact absurd hnone hne

/-! ## Steps -/

theorem Tracks.write (h : Tracks p slots) {v : List UInt8} {slot : UInt16} {p' : PageData}
    (hw : writeProperty p v = .ok (slot, p')) (hp : Written p p' slot v) : Tracks p' (slots ++ [some v]) where
  count := by
    rw [hp.slotCount, h.count]
    simp
  room := by
    have h1 := hp.new.above
    have h2 := hp.new.fits
    rw [hp.slotCount, h.count] at h1
    rw [List.length_append, List.length_singleton]
    omega
  live slot' b hb := by
    rcases Nat.lt_or_ge slot'.toNat slots.length with hlt | hge
    · rw [List.getElem?_append_left hlt] at hb
      exact hp.old (h.live slot' b hb)
    · rw [List.getElem?_append_right hge] at hb
      have hlast : slot'.toNat = slots.length := by
        have := (List.getElem?_eq_some_iff.1 hb).1
        simp only [List.length_singleton] at this
        omega
      rw [hlast, Nat.sub_self] at hb
      cases hb
      have hslot : slot' = slot := by
        rw [← UInt16.toNat_inj, hlast, hp.slot_eq, h.count]
      exact hslot ▸ hp.new
  freed i hi := by
    rcases Nat.lt_or_ge i slots.length with hlt | hge
    · rw [List.getElem?_append_left hlt] at hi
      rw [(entry_writeProperty hw (h.count.symm ▸ hlt)).1]
      exact h.freed i hi
    · rw [List.getElem?_append_right hge] at hi
      have := (List.getElem?_eq_some_iff.1 hi).1
      simp only [List.length_singleton] at this
      rw [show i - slots.length = 0 by omega] at hi
      cases hi
  liveCount := by
    rw [hp.liveCount, h.liveCount]
    simp

/-- Freeing a slot that exists. -/
theorem Tracks.free (h : Tracks p slots) {slot : UInt16} (hlt : slot.toNat < slots.length) :
    ∃ p', freeSlot p slot = .ok p' ∧ Tracks p' (slots.set slot.toNat none) := by
  rcases h.slot_cases hlt with ⟨slot', hslot, b, hb, hs⟩ | hnone
  · obtain rfl : slot' = slot := UInt16.toNat_inj.1 hslot
    obtain ⟨p', hfree, hfreed⟩ := hs.free
    obtain ⟨-, hdead⟩ | ⟨hcount, hentry, -⟩ := freeSlot_cases hfree
    · exact absurd hdead hs.not_tombstone
    refine ⟨p', hfree, ⟨?_, ?_, fun slot b' hb' => ?_, fun i hi => ?_, ?_⟩⟩
    · rw [hcount, h.count, List.length_set]
    · rw [List.length_set]
      exact h.room
    · rw [List.getElem?_set] at hb'
      split at hb'
      · cases hb'
      · rename_i hne
        exact hfreed.other (fun he => hne (he ▸ rfl)) (h.live slot b' hb')
    · rw [hentry]
      split
      · rfl
      · rename_i hne
        rw [List.getElem?_set_ne (Ne.symm hne)] at hi
        exact h.freed i hi
    · rw [hfreed.liveCount, h.liveCount, List.countP_set hlt]
      rw [List.getElem?_eq_getElem hlt] at hb
      simp [Option.some.inj hb]
  · refine ⟨p, ?_, ?_⟩
    · have hnot : ¬ slot ≥ slotCount p := by
        intro hge
        have := UInt16.le_iff_toNat_le.1 hge
        have := h.count
        omega
      have hdir : dirOffset slot.toNat + SLOT_ENTRY_SIZE ≤ PAGE_SIZE := by
        have h1 := dirOffset_le (Nat.succ_le_of_lt hlt)
        have h2 := h.room
        unfold dirOffset SLOT_ENTRY_SIZE at *
        omega
      unfold freeSlot
      rw [if_neg hnot, dif_neg (not_lt.2 hdir), if_pos (h.freed _ hnone)]
    · rw [List.getElem?_eq_getElem hlt] at hnone
      rw [← Option.some.inj hnone, List.set_getElem_self]
      exact h

theorem Tracks.free_beyond (h : Tracks p slots) {slot : UInt16} (hge : slots.length ≤ slot.toNat) :
    freeSlot p slot = .err (.storageCorrupted 0) := by
  unfold freeSlot
  rw [if_pos]
  rw [ge_iff_le, UInt16.le_iff_toNat_le, h.count]
  exact hge

/-- The counter of live slots has not run out. -/
theorem Tracks.liveCount_ne (h : Tracks p slots) : SlottedPage.liveCount p ≠ 0xFFFF := by
  intro he
  have h1 := h.liveCount
  have h2 := slots.countP_le_length (p := Option.isSome)
  have h3 := h.room
  rw [he] at h1
  have h4 : (0xFFFF : UInt16).toNat = 65535 := rfl
  unfold dirOffset HEADER_SIZE SLOT_ENTRY_SIZE PAGE_SIZE at h3
  omega

/-- A write does one of three things. -/
theorem Tracks.write_cases (h : Tracks p slots) (v : List UInt8) :
    (∃ slot p', writeProperty p v = .ok (slot, p') ∧ Written p p' slot v ∧ dirEnd p + v.length ≤ dataEnd p ∧
        dataEnd p ≤ PAGE_SIZE) ∨
      (writeProperty p v = .err (.storageCorrupted 0) ∧ dataEnd p < dirEnd p + v.length) ∨
      (writeProperty p v = .panic ∧ dirEnd p + v.length ≤ dataEnd p ∧ PAGE_SIZE < dataEnd p) := by
  by_cases hfit : dirEnd p + v.length ≤ dataEnd p
  · rcases writeProperty_cases hfit with ⟨hp, hbig | hfull⟩ | ⟨slot, p', hw, hp⟩
    · exact .inr (.inr ⟨hp, hfit, hbig⟩)
    · exact absurd hfull h.liveCount_ne
    · refine .inl ⟨slot, p', hw, hp, hfit, ?_⟩
      by_contra hbig
      unfold writeProperty at hw
      rw [dif_neg (not_lt.2 hfit), dif_pos (not_le.1 hbig)] at hw
      cases hw
  · exact .inr (.inl ⟨writeProperty_of_full hfit, not_le.1 hfit⟩)

/-- The condition on a write, in terms of the two boundaries. -/
theorem Tracks.fitting_iff (h : Tracks p slots) (v : List UInt8) : Fitting p (.write v) ↔
    (dirEnd p + v.length ≤ dataEnd p → dataEnd p ≤ PAGE_SIZE) ∧ (v = [] → dirEnd p ≤ dataEnd p) := by
  unfold Fitting freeSpace
  refine and_congr_left fun hempty => ?_
  have hlen : v = [] ∨ 0 < v.length := by
    cases v with
    | nil => exact .inl rfl
    | cons a v => exact .inr (Nat.succ_pos _)
  constructor
  · intro hall hfit
    refine h.dataEnd_le_page ?_
    by_contra hno
    push Not at hno
    have := hall hno.1 hno.2
    omega
  · intro hpage hcount hlive
    have hend := h.dataEnd_of_noLive hcount hlive
    have hnot : ¬ dirEnd p + v.length ≤ dataEnd p := fun hfit => by
      have := hpage hfit
      unfold PAGE_SIZE at this
      omega
    rcases hlen with hv | hv
    · exact absurd (by rw [hv]; exact hempty hv) hnot
    · omega

/-! ## Runs -/

theorem Tracks.follows_iff (h : Tracks p slots) (calls : List SlotCall) :
    Faithful p slots calls ↔ AllFitting p calls := by
  induction calls generalizing p slots with
  | nil => exact iff_of_true h.shows trivial
  | cons c calls ih =>
    cases c with
    | write v =>
      rw [Faithful, AllFitting, h.fitting_iff, SlotCall.page]
      unfold freeSpace
      have hv : v = [] ↔ v.length = 0 := List.length_eq_zero_iff.symm
      rcases h.write_cases v with ⟨slot, p', hw, hp, hfit, hpage⟩ | ⟨hw, hfull⟩ | ⟨hw, hfit, hpage⟩
      · -- taken
        have hslot : slot.toNat = slots.length := by rw [hp.slot_eq, h.count]
        have hnext := ih (h.write hw hp)
        rw [hw]
        constructor
        · rintro ⟨-, ⟨slot', p'', heq, -, -, hrest⟩ | ⟨e, heq, -⟩⟩
          · cases heq
            refine ⟨⟨fun _ => hpage, fun _ => by omega⟩, fun q hq => ?_⟩
            cases hq
            exact hnext.1 hrest
          · cases heq
        · rintro ⟨-, hrest⟩
          exact ⟨h.shows, .inl ⟨slot, p', rfl, hslot, by omega, hnext.2 (hrest p' rfl)⟩⟩
      · -- refused
        rw [hw]
        constructor
        · rintro ⟨-, ⟨slot', p'', heq, -⟩ | ⟨e, -, hlong, hrest⟩⟩
          · cases heq
          · refine ⟨⟨fun hfit => by omega, fun he => by rw [hv] at he; omega⟩, fun q hq => ?_⟩
            cases hq
            exact (ih h).1 hrest
        · rintro ⟨⟨-, hempty⟩, hrest⟩
          refine ⟨h.shows, .inr ⟨_, rfl, ?_, (ih h).2 (hrest p rfl)⟩⟩
          rw [hv] at hempty
          omega
      · -- behind the page
        rw [hw]
        constructor
        · rintro ⟨-, ⟨slot', p'', heq, -⟩ | ⟨e, heq, -⟩⟩ <;> cases heq
        · rintro ⟨⟨hin, -⟩, -⟩
          exact absurd (hin hfit) (not_le.2 hpage)
    | free slot =>
      rw [Faithful, AllFitting, Fitting, SlotCall.page]
      rcases Nat.lt_or_ge slot.toNat slots.length with hlt | hge
      · obtain ⟨p', hf, h'⟩ := h.free hlt
        rw [hf]
        constructor
        · rintro ⟨-, ⟨p'', heq, -, hrest⟩ | ⟨e, heq, -⟩⟩
          · cases heq
            refine ⟨trivial, fun q hq => ?_⟩
            cases hq
            exact (ih h').1 hrest
          · cases heq
        · rintro ⟨-, hrest⟩
          exact ⟨h.shows, .inl ⟨p', rfl, hlt, (ih h').2 (hrest p' rfl)⟩⟩
      · rw [h.free_beyond hge]
        constructor
        · rintro ⟨-, ⟨p'', heq, -⟩ | ⟨e, -, -, hrest⟩⟩
          · cases heq
          · refine ⟨trivial, fun q hq => ?_⟩
            cases hq
            exact (ih h).1 hrest
        · rintro ⟨-, hrest⟩
          exact ⟨h.shows, .inr ⟨_, rfl, hge, (ih h).2 (hrest p rfl)⟩⟩

/-- **A run from a new page is faithful exactly if every write meets the condition.** -/
theorem faithful_iff (calls : List SlotCall) : Faithful new [] calls ↔ AllFitting new calls :=
  Tracks.new.follows_iff calls

/-- A byte is written, freed, and written again. -/
theorem rewriting_unfaithful : ¬ ∀ calls : List SlotCall, Faithful new [] calls := by
  intro hall
  obtain ⟨p', hw, hp⟩ := writeProperty_new (v := [1]) (by decide)
  have h1 := Tracks.new.write hw hp
  obtain ⟨p'', hf, h2⟩ := h1.free (show (0 : UInt16).toNat < _ by decide)
  have hrun := (Tracks.new.follows_iff [.write [1], .free 0, .write [2]]).1 (hall _)
  have hlast : Fitting p'' (.write [2]) :=
    ((hrun.2 p' (by rw [SlotCall.page, hw])).2 p'' (by rw [SlotCall.page, hf])).1
  rw [h2.fitting_iff] at hlast
  have hcount : slotCount p'' ≠ 0 := by
    intro he
    have := h2.count
    rw [he] at this
    cases this
  have hend := h2.dataEnd_of_noLive hcount (UInt16.toNat_inj.1 h2.liveCount)
  have hdir : dirEnd p'' = 12 := by
    unfold dirEnd
    rw [h2.count]
    rfl
  have := hlast.1 (by rw [hdir, hend]; decide)
  rw [hend] at this
  exact absurd this (by decide)

end SlottedPage

end ChiffonDB
