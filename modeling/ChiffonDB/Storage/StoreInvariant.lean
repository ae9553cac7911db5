import ChiffonDB.Storage.PropertyStore

/-!
# The invariant of the property store

What the pages of a property store hold, described by the list of its live values.

* `Stored` — every live value is on its pages, the free list holds free pages only, and the pages in
  hand (`held`) belong to nobody.  With `tight`, every page belongs to somebody.
* `Stored.alloc`, `Stored.insertSlot`, `Stored.insertBlob`, `Stored.removeBlob`, `Stored.removeSlot`,
  `Stored.freePage` — what the store does to its pages keeps the invariant.
-/

set_option autoImplicit false

namespace ChiffonDB

open Bytes SlottedPage

/-- A live value: its record id, its bytes and the pages it lives on. -/
structure Entry where
  rid : RecordId
  bytes : List UInt8
  pages : List Nat

/-- The value is in a slot of a page it shares. -/
def Entry.IsSlot (e : Entry) : Prop := e.rid.slotId ≠ CHAIN_HEAD_SLOT

instance (e : Entry) : Decidable e.IsSlot := inferInstanceAs (Decidable (_ ≠ _))

/-- Number of live slots on page `i`. -/
def slotsOn (live : List Entry) (i : Nat) : Nat :=
  live.countP fun e => e.IsSlot ∧ e.rid.pageId.toNat = i

/-- The pages of the entry hold its bytes. -/
structure HoldsAt (pages : List PageData) (e : Entry) : Prop where
  slot : e.IsSlot → e.pages = [e.rid.pageId.toNat] ∧
    ∃ page, pages[e.rid.pageId.toNat]? = some page ∧ SlotHolds page e.rid.slotId e.bytes
  blob : ¬ e.IsSlot → e.pages.head? = some e.rid.pageId.toNat ∧ e.pages.Nodup ∧
    e.pages.length = pagesNeeded e.bytes.length ∧ ChainAt pages e.bytes 0 e.pages

structure Stored (tight : Prop) (s : PropState) (live : List Entry) (free held : List Nat) :
    Prop where
  rids : (live.map Entry.rid).Nodup
  holds : ∀ e ∈ live, HoldsAt s.pages e
  counted : ∀ {i page}, s.pages[i]? = some page → slotsOn live i ≤ (liveCount page).toNat
  apart : ∀ e ∈ live, ∀ e' ∈ live, ∀ i ∈ e.pages, i ∈ e'.pages →
    e.rid = e'.rid ∨ e.IsSlot ∧ e'.IsSlot
  freeAt : FreeAt s.pages s.freeHead free
  free_apart : ∀ e ∈ live, ∀ i ∈ e.pages, i ∉ free
  held_nodup : held.Nodup
  held_lt : ∀ i ∈ held, i < s.pages.length
  held_apart : ∀ e ∈ live, ∀ i ∈ e.pages, i ∉ held
  held_free : ∀ i ∈ held, i ∉ free
  /-- The counters of pages with live slots are exact. -/
  exact : tight → ∀ {i page}, s.pages[i]? = some page → 0 < slotsOn live i →
    (liveCount page).toNat = slotsOn live i
  /-- No page is lost. -/
  cover : tight → ∀ i < s.pages.length, i ∈ free ∨ i ∈ held ∨ ∃ e ∈ live, i ∈ e.pages

/-! ## Entries and counts -/

namespace HoldsAt

variable {pages pages' : List PageData} {e : Entry}

theorem congr (h : HoldsAt pages e) (hp : ∀ i ∈ e.pages, pages'[i]? = pages[i]?) :
    HoldsAt pages' e where
  slot hs := by
    obtain ⟨hpages, page, hpage, hslot⟩ := h.slot hs
    refine ⟨hpages, page, ?_, hslot⟩
    rw [hp _ (by simp [hpages]), hpage]
  blob hb := by
    obtain ⟨hhead, hnd, hlen, hc⟩ := h.blob hb
    exact ⟨hhead, hnd, hlen, hc.congr hp⟩

theorem mem_pages (h : HoldsAt pages e) : e.rid.pageId.toNat ∈ e.pages := by
  by_cases hs : e.IsSlot
  · simp [(h.slot hs).1]
  · exact List.mem_of_mem_head? (h.blob hs).1

theorem eq_of_slot (h : HoldsAt pages e) (hs : e.IsSlot) {i : Nat} (hi : i ∈ e.pages) :
    e.rid.pageId.toNat = i := by
  rw [(h.slot hs).1, List.mem_singleton] at hi
  exact hi.symm

theorem lt_length (h : HoldsAt pages e) {i : Nat} (hi : i ∈ e.pages) : i < pages.length := by
  by_cases hs : e.IsSlot
  · obtain ⟨hpages, page, hpage, -⟩ := h.slot hs
    rw [hpages, List.mem_singleton] at hi
    rw [hi]
    exact (List.getElem?_eq_some_iff.1 hpage).1
  · exact (h.blob hs).2.2.2.lt_length hi

end HoldsAt

theorem slotsOn_cons (e : Entry) (live : List Entry) (i : Nat) :
    slotsOn (e :: live) i = slotsOn live i + if e.IsSlot ∧ e.rid.pageId.toNat = i then 1 else 0 := by
  unfold slotsOn
  rw [List.countP_cons]
  simp only [decide_eq_true_eq]

theorem slotsOn_pos {live : List Entry} {i : Nat} :
    0 < slotsOn live i ↔ ∃ e ∈ live, e.IsSlot ∧ e.rid.pageId.toNat = i := by
  unfold slotsOn
  rw [List.countP_pos_iff]
  simp only [decide_eq_true_eq]

theorem slotsOn_perm {live live' : List Entry} (h : live.Perm live') (i : Nat) :
    slotsOn live i = slotsOn live' i := h.countP_eq _

/-- Taking an entry out of the list of live values. -/
theorem perm_cons_filter {live : List Entry} (hnd : (live.map Entry.rid).Nodup) {e : Entry}
    (he : e ∈ live) : live.Perm (e :: live.filter fun e' => e'.rid ≠ e.rid) := by
  induction live with
  | nil => cases he
  | cons e' live ih =>
    rw [List.map_cons, List.nodup_cons] at hnd
    rcases List.mem_cons.1 he with rfl | he
    · have hrest : (live.filter fun e' => decide (e'.rid ≠ e.rid)) = live := by
        rw [List.filter_eq_self]
        intro e' he'
        simp only [decide_eq_true_eq]
        intro heq
        exact hnd.1 (heq ▸ List.mem_map_of_mem he')
      rw [List.filter_cons_of_neg (by simp), hrest]
    · have hne : e'.rid ≠ e.rid := by
        intro heq
        exact hnd.1 (heq ▸ List.mem_map_of_mem he)
      rw [List.filter_cons_of_pos (by simpa using hne)]
      exact ((ih hnd.2 he).cons e').trans (List.Perm.swap _ _ _)

theorem lt_length_iff {l l' : List PageData} {i : Nat} {d : PageData}
    (h : ∀ j, l'[j]? = if j = i then some d else l[j]?) (j : Nat) :
    j < l'.length ↔ j = i ∨ j < l.length := by
  rw [← not_le, ← List.getElem?_eq_none_iff, h j]
  by_cases hj : j = i
  · simp [hj]
  · simp [hj]

namespace Stored

variable {t : Prop} {s s' : PropState} {live : List Entry} {free held : List Nat}

theorem perm {live' : List Entry} (h : Stored t s live free held) (hp : live.Perm live') :
    Stored t s live' free held where
  rids := (hp.map Entry.rid).nodup_iff.1 h.rids
  holds e he := h.holds e (hp.mem_iff.2 he)
  counted hpage := by
    rw [← slotsOn_perm hp]
    exact h.counted hpage
  apart e he e' he' := h.apart e (hp.mem_iff.2 he) e' (hp.mem_iff.2 he')
  freeAt := h.freeAt
  free_apart e he := h.free_apart e (hp.mem_iff.2 he)
  held_nodup := h.held_nodup
  held_lt := h.held_lt
  held_apart e he := h.held_apart e (hp.mem_iff.2 he)
  held_free := h.held_free
  exact ht _ _ := by
    rw [← slotsOn_perm hp]
    exact h.exact ht
  cover ht i hi := by
    rcases h.cover ht i hi with h1 | h1 | ⟨e, he, h1⟩
    · exact .inl h1
    · exact .inr (.inl h1)
    · exact .inr (.inr ⟨e, hp.mem_iff.1 he, h1⟩)

theorem held_perm {held' : List Nat} (h : Stored t s live free held) (hp : held.Perm held') :
    Stored t s live free held' where
  __ := h
  held_nodup := hp.nodup_iff.1 h.held_nodup
  held_lt i hi := h.held_lt i (hp.mem_iff.2 hi)
  held_apart e he i hi hh := h.held_apart e he i hi (hp.mem_iff.2 hh)
  held_free i hi := h.held_free i (hp.mem_iff.2 hi)
  cover ht i hi := by
    rw [← hp.mem_iff]
    exact h.cover ht i hi

/-- Pages in hand may be dropped where leaks do not matter. -/
theorem dropHeld (h : Stored t s live free held) : Stored False s live free [] where
  __ := h
  held_nodup := List.nodup_nil
  held_lt _ hi := by cases hi
  held_apart _ _ _ _ hi := by cases hi
  held_free _ hi := by cases hi
  exact ht := ht.elim
  cover ht := ht.elim

theorem tighten (h : Stored False s live free held) (ht : ¬ t) : Stored t s live free held where
  __ := h
  exact ht' := absurd ht' ht
  cover ht' := absurd ht' ht

theorem slotsOn_held (h : Stored t s live free held) {i : Nat} (hi : i ∈ held) :
    slotsOn live i = 0 := by
  by_contra hne
  obtain ⟨e, he, -, rfl⟩ := slotsOn_pos.1 (Nat.pos_of_ne_zero hne)
  exact h.held_apart e he _ (h.holds e he).mem_pages hi

theorem slotsOn_free (h : Stored t s live free held) {i : Nat} (hi : i ∈ free) :
    slotsOn live i = 0 := by
  by_contra hne
  obtain ⟨e, he, -, rfl⟩ := slotsOn_pos.1 (Nat.pos_of_ne_zero hne)
  exact h.free_apart e he _ (h.holds e he).mem_pages hi

theorem slotsOn_new (h : Stored t s live free held) {i : Nat} (hi : s.pages.length ≤ i) :
    slotsOn live i = 0 := by
  by_contra hne
  obtain ⟨e, he, -, rfl⟩ := slotsOn_pos.1 (Nat.pos_of_ne_zero hne)
  have := (h.holds e he).lt_length (h.holds e he).mem_pages
  omega

/-! ## Allocating and rewriting pages -/

/-- **An allocated page belongs to nobody.** -/
theorem alloc (h : Stored t s live free held) {i : Nat} {d : PageData}
    (ha : Allocated s s' free i d) : Stored t s' live free.tail (i :: held) := by
  have htail : ∀ j ∈ free.tail, j ∈ free := fun j hj => List.mem_of_mem_tail hj
  have hfresh : ∀ e ∈ live, i ∉ e.pages := by
    intro e he hi
    rcases ha.origin with hf | ⟨-, rfl⟩
    · exact h.free_apart e he i hi (by rw [hf]; simp)
    · exact absurd ((h.holds e he).lt_length hi) (Nat.lt_irrefl _)
  have hzero : slotsOn live i = 0 := by
    rcases ha.origin with hf | ⟨-, rfl⟩
    · exact h.slotsOn_free (by rw [hf]; simp)
    · exact h.slotsOn_new (Nat.le_refl _)
  have hheld : i ∉ held := by
    intro hi
    rcases ha.origin with hf | ⟨-, rfl⟩
    · exact h.held_free i hi (by rw [hf]; simp)
    · exact absurd (h.held_lt _ hi) (Nat.lt_irrefl _)
  have htail' : i ∉ free.tail := by
    rcases ha.origin with hf | ⟨hf, -⟩
    · have hnd := h.freeAt.nodup
      rw [hf] at hnd
      exact (List.nodup_cons.1 hnd).1
    · simp [hf]
  have hlt := lt_length_iff ha.pages
  refine ⟨h.rids, ?_, ?_, h.apart, ha.free, ?_, ?_, ?_, ?_, ?_, ?_, ?_⟩
  · intro e he
    refine (h.holds e he).congr fun j hj => ha.other ?_
    rintro rfl
    exact hfresh e he hj
  · intro j page hpage
    by_cases hj : j = i
    · simp [hj, hzero]
    · rw [ha.other hj] at hpage
      exact h.counted hpage
  · exact fun e he j hj hfree => h.free_apart e he j hj (htail j hfree)
  · exact List.nodup_cons.2 ⟨hheld, h.held_nodup⟩
  · intro j hj
    rw [hlt]
    rcases List.mem_cons.1 hj with rfl | hj
    · exact .inl rfl
    · exact .inr (h.held_lt j hj)
  · intro e he j hj hin
    rcases List.mem_cons.1 hin with rfl | hin
    · exact hfresh e he hj
    · exact h.held_apart e he j hj hin
  · intro j hj
    rcases List.mem_cons.1 hj with rfl | hj
    · exact htail'
    · exact fun hfree => h.held_free j hj (htail j hfree)
  · intro ht j page hpage hpos
    have hj : j ≠ i := by
      rintro rfl
      omega
    rw [ha.other hj] at hpage
    exact h.exact ht hpage hpos
  · intro ht j hj
    by_cases hji : j = i
    · exact .inr (.inl (by simp [hji]))
    · rcases h.cover ht j (((hlt j).1 hj).resolve_left hji) with h1 | h1 | h1
      · rcases ha.origin with hf | ⟨hf, -⟩
        · rw [hf] at h1
          exact .inl ((List.mem_cons.1 h1).resolve_left hji)
        · simp [hf] at h1
      · exact .inr (.inl (by simp [h1]))
      · exact .inr (.inr h1)

/-- Pages in hand may be rewritten. -/
theorem rewriteHeld (h : Stored t s live free held) (hlen : s'.pages.length = s.pages.length)
    (hp : ∀ i, i ∉ held → s'.pages[i]? = s.pages[i]?) (hf : s'.freeHead = s.freeHead) :
    Stored t s' live free held where
  __ := h
  holds e he := (h.holds e he).congr fun i hi => hp i (h.held_apart e he i hi)
  counted {i page} hpage := by
    by_cases hi : i ∈ held
    · simp [h.slotsOn_held hi]
    · rw [hp i hi] at hpage
      exact h.counted hpage
  freeAt := by
    rw [hf]
    exact h.freeAt.congr fun i hi => hp i fun hh => h.held_free i hh hi
  held_lt i hi := by
    rw [hlen]
    exact h.held_lt i hi
  exact ht i page hpage hpos := by
    have hi : i ∉ held := by
      intro hi
      rw [h.slotsOn_held hi] at hpos
      exact Nat.lt_irrefl _ hpos
    rw [hp i hi] at hpage
    exact h.exact ht hpage hpos
  cover ht i hi := h.cover ht i (by rwa [← hlen])

/-! ## New values -/

theorem ne_chain {page : PageData} {slot : UInt16} {b : List UInt8} (h : SlotHolds page slot b) :
    slot ≠ CHAIN_HEAD_SLOT := by
  rintro rfl
  have h1 := h.slot_lt
  have : CHAIN_HEAD_SLOT.toNat = 65535 := rfl
  unfold dirOffset HEADER_SIZE SLOT_ENTRY_SIZE PAGE_SIZE at h1
  omega

/-- **A slot written to a page of slots, or to a page in hand, is a new live value.** -/
theorem insertSlot (h : Stored t s live free held) {i : Nat} {p p' : PageData} {slot : UInt16}
    {v : List UInt8} (hp : s.pages[i]? = some p) (hw : Written p p' slot v)
    (hpages : ∀ j, s'.pages[j]? = if j = i then some p' else s.pages[j]?)
    (hfh : s'.freeHead = s.freeHead) (hfree : i ∉ free)
    (hchain : ∀ e ∈ live, ¬ e.IsSlot → i ∉ e.pages) (hi : i < UInt32.size)
    (ht : t → (liveCount p).toNat = slotsOn live i) :
    Stored t s' (⟨⟨UInt32.ofNat i, slot⟩, v, [i]⟩ :: live) free (held.erase i) := by
  have hto : (UInt32.ofNat i).toNat = i := by
    rw [UInt32.toNat_ofNat']
    exact Nat.mod_eq_of_lt hi
  have hslot : (⟨⟨UInt32.ofNat i, slot⟩, v, [i]⟩ : Entry).IsSlot := ne_chain hw.new
  have hself : s'.pages[i]? = some p' := by rw [hpages, if_pos rfl]
  have hother : ∀ {j}, j ≠ i → s'.pages[j]? = s.pages[j]? := fun hj => by rw [hpages, if_neg hj]
  have hcount : ∀ j, slotsOn (⟨⟨UInt32.ofNat i, slot⟩, v, [i]⟩ :: live) j =
      slotsOn live j + if i = j then 1 else 0 := by
    intro j
    simp only [slotsOn_cons, hto, hslot, true_and]
  have hholds : ∀ e ∈ live, HoldsAt s'.pages e := by
    intro e he
    have hold := h.holds e he
    by_cases hs : e.IsSlot
    · refine ⟨fun _ => ?_, fun hb => absurd hs hb⟩
      obtain ⟨hpg, page, hpage, hsh⟩ := hold.slot hs
      refine ⟨hpg, ?_⟩
      by_cases hei : e.rid.pageId.toNat = i
      · rw [hei, hp] at hpage
        cases hpage
        exact ⟨p', by rw [hei, hself], hw.old hsh⟩
      · exact ⟨page, by rw [hother hei, hpage], hsh⟩
    · refine hold.congr fun j hj => hother ?_
      rintro rfl
      exact hchain e he hs hj
  have hnew : ∀ e ∈ live, e.rid ≠ ⟨UInt32.ofNat i, slot⟩ := by
    intro e he heq
    have hs : e.IsSlot := by
      unfold Entry.IsSlot
      rw [heq]
      exact hslot
    obtain ⟨-, page, hpage, hsh⟩ := (h.holds e he).slot hs
    rw [heq] at hpage hsh
    dsimp only at hpage hsh
    rw [hto, hp] at hpage
    cases hpage
    have := hsh.lt
    rw [hw.slot_eq] at this
    exact Nat.lt_irrefl _ this
  have hpage_i : ∀ e ∈ live, i ∈ e.pages → e.IsSlot := fun e he hmem =>
    Decidable.byContradiction fun hs => hchain e he hs hmem
  refine ⟨?_, ?_, ?_, ?_, ?_, ?_, ?_, ?_, ?_, ?_, ?_, ?_⟩
  · rw [List.map_cons, List.nodup_cons]
    refine ⟨?_, h.rids⟩
    intro hmem
    obtain ⟨e, he, heq⟩ := List.mem_map.1 hmem
    exact hnew e he heq
  · intro e he
    rcases List.mem_cons.1 he with rfl | he
    · exact ⟨fun _ => ⟨by rw [hto], p', by rw [hto, hself], hw.new⟩, fun hb => absurd hslot hb⟩
    · exact hholds e he
  · intro j page hpage
    rw [hcount]
    by_cases hj : j = i
    · subst hj
      rw [hself] at hpage
      cases hpage
      have := h.counted hp
      rw [if_pos rfl, hw.liveCount]
      omega
    · rw [hother hj] at hpage
      rw [if_neg (Ne.symm hj)]
      exact h.counted hpage
  · intro e he e' he' j hj hj'
    rcases List.mem_cons.1 he with rfl | he
    · have hji : j = i := by simpa using hj
      rcases List.mem_cons.1 he' with rfl | he'
      · exact .inl rfl
      · exact .inr ⟨hslot, hpage_i e' he' (hji ▸ hj')⟩
    · rcases List.mem_cons.1 he' with rfl | he'
      · have hji : j = i := by simpa using hj'
        exact .inr ⟨hpage_i e he (hji ▸ hj), hslot⟩
      · exact h.apart e he e' he' j hj hj'
  · rw [hfh]
    refine h.freeAt.congr fun j hj => hother ?_
    rintro rfl
    exact hfree hj
  · intro e he j hj
    rcases List.mem_cons.1 he with rfl | he
    · obtain rfl : j = i := by simpa using hj
      exact hfree
    · exact h.free_apart e he j hj
  · exact h.held_nodup.erase i
  · intro j hj
    rw [lt_length_iff hpages]
    exact .inr (h.held_lt j (List.mem_of_mem_erase hj))
  · intro e he j hj
    rcases List.mem_cons.1 he with rfl | he
    · obtain rfl : j = i := by simpa using hj
      exact h.held_nodup.not_mem_erase
    · exact fun hh => h.held_apart e he j hj (List.mem_of_mem_erase hh)
  · exact fun j hj => h.held_free j (List.mem_of_mem_erase hj)
  · intro htight j page hpage hpos
    rw [hcount] at hpos ⊢
    by_cases hj : j = i
    · subst hj
      rw [hself] at hpage
      cases hpage
      rw [if_pos rfl, hw.liveCount, ht htight]
    · rw [hother hj] at hpage
      rw [if_neg (Ne.symm hj)] at hpos ⊢
      exact h.exact htight hpage hpos
  · intro htight j hj
    by_cases hji : j = i
    · exact .inr (.inr ⟨_, List.mem_cons_self, by simp [hji]⟩)
    · rcases h.cover htight j (((lt_length_iff hpages j).1 hj).resolve_left hji) with
        h1 | h1 | ⟨e, he, h1⟩
      · exact .inl h1
      · exact .inr (.inl ((List.mem_erase_of_ne hji).2 h1))
      · exact .inr (.inr ⟨e, List.mem_cons_of_mem _ he, h1⟩)

/-- **A chain on pages in hand is a new live value.** -/
theorem insertBlob {c : List Nat} {i : Nat} {b : List UInt8} (h : Stored t s live free (c ++ held))
    (hhead : c.head? = some i) (hi : i < UInt32.size) (hlen : c.length = pagesNeeded b.length)
    (hc : ChainAt s.pages b 0 c) :
    Stored t s (⟨⟨UInt32.ofNat i, CHAIN_HEAD_SLOT⟩, b, c⟩ :: live) free held := by
  have hto : (UInt32.ofNat i).toNat = i := by
    rw [UInt32.toNat_ofNat']
    exact Nat.mod_eq_of_lt hi
  have hblob : ¬ (⟨⟨UInt32.ofNat i, CHAIN_HEAD_SLOT⟩, b, c⟩ : Entry).IsSlot := fun hs => hs rfl
  have hcount : ∀ j, slotsOn (⟨⟨UInt32.ofNat i, CHAIN_HEAD_SLOT⟩, b, c⟩ :: live) j =
      slotsOn live j := by
    intro j
    simp [slotsOn_cons, hblob]
  have hnd := List.nodup_append.1 h.held_nodup
  have hapart : ∀ e ∈ live, ∀ j ∈ c, j ∉ e.pages := fun e he j hj hin =>
    h.held_apart e he j hin (List.mem_append_left _ hj)
  have himem : i ∈ c := List.mem_of_mem_head? hhead
  refine ⟨?_, ?_, ?_, ?_, h.freeAt, ?_, hnd.2.1, ?_, ?_, ?_, ?_, ?_⟩
  · rw [List.map_cons, List.nodup_cons]
    refine ⟨?_, h.rids⟩
    intro hmem
    obtain ⟨e, he, heq⟩ := List.mem_map.1 hmem
    have hin := (h.holds e he).mem_pages
    rw [heq] at hin
    dsimp only at hin
    rw [hto] at hin
    exact hapart e he i himem hin
  · intro e he
    rcases List.mem_cons.1 he with rfl | he
    · exact ⟨fun hs => absurd hs hblob, fun _ => ⟨by rw [hto]; exact hhead, hnd.1, hlen, hc⟩⟩
    · exact h.holds e he
  · intro j page hpage
    rw [hcount]
    exact h.counted hpage
  · intro e he e' he' j hj hj'
    rcases List.mem_cons.1 he with rfl | he
    · rcases List.mem_cons.1 he' with rfl | he'
      · exact .inl rfl
      · exact absurd hj' (hapart e' he' j hj)
    · rcases List.mem_cons.1 he' with rfl | he'
      · exact absurd hj (hapart e he j hj')
      · exact h.apart e he e' he' j hj hj'
  · intro e he j hj
    rcases List.mem_cons.1 he with rfl | he
    · exact h.held_free j (List.mem_append_left _ hj)
    · exact h.free_apart e he j hj
  · exact fun j hj => h.held_lt j (List.mem_append_right _ hj)
  · intro e he j hj
    rcases List.mem_cons.1 he with rfl | he
    · exact fun hh => hnd.2.2 j hj j hh rfl
    · exact fun hh => h.held_apart e he j hj (List.mem_append_right _ hh)
  · exact fun j hj => h.held_free j (List.mem_append_right _ hj)
  · intro ht j page hpage hpos
    rw [hcount] at hpos ⊢
    exact h.exact ht hpage hpos
  · intro ht j hj
    rcases h.cover ht j hj with h1 | h1 | ⟨e, he, h1⟩
    · exact .inl h1
    · rcases List.mem_append.1 h1 with h1 | h1
      · exact .inr (.inr ⟨_, List.mem_cons_self, h1⟩)
      · exact .inr (.inl h1)
    · exact .inr (.inr ⟨e, List.mem_cons_of_mem _ he, h1⟩)

/-! ## Freed values -/

/-- The pages of a blob that is dropped are in hand. -/
theorem removeBlob {e : Entry} (h : Stored t s (e :: live) free held) (hb : ¬ e.IsSlot) :
    Stored t s live free (e.pages ++ held) := by
  have hrids := List.nodup_cons.1 h.rids
  have hmem : ∀ {e'}, e' ∈ live → e' ∈ e :: live := fun he => List.mem_cons_of_mem _ he
  have hcount : ∀ j, slotsOn (e :: live) j = slotsOn live j := by
    intro j
    simp [slotsOn_cons, hb]
  have hnd := (((h.holds e List.mem_cons_self).blob hb).2.1)
  refine ⟨hrids.2, fun e' he' => h.holds e' (hmem he'), ?_, fun e₁ h₁ e₂ h₂ =>
    h.apart e₁ (hmem h₁) e₂ (hmem h₂), h.freeAt, fun e' he' => h.free_apart e' (hmem he'), ?_, ?_, ?_,
    ?_, ?_, ?_⟩
  · intro j page hpage
    rw [← hcount]
    exact h.counted hpage
  · exact List.nodup_append.2 ⟨hnd, h.held_nodup, fun a ha b hb he =>
      h.held_apart e List.mem_cons_self a ha (he ▸ hb)⟩
  · intro j hj
    rcases List.mem_append.1 hj with hj | hj
    · exact (h.holds e List.mem_cons_self).lt_length hj
    · exact h.held_lt j hj
  · intro e' he' j hj hin
    rcases List.mem_append.1 hin with hin | hin
    · rcases h.apart e List.mem_cons_self e' (hmem he') j hin hj with heq | ⟨hs, -⟩
      · exact hrids.1 (List.mem_map.2 ⟨e', he', heq.symm⟩)
      · exact hb hs
    · exact h.held_apart e' (hmem he') j hj hin
  · intro j hj
    rcases List.mem_append.1 hj with hj | hj
    · exact h.free_apart e List.mem_cons_self j hj
    · exact h.held_free j hj
  · intro ht j page hpage hpos
    rw [← hcount] at hpos ⊢
    exact h.exact ht hpage hpos
  · intro ht j hj
    rcases h.cover ht j hj with h1 | h1 | ⟨e', he', h1⟩
    · exact .inl h1
    · exact .inr (.inl (List.mem_append_right _ h1))
    · rcases List.mem_cons.1 he' with rfl | he'
      · exact .inr (.inl (List.mem_append_left _ h1))
      · exact .inr (.inr ⟨e', he', h1⟩)

/-- A slot that is freed: its page keeps the other slots, and is in hand when there are none. -/
theorem removeSlot {e : Entry} (h : Stored t s (e :: live) free held) (hs : e.IsSlot)
    {p p' : PageData} (hp : s.pages[e.rid.pageId.toNat]? = some p)
    (hfreed : Freed p p' e.rid.slotId)
    (hpages : ∀ j, s'.pages[j]? = if j = e.rid.pageId.toNat then some p' else s.pages[j]?)
    (hfh : s'.freeHead = s.freeHead) :
    (liveCount p' ≠ 0 → Stored t s' live free held) ∧
      (liveCount p' = 0 → Stored t s' live free (e.rid.pageId.toNat :: held)) := by
  have hrids := List.nodup_cons.1 h.rids
  have hmem : ∀ {e'}, e' ∈ live → e' ∈ e :: live := fun he => List.mem_cons_of_mem _ he
  have hhead := h.holds e List.mem_cons_self
  generalize hi : e.rid.pageId.toNat = i at *
  have hepages : e.pages = [i] := by rw [← hi]; exact (hhead.slot hs).1
  have hself : s'.pages[i]? = some p' := by rw [hpages, if_pos rfl]
  have hother : ∀ {j}, j ≠ i → s'.pages[j]? = s.pages[j]? := fun hj => by rw [hpages, if_neg hj]
  have hcount : ∀ j, slotsOn (e :: live) j = slotsOn live j + if i = j then 1 else 0 := by
    intro j
    simp only [slotsOn_cons, hi, hs, true_and]
  have hslots : ∀ e' ∈ live, i ∈ e'.pages → e'.IsSlot := by
    intro e' he' hin
    rcases h.apart e List.mem_cons_self e' (hmem he') i (by simp [hepages]) hin with heq | ⟨-, h'⟩
    · exact absurd (List.mem_map.2 ⟨e', he', heq.symm⟩) hrids.1
    · exact h'
  have hholds : ∀ e' ∈ live, HoldsAt s'.pages e' := by
    intro e' he'
    have hold := h.holds e' (hmem he')
    by_cases hs' : e'.IsSlot
    · refine ⟨fun _ => ?_, fun hb => absurd hs' hb⟩
      obtain ⟨hpg, page, hpage, hsh⟩ := hold.slot hs'
      refine ⟨hpg, ?_⟩
      by_cases hei : e'.rid.pageId.toNat = i
      · rw [hei, hp] at hpage
        cases hpage
        refine ⟨p', by rw [hei, hself], hfreed.other ?_ hsh⟩
        intro heq
        apply hrids.1
        refine List.mem_map.2 ⟨e', he', ?_⟩
        have hpid : e'.rid.pageId = e.rid.pageId := UInt32.toNat_inj.1 (hei.trans hi.symm)
        cases hr : e.rid
        cases hr' : e'.rid
        simp_all
      · exact ⟨page, by rw [hother hei, hpage], hsh⟩
    · refine hold.congr fun j hj => hother ?_
      rintro rfl
      exact hs' (hslots e' he' hj)
  have hcounted : ∀ {j page}, s'.pages[j]? = some page → slotsOn live j ≤ (liveCount page).toNat := by
    intro j page hpage
    by_cases hj : j = i
    · subst hj
      rw [hself] at hpage
      cases hpage
      have := h.counted hp
      rw [hcount, if_pos rfl] at this
      rw [hfreed.liveCount]
      omega
    · rw [hother hj] at hpage
      have := h.counted hpage
      rwa [hcount, if_neg (Ne.symm hj)] at this
  have hfree : i ∉ free := h.free_apart e List.mem_cons_self i (by simp [hepages])
  have hheld : i ∉ held := h.held_apart e List.mem_cons_self i (by simp [hepages])
  have hfreeAt : FreeAt s'.pages s'.freeHead free := by
    rw [hfh]
    refine h.freeAt.congr fun j hj => hother ?_
    rintro rfl
    exact hfree hj
  have hexact : t → ∀ {j page}, s'.pages[j]? = some page → 0 < slotsOn live j →
      (liveCount page).toNat = slotsOn live j := by
    intro ht j page hpage hpos
    by_cases hj : j = i
    · subst hj
      rw [hself] at hpage
      cases hpage
      have hone := hcount j
      rw [if_pos rfl] at hone
      rw [hfreed.liveCount, h.exact ht hp (by omega)]
      omega
    · rw [hother hj] at hpage
      have heq := hcount j
      rw [if_neg (Ne.symm hj)] at heq
      rw [h.exact ht hpage (by omega)]
      exact heq
  have hlt := lt_length_iff hpages
  have hilt : i < s.pages.length := (List.getElem?_eq_some_iff.1 hp).1
  refine ⟨fun hlive => ?_, fun hlive => ?_⟩
  · refine ⟨hrids.2, hholds, hcounted, fun e₁ h₁ e₂ h₂ => h.apart e₁ (hmem h₁) e₂ (hmem h₂),
      hfreeAt, fun e' he' => h.free_apart e' (hmem he'), h.held_nodup,
      fun j hj => (hlt j).2 (.inr (h.held_lt j hj)), fun e' he' => h.held_apart e' (hmem he'),
      h.held_free, hexact, ?_⟩
    intro ht j hj
    by_cases hji : j = i
    · -- another slot keeps the page
      have hpos : 0 < slotsOn live i := by
        by_contra hzero
        have hone := hcount i
        rw [if_pos rfl] at hone
        have hex := h.exact ht hp (by omega)
        apply hlive
        apply UInt16.toNat_inj.1
        rw [hfreed.liveCount, hex]
        show _ = 0
        omega
      obtain ⟨e', he', -, hpid⟩ := slotsOn_pos.1 hpos
      refine .inr (.inr ⟨e', he', ?_⟩)
      rw [hji, ← hpid]
      exact (hholds e' he').mem_pages
    · rcases h.cover ht j (((hlt j).1 hj).resolve_left hji) with h1 | h1 | ⟨e', he', h1⟩
      · exact .inl h1
      · exact .inr (.inl h1)
      · rcases List.mem_cons.1 he' with rfl | he'
        · rw [hepages] at h1
          exact absurd (by simpa using h1) hji
        · exact .inr (.inr ⟨e', he', h1⟩)
  · have hzero : slotsOn live i = 0 := by
      have := hcounted hself
      rw [hlive] at this
      exact Nat.le_zero.1 this
    have hnone : ∀ e' ∈ live, i ∉ e'.pages := by
      intro e' he' hin
      have hs' := hslots e' he' hin
      have hpos := slotsOn_pos.2 ⟨e', he', hs', (hholds e' he').eq_of_slot hs' hin⟩
      omega
    refine ⟨hrids.2, hholds, hcounted, fun e₁ h₁ e₂ h₂ => h.apart e₁ (hmem h₁) e₂ (hmem h₂),
      hfreeAt, fun e' he' => h.free_apart e' (hmem he'), List.nodup_cons.2 ⟨hheld, h.held_nodup⟩,
      ?_, ?_, ?_, hexact, ?_⟩
    · intro j hj
      rw [hlt]
      exact .inr ((List.mem_cons.1 hj).elim (fun he => he ▸ hilt) (h.held_lt j))
    · intro e' he' j hj hin
      rcases List.mem_cons.1 hin with rfl | hin
      · exact hnone e' he' hj
      · exact h.held_apart e' (hmem he') j hj hin
    · intro j hj
      rcases List.mem_cons.1 hj with rfl | hj
      · exact hfree
      · exact h.held_free j hj
    · intro ht j hj
      by_cases hji : j = i
      · exact .inr (.inl (by simp [hji]))
      · rcases h.cover ht j (((hlt j).1 hj).resolve_left hji) with h1 | h1 | ⟨e', he', h1⟩
        · exact .inl h1
        · exact .inr (.inl (List.mem_cons_of_mem _ h1))
        · rcases List.mem_cons.1 he' with rfl | he'
          · rw [hepages] at h1
            exact absurd (by simpa using h1) hji
          · exact .inr (.inr ⟨e', he', h1⟩)

/-- **A page in hand joins the free list.** -/
theorem freePage {i : Nat} {d : PageData} (h : Stored t s live free (i :: held))
    (hpages : ∀ j, s'.pages[j]? = if j = i then some d else s.pages[j]?)
    (hf : FreeAt s'.pages s'.freeHead (i :: free)) : Stored t s' live (i :: free) held := by
  have hother : ∀ {j}, j ≠ i → s'.pages[j]? = s.pages[j]? := fun hj => by rw [hpages, if_neg hj]
  have hnone : ∀ e ∈ live, i ∉ e.pages := fun e he hin => h.held_apart e he i hin (by simp)
  have hzero := h.slotsOn_held (i := i) (by simp)
  have hlt := lt_length_iff hpages
  have hnd := List.nodup_cons.1 h.held_nodup
  refine ⟨h.rids, ?_, ?_, h.apart, hf, ?_, hnd.2, ?_, ?_, ?_, ?_, ?_⟩
  · intro e he
    refine (h.holds e he).congr fun j hj => hother ?_
    rintro rfl
    exact hnone e he hj
  · intro j page hpage
    by_cases hj : j = i
    · simp [hj, hzero]
    · rw [hother hj] at hpage
      exact h.counted hpage
  · intro e he j hj hin
    rcases List.mem_cons.1 hin with rfl | hin
    · exact hnone e he hj
    · exact h.free_apart e he j hj hin
  · exact fun j hj => (hlt j).2 (.inr (h.held_lt j (by simp [hj])))
  · exact fun e he j hj hin => h.held_apart e he j hj (by simp [hin])
  · intro j hj hin
    rcases List.mem_cons.1 hin with rfl | hin
    · exact hnd.1 hj
    · exact h.held_free j (by simp [hj]) hin
  · intro ht j page hpage hpos
    have hj : j ≠ i := by
      rintro rfl
      omega
    rw [hother hj] at hpage
    exact h.exact ht hpage hpos
  · intro ht j hj
    by_cases hji : j = i
    · exact .inl (by simp [hji])
    · rcases h.cover ht j (((hlt j).1 hj).resolve_left hji) with h1 | h1 | h1
      · exact .inl (by simp [h1])
      · exact .inr (.inl ((List.mem_cons.1 h1).resolve_left hji))
      · exact .inr (.inr h1)

end Stored

end ChiffonDB
