import ChiffonDB.Storage.LogicalPages

/-!
# Property pages

The property pages of a file and their free list (`storage/file.rs`).

* `PropPages` — what the property store sees of a file: the contents of its property pages, the
  free-slot hint and the head of the free list.
* `FreeAt` — the free list, linked through the pages it holds.
* `PropPages.run_alloc` — **allocation reuses the head of the free list, or appends a page**.
* `PropPages.run_free` — freeing a page pushes it onto the list.
* `PropPages.run_allocTopologyPage`, `PropPages.run_append` — pages for others change nothing here.
-/

set_option autoImplicit false

namespace ChiffonDB

open Bytes

/-- `slot_count` of a page on the free list. -/
def FREE_PAGE_MARKER : UInt16 := 0xFFFF

/-- Set fields of `db.header`, then `write_header`. -/
def updateHeader (f : FileHeader → FileHeader) : Prog Unit := do
  let h ← Prog.getHeader
  Prog.putHeader (f h)

def propertyPageCount : Prog Nat := do
  let h ← Prog.getHeader
  pure h.propertyDirLen.toNat

/-- The hint, clamped to the number of pages. -/
def FileHeader.propertyFirstFreeHint (h : FileHeader) : Nat :=
  (min h.propertyFirstFreePage h.propertyDirLen).toNat

def propertyFirstFreeHint : Prog Nat := do
  let h ← Prog.getHeader
  pure h.propertyFirstFreeHint

def setPropertyFirstFreeHint (hint : Nat) : Prog Unit :=
  updateHeader fun h => { h with propertyFirstFreePage := UInt32.ofNat hint }

/-- A page of the free list: the marker and the next page's number. -/
def freedPage (next : UInt32) : PageData :=
  (PageData.zero.splice 0 (u16Bytes FREE_PAGE_MARKER) (by rw [length_u16Bytes]; decide)).splice 4
    (u32Bytes next) (by rw [length_u32Bytes]; decide)

def freePropertyPage (logical : Nat) : Prog Unit := do
  let h ← Prog.getHeader
  writePropertyPage logical (freedPage h.propertyFreeListHead)
  updateHeader fun h => { h with propertyFreeListHead := UInt32.ofNat logical }

def popPropertyFreePage : Prog (Option Nat) := do
  let h ← Prog.getHeader
  let head := h.propertyFreeListHead
  if head = NO_FREE_PAGE then pure none
  else do
    let page ← readPropertyPage head.toNat
    if u16At page.bytes 0 ≠ FREE_PAGE_MARKER then do
      -- a corrupt list is dropped
      updateHeader fun h => { h with propertyFreeListHead := NO_FREE_PAGE }
      pure none
    else do
      updateHeader fun h => { h with propertyFreeListHead := u32At page.bytes 4 }
      pure (some head.toNat)

def allocPropertyPage (data : PageData) : Prog Nat := do
  match ← popPropertyFreePage with
  | some logical => do
    writePropertyPage logical data
    pure logical
  | none => mapPage .property data

theorem u16At_freedPage (next : UInt32) : u16At (freedPage next).bytes 0 = FREE_PAGE_MARKER := by
  unfold freedPage
  rw [PageData.u16At_splice_ne _ _ (by simp), PageData.u16At_splice_self]

theorem u32At_freedPage (next : UInt32) : u32At (freedPage next).bytes 4 = next :=
  PageData.u32At_splice_self _ _ _

/-! ## The property pages of a file -/

/-- What the property store sees of a file. -/
structure PropState where
  pages : List PageData
  hint : UInt32
  freeHead : UInt32

structure PropPages (m : PageMap) (s : PropState) : Prop where
  layout : ∃ D, Layout m D ∧ contents m (D .property).phys = s.pages
  hint : m.header.propertyFirstFreePage = s.hint
  freeHead : m.header.propertyFreeListHead = s.freeHead

theorem withDir_hint (h : FileHeader) (k : DirKind) (root len : UInt32) :
    (h.withDir k root len).propertyFirstFreePage = h.propertyFirstFreePage := by
  rcases k with _ | _ | _ <;> rfl

theorem withDir_freeHead (h : FileHeader) (k : DirKind) (root len : UInt32) :
    (h.withDir k root len).propertyFreeListHead = h.propertyFreeListHead := by
  rcases k with _ | _ | _ <;> rfl

namespace PropPages

variable {m : PageMap} {s : PropState}

theorem dirLen (h : PropPages m s) : m.header.propertyDirLen.toNat = s.pages.length := by
  obtain ⟨D, hl, hp⟩ := h.layout
  have := hl.len .property
  simp [← hp, contents] at this ⊢
  exact this

theorem length_lt (h : PropPages m s) : s.pages.length < UInt32.size := by
  rw [← h.dirLen]
  exact UInt32.toNat_lt _

theorem toNat_ofNat (h : PropPages m s) {i : Nat} (hi : i < s.pages.length) :
    (UInt32.ofNat i).toNat = i := by
  rw [UInt32.toNat_ofNat']
  exact Nat.mod_eq_of_lt (Nat.lt_trans hi h.length_lt)

/-- A page number is none of the sentinels. -/
theorem ofNat_ne (h : PropPages m s) {i : Nat} (hi : i < s.pages.length) :
    UInt32.ofNat i ≠ 0xFFFFFFFF := by
  intro he
  have h1 := h.toNat_ofNat hi
  have h2 := h.length_lt
  rw [he] at h1
  have : (0xFFFFFFFF : UInt32).toNat = UInt32.size - 1 := rfl
  omega

theorem run_count (h : PropPages m s) : propertyPageCount.run m = (.ok s.pages.length, m) := by
  rw [← h.dirLen]
  rfl

theorem firstFreeHint_le (h : PropPages m s) : m.header.propertyFirstFreeHint ≤ s.pages.length := by
  rw [← h.dirLen]
  unfold FileHeader.propertyFirstFreeHint
  have hmin : min m.header.propertyFirstFreePage m.header.propertyDirLen ≤
      m.header.propertyDirLen := by
    rw [UInt32.min_def]
    split
    · assumption
    · exact UInt32.le_refl _
  exact UInt32.le_iff_toNat_le.1 hmin

theorem run_read (h : PropPages m s) (logical : Nat) :
    (readPropertyPage logical).run m = match s.pages[logical]? with
      | none => (.err (.storageCorrupted (UInt32.ofNat logical)), m)
      | some d => (.ok d, m) := by
  obtain ⟨D, hl, hp⟩ := h.layout
  rw [← hp]
  exact hl.run_readLogicalPage .property logical

/-- Overwriting a property page. -/
theorem run_write (h : PropPages m s) {i : Nat} (hi : i < s.pages.length) (d : PageData) :
    ∃ m', (writePropertyPage i d).run m = (.ok (), m') ∧ m'.count = m.count ∧
      PropPages m' { s with pages := s.pages.set i d } := by
  obtain ⟨D, hl, hp⟩ := h.layout
  have hlen : i < (D .property).phys.length := by
    simpa [← hp, contents] using hi
  have hpi := List.getElem?_eq_getElem hlen
  have hrun := hl.run_writeLogicalPage .property i d
  rw [hpi] at hrun
  refine ⟨_, hrun, rfl, ⟨D, hl.set_phys (List.mem_of_getElem? hpi) d, ?_⟩, h.hint, h.freeHead⟩
  rw [hl.contents_set hpi, hp]

/-- Setting header fields that describe no directory. -/
theorem run_updateHeader (h : PropPages m s) {f : FileHeader → FileHeader}
    (hr : (f m.header).dirRoot = m.header.dirRoot) (hl : (f m.header).dirLen = m.header.dirLen) :
    ∃ m', (updateHeader f).run m = (.ok (), m') ∧ m'.count = m.count ∧ m'.header = f m.header ∧
      PropPages m' ⟨s.pages, (f m.header).propertyFirstFreePage,
        (f m.header).propertyFreeListHead⟩ := by
  obtain ⟨D, hlay, hp⟩ := h.layout
  refine ⟨{ m.set 0 (f m.header).serialize with header := f m.header }, ?_, rfl, rfl,
    ⟨D, hlay.set_header hr hl, ?_⟩, rfl, rfl⟩
  · unfold updateHeader
    rw [Prog.run_bind, Prog.run_getHeader, Prog.andThen_ok]
    exact Prog.run_putHeader hlay.page0
  · rw [← hp]
    apply Layout.contents_congr
    intro p hmem
    exact m.set_pages_of_ne (hlay.bound .property p (Layout.mem_phys hmem)).1 _

theorem run_setHint (h : PropPages m s) (hint : Nat) :
    ∃ m', (setPropertyFirstFreeHint hint).run m = (.ok (), m') ∧ m'.count = m.count ∧
      PropPages m' { s with hint := UInt32.ofNat hint } := by
  obtain ⟨m', hrun, hc, -, h'⟩ :=
    h.run_updateHeader (f := fun h => { h with propertyFirstFreePage := UInt32.ofNat hint })
      (by funext k; rcases k with _ | _ | _ <;> rfl) (by funext k; rcases k with _ | _ | _ <;> rfl)
  have hf := h.freeHead
  refine ⟨m', hrun, hc, ?_⟩
  rw [← hf]
  exact h'

theorem run_setFreeHead (h : PropPages m s) (head : UInt32) :
    ∃ m', (updateHeader fun h => { h with propertyFreeListHead := head }).run m = (.ok (), m') ∧
      m'.count = m.count ∧ PropPages m' { s with freeHead := head } := by
  obtain ⟨m', hrun, hc, -, h'⟩ :=
    h.run_updateHeader (f := fun h => { h with propertyFreeListHead := head })
      (by funext k; rcases k with _ | _ | _ <;> rfl) (by funext k; rcases k with _ | _ | _ <;> rfl)
  refine ⟨m', hrun, hc, ?_⟩
  rw [← h.hint]
  exact h'

/-- A page appended for others. -/
theorem append (h : PropPages m s) (hc : m.count.toNat + 1 < UInt32.size) (d : PageData) :
    PropPages { m.set m.count d with count := m.count + 1 } s := by
  obtain ⟨D, hl, hp⟩ := h.layout
  refine ⟨⟨D, hl.append hc d, ?_⟩, h.hint, h.freeHead⟩
  rw [← hp]
  apply Layout.contents_congr
  intro p hmem
  apply m.set_pages_of_ne
  rintro rfl
  exact absurd (hl.bound .property _ (Layout.mem_phys hmem)).2 (UInt32.lt_irrefl _)

theorem run_append (h : PropPages m s) (d : PageData) :
    ((Prog.append d).run m).1 = .panic ∨
    ∃ p m', (Prog.append d).run m = (.ok p, m') ∧ PropPages m' s := by
  by_cases hc : m.count.toNat + 1 < UInt32.size
  · exact .inr ⟨_, _, Prog.run_append hc, h.append hc d⟩
  · left
    have hnone : m.appendPage d = none := if_neg hc
    unfold Prog.append Prog.run
    rw [hnone]

/-- What mapping a page in the directory `k` does to the property pages. -/
theorem run_mapPage (h : PropPages m s) (k : DirKind) (d : PageData) :
    (UInt32.size ≤ m.count.toNat + 2 ∧ ((mapPage k d).run m).1 = .panic) ∨
    ∃ logical m', (mapPage k d).run m = (.ok logical, m') ∧ m'.count.toNat ≤ m.count.toNat + 2 ∧
      (k = .property → logical = s.pages.length) ∧
      PropPages m' { s with pages := if k = .property then s.pages ++ [d] else s.pages } := by
  obtain ⟨D, hl, hp⟩ := h.layout
  rcases hl.run_mapPage k d with hpanic | ⟨m', D', hrun, hm⟩
  · exact .inl hpanic
  refine .inr ⟨_, m', hrun, ?_, ?_, ⟨D', hm.layout, ?_⟩, ?_, ?_⟩
  · have hcount := hm.count
    dsimp only at hcount
    rw [UInt32.toNat_add] at hcount
    have := Nat.mod_le (m.count.toNat + (1 : UInt32).toNat) (2 ^ 32)
    have h1 : (1 : UInt32).toNat = 1 := rfl
    omega
  · rintro rfl
    simp [← hp, contents]
  · have hfresh : ∀ {p}, p ∈ (D .property).phys → p ≠ m.count := by
      rintro p hmem rfl
      exact absurd (hl.bound .property _ (Layout.mem_phys hmem)).2 (UInt32.lt_irrefl _)
    have hold : contents m' (D .property).phys = s.pages := by
      rw [← hp]
      apply Layout.contents_congr
      intro p hmem
      rw [hm.old p (.inr ⟨.property, hmem⟩)]
      exact m.set_pages_of_ne (hfresh hmem) d
    by_cases hk : k = .property
    · subst hk
      rw [if_pos rfl, ← hold, hm.phys]
      unfold contents
      rw [List.map_append, List.map_singleton, hm.old m.count (.inl rfl)]
      show _ ++ [((m.set m.count d).pages m.count).getD _] = _
      rw [m.set_pages_self, Option.getD_some]
    · rw [if_neg hk, ← hold, hm.others .property (Ne.symm hk)]
  · obtain ⟨root, len, hh⟩ := hm.header
    rw [hh, withDir_hint]
    exact h.hint
  · obtain ⟨root, len, hh⟩ := hm.header
    rw [hh, withDir_freeHead]
    exact h.freeHead

theorem run_allocTopologyPage (h : PropPages m s) (kind : TopologyKind) (d : PageData) :
    ((allocTopologyPage kind d).run m).1 = .panic ∨
    ∃ logical m', (allocTopologyPage kind d).run m = (.ok logical, m') ∧ PropPages m' s := by
  rcases h.run_mapPage (.topology kind) d with ⟨-, hpanic⟩ | ⟨logical, m', hrun, -, -, h'⟩
  · exact .inl hpanic
  · exact .inr ⟨logical, m', hrun, h'⟩

end PropPages

/-! ## The free list -/

/-- The pages `free`, linked from `head`. -/
inductive FreeAt (pages : List PageData) : UInt32 → List Nat → Prop
  | nil : FreeAt pages NO_FREE_PAGE []
  | cons {head : UInt32} {page : PageData} {rest : List Nat} (hne : head ≠ NO_FREE_PAGE)
      (hp : pages[head.toNat]? = some page) (hm : u16At page.bytes 0 = FREE_PAGE_MARKER)
      (hrest : FreeAt pages (u32At page.bytes 4) rest) (hnot : head.toNat ∉ rest) :
      FreeAt pages head (head.toNat :: rest)

namespace FreeAt

variable {pages pages' : List PageData} {head : UInt32} {free : List Nat}

theorem congr (h : FreeAt pages head free) (hp : ∀ i ∈ free, pages'[i]? = pages[i]?) :
    FreeAt pages' head free := by
  induction h with
  | nil => exact .nil
  | cons hne hpage hm _ hnot ih =>
    refine .cons hne ?_ hm (ih fun i hi => hp i (by simp [hi])) hnot
    rw [hp _ (by simp), hpage]

theorem nodup (h : FreeAt pages head free) : free.Nodup := by
  induction h with
  | nil => exact List.nodup_nil
  | cons _ _ _ _ hnot ih => exact List.nodup_cons.2 ⟨hnot, ih⟩

theorem lt_length (h : FreeAt pages head free) {i : Nat} (hi : i ∈ free) : i < pages.length := by
  induction h with
  | nil => cases hi
  | cons _ hp _ _ _ ih =>
    rcases List.mem_cons.1 hi with rfl | hi
    · exact (List.getElem?_eq_some_iff.1 hp).1
    · exact ih hi

theorem marked (h : FreeAt pages head free) {i : Nat} (hi : i ∈ free) :
    ∃ page, pages[i]? = some page ∧ u16At page.bytes 0 = FREE_PAGE_MARKER := by
  induction h with
  | nil => cases hi
  | cons _ hp hm _ _ ih =>
    rcases List.mem_cons.1 hi with rfl | hi
    · exact ⟨_, hp, hm⟩
    · exact ih hi

end FreeAt

/-- What allocating page `i` for `d` does, the free list being `free`. -/
structure Allocated (s s' : PropState) (free : List Nat) (i : Nat) (d : PageData) : Prop where
  pages : ∀ j, s'.pages[j]? = if j = i then some d else s.pages[j]?
  hint : s'.hint = s.hint
  origin : free = i :: free.tail ∨ free = [] ∧ i = s.pages.length
  free : FreeAt s'.pages s'.freeHead free.tail

namespace Allocated

variable {s s' : PropState} {free : List Nat} {i : Nat} {d : PageData}

theorem self (h : Allocated s s' free i d) : s'.pages[i]? = some d := by simp [h.pages]

theorem other (h : Allocated s s' free i d) {j : Nat} (hj : j ≠ i) : s'.pages[j]? = s.pages[j]? := by
  simp [h.pages, hj]

end Allocated

namespace PropPages

variable {m : PageMap} {s : PropState} {free : List Nat}

theorem getElem?_append_one {α : Type} (l : List α) (a : α) (j : Nat) :
    (l ++ [a])[j]? = if j = l.length then some a else l[j]? := by
  rw [List.getElem?_append]
  split
  · rw [if_neg (by omega)]
  · split
    · rename_i hj
      simp [hj]
    · rw [List.getElem?_eq_none (by simp; omega), List.getElem?_eq_none (by omega)]

theorem getElem?_set_lt {α : Type} {l : List α} {i : Nat} (hi : i < l.length) (a : α) (j : Nat) :
    (l.set i a)[j]? = if j = i then some a else l[j]? := by
  rw [List.getElem?_set]
  by_cases hj : j = i
  · simp [hj, hi]
  · simp [hj, Ne.symm hj]

/-- **An allocated page is the head of the free list or a new one.** -/
theorem run_alloc (h : PropPages m s) (hf : FreeAt s.pages s.freeHead free) (d : PageData) :
    (UInt32.size ≤ m.count.toNat + 2 ∧ ((allocPropertyPage d).run m).1 = .panic) ∨
    ∃ i m' s', (allocPropertyPage d).run m = (.ok i, m') ∧ PropPages m' s' ∧
      Allocated s s' free i d ∧ m'.count.toNat ≤ m.count.toNat + 2 := by
  unfold allocPropertyPage popPropertyFreePage
  rw [Prog.run_bind, Prog.run_bind, Prog.run_getHeader, Prog.andThen_ok, h.freeHead]
  dsimp only
  generalize hhead : s.freeHead = head at hf
  cases hf with
  | nil =>
    rw [if_pos rfl, Prog.run_pure, Prog.andThen_ok]
    rcases h.run_mapPage .property d with hpanic | ⟨i, m', hrun, hc, hi, h'⟩
    · exact .inl hpanic
    · refine .inr ⟨i, m', _, hrun, h', ⟨?_, rfl, .inr ⟨rfl, hi rfl⟩, ?_⟩, hc⟩
      · intro j
        rw [if_pos rfl, hi rfl]
        exact getElem?_append_one _ _ _
      · show FreeAt _ s.freeHead []
        rw [hhead]
        exact .nil
  | @cons _ page rest hne hp hm hrest hnot =>
    obtain ⟨m₁, hrun₁, hc₁, h₁⟩ := h.run_setFreeHead (u32At page.bytes 4)
    have hlt : head.toNat < s.pages.length := (List.getElem?_eq_some_iff.1 hp).1
    obtain ⟨m₂, hrun₂, hc₂, h₂⟩ := h₁.run_write hlt d
    have hread := h.run_read head.toNat
    rw [hp] at hread
    rw [if_neg hne, Prog.run_bind, hread, Prog.andThen_ok, if_neg (not_not.2 hm), Prog.run_bind,
      hrun₁, Prog.andThen_ok, Prog.run_pure, Prog.andThen_ok]
    dsimp only
    rw [Prog.run_bind, hrun₂, Prog.andThen_ok]
    refine .inr ⟨head.toNat, m₂, _, rfl, h₂, ⟨getElem?_set_lt hlt d, rfl, .inl rfl, ?_⟩, ?_⟩
    · refine hrest.congr fun i hi => ?_
      have hne : i ≠ head.toNat := by
        rintro rfl
        exact hnot hi
      show (s.pages.set _ d)[i]? = _
      rw [getElem?_set_lt hlt, if_neg hne]
    · rw [hc₂, hc₁]
      omega

/-- **Freeing a page makes it the head of the free list.** -/
theorem run_free (h : PropPages m s) (hf : FreeAt s.pages s.freeHead free) {i : Nat}
    (hi : i < s.pages.length) (hnot : i ∉ free) :
    ∃ m' s', (freePropertyPage i).run m = (.ok (), m') ∧ PropPages m' s' ∧
      (∀ j, s'.pages[j]? = if j = i then some (freedPage s.freeHead) else s.pages[j]?) ∧
      FreeAt s'.pages s'.freeHead (i :: free) ∧ s'.hint = s.hint := by
  obtain ⟨m₁, hrun₁, -, h₁⟩ := h.run_write hi (freedPage s.freeHead)
  obtain ⟨m₂, hrun₂, -, h₂⟩ := h₁.run_setFreeHead (UInt32.ofNat i)
  have hpages := getElem?_set_lt hi (freedPage s.freeHead)
  have hto := h.toNat_ofNat hi
  unfold freePropertyPage
  rw [Prog.run_bind, Prog.run_getHeader, Prog.andThen_ok, Prog.run_bind, h.freeHead, hrun₁,
    Prog.andThen_ok]
  refine ⟨m₂, _, hrun₂, h₂, hpages, ?_, rfl⟩
  have hrest : FreeAt (s.pages.set i (freedPage s.freeHead)) s.freeHead free := by
    refine hf.congr fun j hj => ?_
    have hne : j ≠ i := by
      rintro rfl
      exact hnot hj
    rw [hpages, if_neg hne]
  have hself : (s.pages.set i (freedPage s.freeHead))[(UInt32.ofNat i).toNat]? =
      some (freedPage s.freeHead) := by
    rw [hto, hpages, if_pos rfl]
  have hcons := FreeAt.cons (h.ofNat_ne hi) hself (u16At_freedPage _)
    (by rw [u32At_freedPage]; exact hrest) (by rwa [hto])
  rwa [hto] at hcons

end PropPages

end ChiffonDB
