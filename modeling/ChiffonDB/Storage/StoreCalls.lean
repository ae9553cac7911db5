import ChiffonDB.Storage.StoreInvariant

/-!
# The calls of the property store

What writing, reading and freeing do to a store that satisfies `Stored`.

* `Stored.run_read` — a live value reads back.
* `Stored.run_free` — freeing a live value removes it and nothing else.
* `Stored.run_write` — **writing adds a live value, provided that the scan of an inline write does
  not settle on a page of a live chain**.
-/

set_option autoImplicit false

namespace ChiffonDB

open Bytes SlottedPage

/-- The page passes for a slotted page with room for `bytes`. -/
def Accepts (bytes : List UInt8) (page : PageData) : Prop :=
  isValid page = true ∧ dirEnd page + bytes.length ≤ dataEnd page

instance (bytes : List UInt8) (page : PageData) : Decidable (Accepts bytes page) :=
  inferInstanceAs (Decidable (_ ∧ _))

/-- The first page from `start` on that passes for a slotted page with room. -/
structure SettlesOn (pages : Nat → Option PageData) (bytes : List UInt8) (start i : Nat) : Prop where
  from_start : start ≤ i
  accepted : ∃ page, pages i = some page ∧ Accepts bytes page
  first : ∀ j page, start ≤ j → j < i → pages j = some page → ¬ Accepts bytes page

/-- The value is taken for an inline one, but no page has room for it. -/
def InGap (length : Nat) : Prop := length + 6 ≤ PAGE_SIZE ∧ PAGE_SIZE < length + 8

instance (length : Nat) : Decidable (InGap length) := inferInstanceAs (Decidable (_ ∧ _))

/-- A page that the hint may skip: it has next to no room, if it passes for a slotted page at all. -/
def Useless (page : PageData) : Prop := isValid page = true → freeSpace page < HINT_FULL_THRESHOLD

/-- The pages from `start` up to `stop` may be skipped. -/
def UselessFrom (pages : List PageData) (start stop : Nat) : Prop :=
  ∀ j page, start ≤ j → j < stop → pages[j]? = some page → Useless page

/-- The pages of live slots pass for slotted pages, and those before the hint have next to no room. -/
def HintSound (s : PropState) (live : List Entry) : Prop :=
  ∀ e ∈ live, e.IsSlot → ∀ page, s.pages[e.rid.pageId.toNat]? = some page →
    isValid page = true ∧ (e.rid.pageId.toNat < s.hint.toNat → freeSpace page < HINT_FULL_THRESHOLD)

/-- The head of the chain at `rid` passes for a page of the free list. -/
def MarkedHead (pages : Nat → Option PageData) (rid : RecordId) : Prop :=
  rid.slotId = CHAIN_HEAD_SLOT ∧ ∃ page, pages rid.pageId.toNat = some page ∧ pageIsFreeMarked page

namespace PropPages

variable {m : PageMap} {s : PropState}

/-- The hint is the number in the header, where there are as many pages. -/
theorem firstFreeHint_eq (h : PropPages m s) :
    m.header.propertyFirstFreeHint = min s.hint.toNat s.pages.length := by
  rw [← h.dirLen, ← h.hint, FileHeader.propertyFirstFreeHint, UInt32.min_def, Nat.min_def]
  simp only [UInt32.le_iff_toNat_le]
  split <;> rfl

theorem run_backOff (h : PropPages m s) {logical : Nat} (hlt : logical < s.pages.length) :
    ∃ m' hint, (backOffPropertyHint logical).run m = (.ok (), m') ∧
      PropPages m' { s with hint := hint } ∧ hint.toNat ≤ s.hint.toNat ∧ hint.toNat ≤ logical := by
  have hfirst := h.firstFreeHint_eq
  unfold backOffPropertyHint propertyFirstFreeHint
  rw [Prog.run_bind, Prog.run_bind, Prog.run_getHeader, Prog.andThen_ok, Prog.run_pure,
    Prog.andThen_ok]
  split
  · obtain ⟨m', hrun, -, h'⟩ := h.run_setHint logical
    refine ⟨m', _, hrun, h', ?_⟩
    rw [h.toNat_ofNat hlt]
    omega
  · exact ⟨m, s.hint, rfl, h, Nat.le_refl _, by omega⟩

/-- **The scan of an inline write.** -/
theorem run_scanPages (h : PropPages m s) (bytes : List UInt8) (start : Nat) {n logical hint : Nat}
    {frozen : Bool} (hn : logical + n = s.pages.length) (hle : hint ≤ logical)
    (hskip : UselessFrom s.pages start hint) (hopen : frozen = false → hint = logical) :
    (∃ hint' frozen', (scanPages bytes start n logical hint frozen).run m = (.ok (.inr (hint', frozen')), m) ∧
      (∀ i page, logical ≤ i → s.pages[i]? = some page → ¬ Accepts bytes page) ∧
      UselessFrom s.pages start hint' ∧ (frozen' = false → hint' = s.pages.length)) ∨
    ∃ i page, SettlesOn (fun i => s.pages[i]?) bytes logical i ∧ s.pages[i]? = some page ∧
      (writeProperty page bytes = .panic ∧
          ((scanPages bytes start n logical hint frozen).run m).1 = .panic ∨
        ∃ slot page' m' hint', writeProperty page bytes = .ok (slot, page') ∧
          (scanPages bytes start n logical hint frozen).run m =
            (.ok (.inl ⟨UInt32.ofNat i, slot⟩), m') ∧
          PropPages m' { s with pages := s.pages.set i page', hint := hint' } ∧
          (hint' = s.hint ∨ hint'.toNat ≤ i ∧ UselessFrom s.pages start hint'.toNat)) := by
  induction n generalizing logical hint frozen with
  | zero =>
    refine .inl ⟨hint, frozen, rfl, ?_, hskip, fun hf => by rw [hopen hf, ← hn, Nat.add_zero]⟩
    intro i page hi hpage
    have := (List.getElem?_eq_some_iff.1 hpage).1
    omega
  | succ n ih =>
    have hlt : logical < s.pages.length := by omega
    have hpage := List.getElem?_eq_getElem hlt
    generalize s.pages[logical] = page at hpage
    have hread := h.run_read logical
    rw [hpage] at hread
    rw [scanPages, Prog.run_bind, hread, Prog.andThen_ok]
    dsimp only
    by_cases hacc : Accepts bytes page
    · -- the write settles here
      refine .inr ⟨logical, page, ⟨Nat.le_refl _, ⟨page, hpage, hacc⟩, fun j _ h1 h2 => ?_⟩, hpage, ?_⟩
      · omega
      rw [if_pos hacc.1]
      rcases writeProperty_cases hacc.2 with ⟨hw, -⟩ | ⟨slot, page', hw, -⟩
      · left
        rw [hw]
        exact ⟨rfl, rfl⟩
      · right
        obtain ⟨m₁, hrun₁, -, h₁⟩ := h.run_write hlt page'
        rw [hw]
        dsimp only
        rw [Prog.run_bind, hrun₁, Prog.andThen_ok]
        split
        · obtain ⟨m₂, hrun₂, -, h₂⟩ := h₁.run_setHint hint
          rw [Prog.run_bind, hrun₂, Prog.andThen_ok]
          refine ⟨slot, page', m₂, _, rfl, rfl, h₂, .inr ?_⟩
          rw [h.toNat_ofNat (Nat.lt_of_le_of_lt hle hlt)]
          exact ⟨hle, hskip⟩
        · exact ⟨slot, page', m₁, s.hint, rfl, rfl, h₁, .inl rfl⟩
    · -- the scan goes on, whatever becomes of the hint
      have hfull : (if isValid page = true then writeProperty page bytes
          else .err (.storageCorrupted 0)) = .err (.storageCorrupted 0) := by
        split
        · rename_i hvalid
          exact writeProperty_of_full fun hfit => hacc ⟨hvalid, hfit⟩
        · rfl
      rw [hfull]
      dsimp only
      have hnext : ∀ hint₁ frozen₁, hint₁ ≤ logical + 1 → UselessFrom s.pages start hint₁ →
          (frozen₁ = false → hint₁ = logical + 1) →
          (∃ hint' frozen', (scanPages bytes start n (logical + 1) hint₁ frozen₁).run m =
              (.ok (.inr (hint', frozen')), m) ∧
            (∀ i page, logical ≤ i → s.pages[i]? = some page → ¬ Accepts bytes page) ∧
            UselessFrom s.pages start hint' ∧ (frozen' = false → hint' = s.pages.length)) ∨
          ∃ i page, SettlesOn (fun i => s.pages[i]?) bytes logical i ∧ s.pages[i]? = some page ∧
            (writeProperty page bytes = .panic ∧
                ((scanPages bytes start n (logical + 1) hint₁ frozen₁).run m).1 = .panic ∨
              ∃ slot page' m' hint', writeProperty page bytes = .ok (slot, page') ∧
                (scanPages bytes start n (logical + 1) hint₁ frozen₁).run m =
                  (.ok (.inl ⟨UInt32.ofNat i, slot⟩), m') ∧
                PropPages m' { s with pages := s.pages.set i page', hint := hint' } ∧
                (hint' = s.hint ∨ hint'.toNat ≤ i ∧ UselessFrom s.pages start hint'.toNat)) := by
        intro hint₁ frozen₁ hle₁ hskip₁ hopen₁
        rcases @ih (logical + 1) hint₁ frozen₁ (by omega) hle₁ hskip₁ hopen₁ with
          ⟨hint', frozen', hrun, hnone, hrest⟩ | ⟨i, p, hsettle, hi, hrest⟩
        · refine .inl ⟨hint', frozen', hrun, fun i p hi hp => ?_, hrest⟩
          rcases Nat.eq_or_lt_of_le hi with rfl | hi
          · rw [hpage] at hp
            cases hp
            exact hacc
          · exact hnone i p hi hp
        · refine .inr ⟨i, p, ⟨?_, hsettle.accepted, fun j q h1 h2 hq => ?_⟩, hi, hrest⟩
          · exact Nat.le_of_succ_le hsettle.from_start
          · rcases Nat.eq_or_lt_of_le h1 with rfl | h1
            · rw [hpage] at hq
              cases hq
              exact hacc
            · exact hsettle.first j q h1 h2 hq
      split
      · rename_i hfrozen
        exact hnext hint true (Nat.le_succ_of_le hle) hskip nofun
      · rename_i hfrozen
        rw [Bool.not_eq_true] at hfrozen
        split
        · exact hnext hint true (Nat.le_succ_of_le hle) hskip nofun
        · rename_i hclosed
          refine hnext (logical + 1) false (Nat.le_refl _) (fun j q h1 h2 hq => ?_) fun _ => rfl
          rcases Nat.lt_or_eq_of_le (Nat.le_of_lt_succ h2) with hj | rfl
          · exact hskip j q h1 (by rw [hopen hfrozen]; exact hj) hq
          · rw [hpage] at hq
            cases hq
            exact fun hvalid => Nat.lt_of_not_le fun hroom => hclosed ⟨hvalid, hroom⟩

/-- **Relinking makes the pages of a blob a chain.** -/
theorem run_relink (h : PropPages m s) {b : List UInt8} {ls : List Nat} (hnd : ls.Nodup) {j : Nat}
    (hls : ∀ k i, ls[k]? = some i → ∃ next, s.pages[i]? = some (chainPage next b (j + k))) :
    ∃ m' s', (relinkChainToLogical ls).run m = (.ok (), m') ∧ m'.count = m.count ∧ PropPages m' s' ∧
      s'.pages.length = s.pages.length ∧ s'.hint = s.hint ∧ s'.freeHead = s.freeHead ∧
      (∀ i, i ∉ ls → s'.pages[i]? = s.pages[i]?) ∧ ChainAt s'.pages b j ls := by
  induction ls generalizing m s j with
  | nil => exact ⟨m, s, rfl, rfl, h, rfl, rfl, rfl, fun _ _ => rfl, trivial⟩
  | cons i rest ih =>
    obtain ⟨hnot, hnd⟩ := List.nodup_cons.1 hnd
    obtain ⟨next, hi⟩ := hls 0 i rfl
    have hlt : i < s.pages.length := (List.getElem?_eq_some_iff.1 hi).1
    have hread := h.run_read i
    rw [hi] at hread
    obtain ⟨m₁, hrun₁, hc₁, h₁⟩ := h.run_write hlt ((chainPage next b (j + 0)).setNext (nextLink rest))
    have hset := getElem?_set_lt hlt ((chainPage next b (j + 0)).setNext (nextLink rest))
    obtain ⟨m₂, s₂, hrun₂, hc₂, h₂, hlen, hhint, hfh, hother, hchain⟩ := ih h₁ hnd (j := j + 1) (by
      intro k i' hk
      obtain ⟨next', hi'⟩ := hls (k + 1) i' (by simpa using hk)
      have hne : i' ≠ i := by
        rintro rfl
        exact hnot (List.mem_of_getElem? hk)
      refine ⟨next', ?_⟩
      show (s.pages.set i _)[i']? = _
      rw [hset, if_neg hne, hi']
      congr 2
      omega)
    rw [relinkChainToLogical, Prog.run_bind, hread, Prog.andThen_ok, Prog.run_bind, hrun₁,
      Prog.andThen_ok, hrun₂]
    refine ⟨m₂, s₂, rfl, hc₂.trans hc₁, h₂, ?_, hhint, hfh, ?_, ?_, hchain⟩
    · rw [hlen]
      simp
    · intro k hk
      rw [List.mem_cons, not_or] at hk
      rw [hother k hk.2]
      show (s.pages.set i _)[k]? = _
      rw [hset, if_neg hk.1]
    · rw [hother i hnot]
      show (s.pages.set i _)[i]? = _
      rw [hset, if_pos rfl, setNext_chainPage, Nat.add_zero]

end PropPages

theorem Allocated.replace {s s' : PropState} {free : List Nat} {i : Nat} {d : PageData}
    (h : Allocated s s' free i d) (hnot : i ∉ free.tail) (d₀ : PageData) :
    Allocated s { s' with pages := s'.pages.set i d₀ } free i d₀ := by
  have hlt : i < s'.pages.length := (List.getElem?_eq_some_iff.1 h.self).1
  have hset := PropPages.getElem?_set_lt hlt d₀
  refine ⟨?_, h.hint, h.origin, h.free.congr fun j hj => ?_⟩
  · intro j
    show (s'.pages.set i d₀)[j]? = _
    rw [hset, h.pages]
    by_cases hj : j = i
    · simp [hj]
    · simp [hj]
  · have hne : j ≠ i := by
      rintro rfl
      exact hnot hj
    show (s'.pages.set i d₀)[j]? = _
    rw [hset, if_neg hne]

theorem HintSound.new (s : PropState) : HintSound s [] := fun _ he => absurd he List.not_mem_nil

/-- A change keeps the hint sound if it leaves the page of a slot as it is and the hint passes useless pages only,
    or backs off to that page. -/
theorem HintSound.change {s s' : PropState} {live live' : List Entry} (h : HintSound s live)
    (hc : ∀ e ∈ live', e.IsSlot →
      (e ∈ live ∧ s'.pages[e.rid.pageId.toNat]? = s.pages[e.rid.pageId.toNat]? ∧
          (s.hint.toNat ≤ e.rid.pageId.toNat → e.rid.pageId.toNat < s'.hint.toNat →
            ∀ page, s.pages[e.rid.pageId.toNat]? = some page → Useless page)) ∨
        (s'.hint.toNat ≤ e.rid.pageId.toNat ∧
          ∀ page, s'.pages[e.rid.pageId.toNat]? = some page → isValid page = true)) : HintSound s' live' := by
  intro e he hs page hpage
  rcases hc e he hs with ⟨hold, hsame, hpast⟩ | ⟨hback, hvalid⟩
  · rw [hsame] at hpage
    obtain ⟨hvalid, hroom⟩ := h e hold hs page hpage
    refine ⟨hvalid, fun hlt => ?_⟩
    rcases Nat.lt_or_ge e.rid.pageId.toNat s.hint.toNat with hbelow | habove
    · exact hroom hbelow
    · exact hpast habove hlt page hpage hvalid
  · exact ⟨hvalid page hpage, fun hlt => absurd hlt (not_lt.2 hback)⟩

/-- A lower hint on the same pages. -/
theorem HintSound.lower {s s' : PropState} {live live' : List Entry} (h : HintSound s live)
    (hsub : ∀ e ∈ live', e.IsSlot → e ∈ live ∧ s'.pages[e.rid.pageId.toNat]? = s.pages[e.rid.pageId.toNat]?)
    (hle : s'.hint.toNat ≤ s.hint.toNat) : HintSound s' live' :=
  h.change fun e he hs => .inl ⟨(hsub e he hs).1, (hsub e he hs).2, fun h1 h2 => by omega⟩

namespace Stored

variable {t : Prop} {m : PageMap} {s : PropState} {live : List Entry} {free held : List Nat}

/-- **A live value reads back.** -/
theorem run_read (h : Stored t s live free held) (hm : PropPages m s) {e : Entry} (he : e ∈ live) :
    (readPropertyBytes e.rid).run m = (.ok e.bytes, m) := by
  have hold := h.holds e he
  unfold readPropertyBytes
  by_cases hs : e.IsSlot
  · obtain ⟨-, page, hpage, hslot⟩ := hold.slot hs
    have hread := hm.run_read e.rid.pageId.toNat
    rw [hpage] at hread
    rw [if_neg hs, Prog.run_bind, hread, Prog.andThen_ok, hslot.read]
    rfl
  · obtain ⟨hhead, hnd, hlen, hc⟩ := hold.blob hs
    rw [if_pos (not_not.1 hs), Prog.run_bind, hm.run_chainOf hhead hnd hc, Prog.andThen_ok,
      readBlobChainDense_chainPages hlen]
    rfl

/-- Allocating pages: they are in hand and hold their data. -/
theorem run_allocPages (h : Stored t s live free held) (hm : PropPages m s) (ds : List PageData) :
    (UInt32.size ≤ m.count.toNat + 2 * ds.length ∧ ((allocPages ds).run m).1 = .panic) ∨
    ∃ ls m' s' free', (allocPages ds).run m = (.ok ls, m') ∧ PropPages m' s' ∧
      Stored t s' live free' (ls ++ held) ∧ ls.length = ds.length ∧
      (∀ k : Nat, ∀ i, ls[k]? = some i → s'.pages[i]? = ds[k]?) ∧
      (∀ i, i ∉ ls → s'.pages[i]? = s.pages[i]?) ∧ s'.hint = s.hint := by
  induction ds generalizing m s free held with
  | nil =>
    exact .inr ⟨[], m, s, free, rfl, hm, h, rfl, fun _ _ hk => by simp at hk, fun _ _ => rfl, rfl⟩
  | cons d ds ih =>
    rw [allocPages, Prog.run_bind]
    rcases hm.run_alloc h.freeAt d with ⟨hfull, hpanic⟩ | ⟨i, m₁, s₁, hrun₁, h₁, ha, hc₁⟩
    · refine .inl ⟨by simp; omega, ?_⟩
      cases hr : (allocPropertyPage d).run m with
      | mk r m' =>
        rw [hr] at hpanic
        cases hpanic
        rfl
    · rw [hrun₁, Prog.andThen_ok, Prog.run_bind]
      have hs₁ := h.alloc ha
      rcases ih hs₁ h₁ with ⟨hfull, hpanic⟩ | ⟨ls, m₂, s₂, free', hrun₂, h₂, hs₂, hlen, hcont, hkeep, hhint⟩
      · refine .inl ⟨by simp; omega, ?_⟩
        cases hr : (allocPages ds).run m₁ with
        | mk r m' =>
          rw [hr] at hpanic
          cases hpanic
          rfl
      · rw [hrun₂, Prog.andThen_ok]
        have hnot : i ∉ ls := fun hi => (List.nodup_append.1 hs₂.held_nodup).2.2 i hi i (by simp) rfl
        refine .inr ⟨i :: ls, m₂, s₂, free', rfl, h₂, hs₂.held_perm List.perm_middle, by simp [hlen],
          ?_, ?_, hhint.trans ha.hint⟩
        · intro k j hk
          cases k with
          | zero =>
            cases hk
            rw [hkeep i hnot, ha.self]
            rfl
          | succ k => exact hcont k j (by simpa using hk)
        · intro j hj
          rw [List.mem_cons, not_or] at hj
          rw [hkeep j hj.2, ha.other hj.1]

/-- **Freeing a chain's pages puts them on the free list.** -/
theorem run_freeChainPages {c : List Nat} (h : Stored t s live free (c ++ held)) (hm : PropPages m s) :
    ∃ m' s' free', (freeChainPages c).run m = (.ok (), m') ∧ PropPages m' s' ∧
      Stored t s' live free' held ∧ (∀ i, i ∉ c → s'.pages[i]? = s.pages[i]?) ∧
      s'.hint.toNat ≤ s.hint.toNat := by
  induction c generalizing m s free with
  | nil => exact ⟨m, s, free, rfl, hm, h, fun _ _ => rfl, Nat.le_refl _⟩
  | cons i rest ih =>
    have hlt := h.held_lt i (by simp)
    obtain ⟨m₁, s₁, hrun₁, h₁, hpages, hf, hhint₁⟩ :=
      hm.run_free h.freeAt hlt (h.held_free i (by simp))
    have hs₁ : Stored t s₁ live (i :: free) (rest ++ held) := h.freePage hpages hf
    obtain ⟨m₂, hint, hrun₂, h₂, hhint₂, -⟩ :=
      h₁.run_backOff ((lt_length_iff hpages i).2 (.inl rfl))
    have hs₂ : Stored t { s₁ with hint := hint } live (i :: free) (rest ++ held) := by
      refine hs₁.rewriteHeld rfl (fun _ _ => rfl) rfl
    obtain ⟨m₃, s₃, free', hrun₃, h₃, hs₃, hkeep, hhint₃⟩ := ih hs₂ h₂
    rw [freeChainPages, Prog.run_bind, hrun₁, Prog.andThen_ok, Prog.run_bind, hrun₂, Prog.andThen_ok,
      hrun₃]
    refine ⟨m₃, s₃, free', rfl, h₃, hs₃, fun j hj => ?_, ?_⟩
    · rw [List.mem_cons, not_or] at hj
      rw [hkeep j hj.2]
      show s₁.pages[j]? = _
      rw [hpages, if_neg hj.1]
    · rw [hhint₁] at hhint₂
      exact Nat.le_trans hhint₃ hhint₂

theorem setHint {hint : UInt32} (h : Stored t s live free held) :
    Stored t { s with hint := hint } live free held :=
  h.rewriteHeld rfl (fun _ _ => rfl) rfl

/-- **Freeing a live value removes it and nothing else**; where its head passes for a free page, its
    pages are lost. -/
theorem run_free {e : Entry} (h : Stored t s (e :: live) free []) (hm : PropPages m s)
    (htight : t → ¬ MarkedHead (fun i => s.pages[i]?) e.rid) :
    ∃ m' s' free', (freePropertyBytes e.rid).run m = (.ok (), m') ∧ PropPages m' s' ∧
      Stored t s' live free' [] ∧ (HintSound s (e :: live) → HintSound s' live) := by
  have hrest : ∀ {e'}, e' ∈ live → e' ∈ e :: live := fun he => List.mem_cons_of_mem _ he
  have hold := h.holds e List.mem_cons_self
  have hlt : e.rid.pageId.toNat < s.pages.length := hold.lt_length hold.mem_pages
  unfold freePropertyBytes
  by_cases hs : e.IsSlot
  · obtain ⟨-, page, hpage, hslot⟩ := hold.slot hs
    obtain ⟨page', hfree, hfreed⟩ := hslot.free
    have hread := hm.run_read e.rid.pageId.toNat
    have hmark : ¬ pageIsFreeMarked page = true := by
      unfold pageIsFreeMarked
      rw [decide_eq_true_eq]
      exact hslot.not_marked
    have hset := PropPages.getElem?_set_lt hlt page'
    obtain ⟨hkept, hempty⟩ := h.removeSlot hs hpage hfreed
      (show ∀ j, ({ s with pages := s.pages.set _ page' } : PropState).pages[j]? = _ from hset) rfl
    rw [hpage] at hread
    rw [if_neg hs, Prog.run_bind, hread, Prog.andThen_ok, if_neg hmark, Prog.run_bind, hfree]
    show ∃ m' s' free', (do
      if liveCount page' = 0 then freePropertyPage _ else writePropertyPage _ page'
      backOffPropertyHint _ : Prog Unit).run m = _ ∧ _
    by_cases hlive : liveCount page' = 0
    · have hs₁ := hempty hlive
      have hnot : e.rid.pageId.toNat ∉ free := hs₁.held_free _ (by simp)
      obtain ⟨m₂, s₂, hrun₂, h₂, hpages, hf, hhint₂⟩ := hm.run_free h.freeAt hlt hnot
      have hs₂ : Stored t s₂ live (e.rid.pageId.toNat :: free) [] := by
        refine hs₁.freePage (d := freedPage s.freeHead) (fun j => ?_) hf
        rw [hpages]
        show _ = if _ then _ else (s.pages.set _ page')[j]?
        rw [hset]
        by_cases hj : j = e.rid.pageId.toNat
        · simp [hj]
        · simp [hj]
      obtain ⟨m₃, hint, hrun₃, h₃, hhint₃, -⟩ := h₂.run_backOff ((lt_length_iff hpages _).2 (.inl rfl))
      rw [if_pos hlive, Prog.run_bind, hrun₂, Prog.andThen_ok, hrun₃]
      refine ⟨m₃, _, _, rfl, h₃, hs₂.setHint, fun hh => hh.lower (fun e' he' hs' => ⟨hrest he', ?_⟩) ?_⟩
      · -- no other slot is on the page
        have hne : e'.rid.pageId.toNat ≠ e.rid.pageId.toNat := by
          intro heq
          have hzero := hs₁.slotsOn_held (i := e.rid.pageId.toNat) (by simp)
          have hpos := slotsOn_pos.2 ⟨e', he', hs', heq⟩
          omega
        show s₂.pages[e'.rid.pageId.toNat]? = _
        rw [hpages, if_neg hne]
      · rw [← hhint₂]
        exact hhint₃
    · have hs₁ := hkept hlive
      obtain ⟨m₂, hrun₂, -, h₂⟩ := hm.run_write hlt page'
      obtain ⟨m₃, hint, hrun₃, h₃, hhint₃, hback⟩ := h₂.run_backOff (by
        show e.rid.pageId.toNat < (s.pages.set _ page').length
        rwa [List.length_set])
      rw [if_neg hlive, Prog.run_bind, hrun₂, Prog.andThen_ok, hrun₃]
      refine ⟨m₃, _, _, rfl, h₃, hs₁.setHint, fun hh => hh.change fun e' he' hs' => ?_⟩
      show (_ ∧ (s.pages.set _ page')[_]? = _ ∧ _) ∨ (_ ∧ ∀ q, (s.pages.set _ page')[_]? = some q → _)
      rw [hset]
      by_cases heq : e'.rid.pageId.toNat = e.rid.pageId.toNat
      · rw [if_pos heq, heq]
        refine .inr ⟨hback, fun q hq => ?_⟩
        cases hq
        exact isValid_freeSlot hfree (hh e List.mem_cons_self hs page hpage).1
      · rw [if_neg heq]
        exact .inl ⟨hrest he', rfl, fun h1 h2 => absurd (Nat.lt_of_lt_of_le h2 hhint₃) (not_lt.2 h1)⟩
  · obtain ⟨hhead, hnd, -, hc⟩ := hold.blob hs
    have hs₁ := h.removeBlob hs
    have hpage := List.getElem?_eq_getElem hlt
    generalize s.pages[e.rid.pageId.toNat] = page at hpage
    have hread := hm.run_read e.rid.pageId.toNat
    rw [hpage] at hread
    rw [if_pos (not_not.1 hs), Prog.run_bind, hread, Prog.andThen_ok]
    by_cases hmark : pageIsFreeMarked page = true
    · -- the chain is taken for a freed one
      rw [if_pos hmark]
      have hnot : ¬ t := fun ht => htight ht ⟨not_not.1 hs, page, hpage, hmark⟩
      exact ⟨m, s, free, rfl, hm, hs₁.dropHeld.tighten hnot,
        fun hh => hh.lower (fun e' he' _ => ⟨hrest he', rfl⟩) (Nat.le_refl _)⟩
    · obtain ⟨m', s', free', hrun, h', hs', hkeep, hhint⟩ := hs₁.run_freeChainPages hm
      rw [if_neg hmark, Prog.run_bind, hm.run_chainOf hhead hnd hc, Prog.andThen_ok, chainPages_fst,
        hrun]
      refine ⟨m', s', free', rfl, h', hs', fun hh => hh.lower (fun e' he' _ => ⟨hrest he', ?_⟩) hhint⟩
      exact hkeep _ fun hin =>
        hs₁.held_apart e' he' _ (hs₁.holds e' he').mem_pages (List.mem_append_left _ hin)

theorem not_accepts_of_free (h : Stored t s live free held) {i : Nat} (hi : i ∈ free)
    {bytes : List UInt8} {page : PageData} (hp : s.pages[i]? = some page) : ¬ Accepts bytes page := by
  intro hacc
  obtain ⟨page', hp', hmark⟩ := h.freeAt.marked hi
  rw [hp] at hp'
  cases hp'
  have hinvalid : isValid page = false := if_pos hmark
  rw [hacc.1] at hinvalid
  cases hinvalid

/-- The page an inline write settles on, off the live chains, takes one more slot. -/
theorem insertSettled (h : Stored t s live free []) {i : Nat} {bytes : List UInt8} {p p' : PageData}
    {slot : UInt16} (hint : UInt32) (hp : s.pages[i]? = some p) (hacc : Accepts bytes p)
    (hw : Written p p' slot bytes) (hlen : s.pages.length < UInt32.size)
    (hoff : ∀ e ∈ live, ¬ e.IsSlot → i ∉ e.pages) :
    Stored t { s with pages := s.pages.set i p', hint := hint }
      (⟨⟨UInt32.ofNat i, slot⟩, bytes, [i]⟩ :: live) free [] := by
  have hlt : i < s.pages.length := (List.getElem?_eq_some_iff.1 hp).1
  refine h.insertSlot hp hw (PropPages.getElem?_set_lt hlt p') rfl
    (fun hfree => h.not_accepts_of_free hfree hp hacc) hoff (Nat.lt_trans hlt hlen) fun ht => ?_
  rcases h.cover ht i hlt with hfree | hheld | ⟨e, he, hi⟩
  · exact absurd hacc (h.not_accepts_of_free hfree hp)
  · cases hheld
  · have hs : e.IsSlot := Decidable.byContradiction fun hb => hoff e he hb hi
    exact h.exact ht hp (slotsOn_pos.2 ⟨e, he, hs, (h.holds e he).eq_of_slot hs hi⟩)

/-- **A write adds a live value**, unless its length falls into the gap; then it returns an error and
    changes nothing.  It panics where the page numbers run out, or on the page it settles on. -/
theorem run_write (h : Stored t s live free []) (hm : PropPages m s) (bytes : List UInt8)
    (hoff : bytes.length + 6 ≤ PAGE_SIZE →
      ∀ i, SettlesOn (fun i => s.pages[i]?) bytes m.header.propertyFirstFreeHint i →
        ∀ e ∈ live, ¬ e.IsSlot → i ∉ e.pages) :
    (((writePropertyBytes bytes).run m).1 = .panic ∧
      (UInt32.size ≤ m.count.toNat + 2 * pagesNeeded bytes.length ∨
        bytes.length + 6 ≤ PAGE_SIZE ∧
          ∃ i page, SettlesOn (fun i => s.pages[i]?) bytes m.header.propertyFirstFreeHint i ∧
            s.pages[i]? = some page ∧ writeProperty page bytes = .panic)) ∨
    (∃ err, (writePropertyBytes bytes).run m = (.err err, m) ∧ InGap bytes.length) ∨
    ∃ e m' s' free', (writePropertyBytes bytes).run m = (.ok e.rid, m') ∧ e.bytes = bytes ∧
      PropPages m' s' ∧ Stored t s' (e :: live) free' [] ∧ ¬ InGap bytes.length ∧
      (HintSound s live → HintSound s' (e :: live)) ∧
      (bytes.length + 6 ≤ PAGE_SIZE → s.pages.length < s'.pages.length →
        free = [] ∧ ∀ i page, m.header.propertyFirstFreeHint ≤ i → s.pages[i]? = some page →
          ¬ Accepts bytes page) := by
  have hneeded := pagesNeeded_pos bytes.length
  unfold writePropertyBytes
  split
  · rename_i hinline
    unfold propertyFirstFreeHint
    rw [Prog.run_bind, hm.run_count, Prog.andThen_ok, Prog.run_bind, Prog.run_bind,
      Prog.run_getHeader, Prog.andThen_ok, Prog.run_pure, Prog.andThen_ok, Prog.run_bind]
    have hle := hm.firstFreeHint_le
    have hstart := hm.firstFreeHint_eq
    generalize m.header.propertyFirstFreeHint = start at *
    rcases @PropPages.run_scanPages m s hm bytes start (s.pages.length - start) start start false
      (by omega) (Nat.le_refl _) (fun j q h1 h2 => absurd h1 (not_le.2 h2)) (fun _ => rfl) with
      ⟨hint, frozen, hrun, hnone, hskip, hopen⟩ | ⟨i, p, hsettle, hp, ⟨hw, hpanic⟩ | hok⟩
    · -- no page has room
      rw [hrun, Prog.andThen_ok]
      dsimp only
      by_cases hsmall : bytes.length + 8 ≤ PAGE_SIZE
      · obtain ⟨p', hw, hwritten⟩ := writeProperty_new hsmall
        rw [hw]
        show _ ∨ _
        rw [show (Prog.ofOutcome (Outcome.ok ((0 : UInt16), p'))) = pure (0, p') from rfl,
          Prog.run_bind, Prog.run_pure, Prog.andThen_ok]
        dsimp only
        rw [Prog.run_bind]
        rcases hm.run_alloc h.freeAt p' with ⟨hfull, hpanic⟩ | ⟨i, m₁, s₁, hrun₁, h₁, ha, -⟩
        · refine .inl ⟨?_, .inl (by omega)⟩
          cases hr : (allocPropertyPage p').run m with
          | mk r m' =>
            rw [hr] at hpanic
            cases hpanic
            rfl
        · have hs₁ := h.alloc ha
          have hilt : i < s₁.pages.length := (List.getElem?_eq_some_iff.1 ha.self).1
          have hs₂ := h.alloc (ha.replace (hs₁.held_free i (by simp)) SlottedPage.new)
          have hset := PropPages.getElem?_set_lt hilt SlottedPage.new
          have hs₃ := hs₂.insertSlot (by
              show (s₁.pages.set i _)[i]? = _
              rw [hset, if_pos rfl]) hwritten
            (show ∀ j, s₁.pages[j]? = if j = i then some p' else (s₁.pages.set i new)[j]? by
              intro j
              rw [hset]
              by_cases hj : j = i
              · simp [hj, ha.self]
              · simp [hj]) rfl (hs₂.held_free i (by simp))
            (fun e he _ hi => hs₂.held_apart e he i hi (by simp)) (Nat.lt_trans hilt h₁.length_lt)
            (fun _ => by rw [liveCount_new, hs₂.slotsOn_held (by simp)]; rfl)
          have herase : [i].erase i = [] := by simp
          rw [herase] at hs₃
          have hnew : i ≤ s.pages.length := by
            rcases ha.origin with hf | ⟨-, rfl⟩
            · exact (h.freeAt.lt_length (by rw [hf]; simp)).le
            · exact Nat.le_refl _
          have hcandidate : min (if frozen = true then hint else i) i ≤ hint := by
            cases frozen with
            | true => exact Nat.min_le_left _ _
            | false =>
              rw [hopen rfl]
              exact Nat.le_trans (Nat.min_le_right _ _) hnew
          have hback : min (if frozen = true then hint else i) i ≤ i := Nat.min_le_right _ _
          obtain ⟨m₂, hrun₂, -, h₂⟩ := h₁.run_setHint (min (if frozen = true then hint else i) i)
          have hfinal := h₁.toNat_ofNat (Nat.lt_of_le_of_lt hback hilt)
          rw [hrun₁, Prog.andThen_ok]
          show _ ∨ _
          rw [Prog.run_bind, hrun₂, Prog.andThen_ok]
          clear hrun₂
          generalize min (if frozen = true then hint else i) i = final at *
          have hgap : ¬ InGap bytes.length := fun hg => by have := hg.2; omega
          refine .inr (.inr ⟨_, m₂, _, _, rfl, rfl, h₂, hs₃.setHint, hgap, fun hh => ?_, fun _ hgrown => ?_⟩)
          · refine hh.change fun e he hs => ?_
            rcases List.mem_cons.1 he with rfl | he
            · refine .inr ⟨?_, fun q hq => ?_⟩
              · show (UInt32.ofNat final).toNat ≤ (UInt32.ofNat i).toNat
                rw [hfinal, h₁.toNat_ofNat hilt]
                exact hback
              · have hself : s₁.pages[(UInt32.ofNat i).toNat]? = some p' := by
                  rw [h₁.toNat_ofNat hilt, ha.self]
                rw [show q = p' from Option.some.inj (hq.symm.trans hself)]
                exact hwritten.isValid hw isValid_new
            · refine .inl ⟨he, ha.other fun heq => ?_, fun h1 h2 q hq => ?_⟩
              · exact hs₁.held_apart e he i (heq ▸ (h.holds e he).mem_pages) (by simp)
              · have h2 : e.rid.pageId.toNat < final := by
                  rw [← hfinal]
                  exact h2
                exact hskip _ q (by omega) (by omega) hq
          · refine ⟨?_, hnone⟩
            rcases ha.origin with hf | ⟨hf, -⟩
            · have hlt := (lt_length_iff ha.pages s.pages.length).1 hgrown
              rcases hlt with heq | hlt
              · exact absurd (h.freeAt.lt_length (show i ∈ free by rw [hf]; simp)) (by omega)
              · exact absurd hlt (Nat.lt_irrefl _)
            · exact hf
      · have hfull : writeProperty new bytes = .err (.storageCorrupted 0) := by
          apply writeProperty_of_full
          rw [dataEnd_new]
          simp [dirEnd, dirOffset, HEADER_SIZE, SLOT_ENTRY_SIZE]
          omega
        rw [hfull]
        exact .inr (.inl ⟨_, rfl, hinline, by omega⟩)
    · refine .inl ⟨?_, .inr ⟨hinline, i, p, hsettle, hp, hw⟩⟩
      cases hr : (scanPages bytes start (s.pages.length - start) start start false).run m with
      | mk r m' =>
        rw [hr] at hpanic
        cases hpanic
        rfl
    · obtain ⟨slot, p', m', hint, hw, hrun, h', hhint⟩ := hok
      obtain ⟨q, hq, hacc⟩ := hsettle.accepted
      rw [hp] at hq
      cases hq
      rcases writeProperty_cases hacc.2 with ⟨hpanic, -⟩ | ⟨slot', p'', hw', hwritten⟩
      · rw [hw] at hpanic
        cases hpanic
      · rw [hw] at hw'
        cases hw'
        have hgap : ¬ InGap bytes.length := fun hg => by
          have := dirEnd_add_le_of_ok hw
          unfold dirEnd dirOffset HEADER_SIZE SLOT_ENTRY_SIZE at this
          have := hg.2
          omega
        have hilt : i < s.pages.length := (List.getElem?_eq_some_iff.1 hp).1
        have hset := PropPages.getElem?_set_lt hilt p'
        have hfrom := hsettle.from_start
        have hs' := h.insertSettled hint hp hacc hwritten hm.length_lt (hoff hinline i hsettle)
        rw [hrun, Prog.andThen_ok]
        refine .inr (.inr ⟨_, m', _, free, rfl, rfl, h', hs', hgap, fun hh => hh.change fun e he hs => ?_,
          fun _ hgrown => ?_⟩)
        · have hback : hint.toNat ≤ i := by
            rcases hhint with rfl | ⟨hback, -⟩
            · omega
            · exact hback
          show (_ ∧ (s.pages.set _ p')[_]? = _ ∧ _) ∨ (_ ∧ ∀ q, (s.pages.set _ p')[_]? = some q → _)
          rw [hset]
          by_cases hei : e.rid.pageId.toNat = i
          · rw [if_pos hei, hei]
            refine .inr ⟨hback, fun q hq => ?_⟩
            cases hq
            exact hwritten.isValid hw hacc.1
          · rw [if_neg hei]
            rcases List.mem_cons.1 he with rfl | he
            · exact absurd (hm.toNat_ofNat hilt) hei
            · refine .inl ⟨he, rfl, fun h1 h2 q hq => ?_⟩
              rcases hhint with rfl | ⟨-, hskip⟩
              · exact absurd h2 (not_lt.2 h1)
              · exact hskip _ q (by omega) h2 hq
        · rw [List.length_set] at hgrown
          exact absurd hgrown (Nat.lt_irrefl _)
  · rename_i hlong
    have hgap : ¬ InGap bytes.length := fun hg => hlong hg.1
    rw [Prog.run_bind]
    rcases h.run_allocPages hm (writeBlobChain bytes) with
      ⟨hfull, hpanic⟩ | ⟨ls, m₁, s₁, free', hrun₁, h₁, hs₁, hlen, hcont, hkeep, hhint₁⟩
    · rw [length_writeBlobChain] at hfull
      refine .inl ⟨?_, .inl hfull⟩
      cases hr : (allocPages (writeBlobChain bytes)).run m with
      | mk r m' =>
        rw [hr] at hpanic
        cases hpanic
        rfl
    · have hheld : ls ++ [] = ls := List.append_nil ls
      have hnd : ls.Nodup := hheld ▸ hs₁.held_nodup
      rw [length_writeBlobChain] at hlen
      obtain ⟨m₂, s₂, hrun₂, -, h₂, hlen₂, hhint₂, hfh, hother, hchain⟩ := h₁.run_relink hnd (b := bytes)
        (j := 0) (fun k i hk => by
          rw [hcont k i hk, Nat.zero_add, getElem?_writeBlobChain]
          · exact ⟨_, rfl⟩
          · rw [← hlen]
            exact (List.getElem?_eq_some_iff.1 hk).1)
      have hs₂ : Stored t s₂ live free' (ls ++ []) :=
        hs₁.rewriteHeld hlen₂ (fun i hi => hother i (by simpa using hi)) hfh
      rw [hrun₁, Prog.andThen_ok, Prog.run_bind, hrun₂, Prog.andThen_ok]
      cases ls with
      | nil =>
        have := pagesNeeded_pos bytes.length
        simp at hlen
        omega
      | cons i rest =>
        have hi : i < s₂.pages.length := hs₂.held_lt i (by simp)
        have hs₃ := hs₂.insertBlob rfl (Nat.lt_trans hi h₂.length_lt) hlen hchain
        refine .inr (.inr ⟨_, m₂, s₂, free', rfl, rfl, h₂, hs₃, hgap, fun hh => hh.lower (fun e he hs => ?_) ?_,
          fun hinline => absurd hinline hlong⟩)
        · rcases List.mem_cons.1 he with rfl | he
          · exact absurd rfl hs
          · have hnot := fun hin => hs₂.held_apart e he _ (hs₂.holds e he).mem_pages
              (List.mem_append_left _ hin)
            exact ⟨he, (hother _ hnot).trans (hkeep _ hnot)⟩
        · rw [hhint₂, hhint₁]

end Stored

end ChiffonDB
