import ChiffonDB.Api.Transaction
import ChiffonDB.Storage.StoreCalls

/-!
# Runs of the property store

Writes, frees and pages appended for others, in any order, from a new database file.

* `RefinesMap` — the live record ids are distinct and read back.
* `store_refines_map` — **the store is a map from record ids to byte strings along every run whose
  inline writes settle off the live chains.**
* `store_loses_blob` — an inline write that settles on the head of a live chain breaks it.
* `FreeListExact` — the free list is what no live value uses.
* `freeList_exact` — **so it is along every such run that frees no chain with a head like a freed
  page.**
-/

set_option autoImplicit false

namespace ChiffonDB

open Bytes SlottedPage

/-! ## The system -/

inductive StoreOp where
  | write (bytes : List UInt8)
  | free (rid : RecordId)
  | allocTopologyPage (kind : TopologyKind) (data : PageData)
  | appendPage (data : PageData)

/-- A database file and the values written to it and not yet freed. -/
structure StoreState where
  db : DatabaseFile
  live : List (RecordId × List UInt8)

namespace StoreState

/-- One call; none where it panics or frees a record id that is not live. -/
def step (s : StoreState) : StoreOp → Option StoreState
  | .write bytes =>
    match (writePropertyBytes bytes).exec s.db with
    | (.ok rid, db) => some ⟨db, (rid, bytes) :: s.live⟩
    | (.err _, db) => some ⟨db, s.live⟩
    | (.panic, _) => none
  | .free rid =>
    if rid ∈ s.live.map Prod.fst then
      match (freePropertyBytes rid).exec s.db with
      | (.panic, _) => none
      | (_, db) => some ⟨db, s.live.filter fun e => e.1 ≠ rid⟩
    else none
  | .allocTopologyPage kind data =>
    match (allocTopologyPage kind data).exec s.db with
    | (.panic, _) => none
    | (_, db) => some ⟨db, s.live⟩
  | .appendPage data =>
    match (Prog.append data).exec s.db with
    | (.panic, _) => none
    | (_, db) => some ⟨db, s.live⟩

def run (s : StoreState) : List StoreOp → Option StoreState
  | [] => some s
  | op :: ops => (s.step op).bind fun s' => s'.run ops

theorem run_nil (s : StoreState) : s.run [] = some s := rfl

theorem run_cons {s s' : StoreState} {op : StoreOp} {ops : List StoreOp} (h : s.step op = some s') :
    s.run (op :: ops) = s'.run ops := by
  rw [run, h, Option.bind_some]

theorem step_write {db : DatabaseFile} {live : List (RecordId × List UInt8)} {bytes : List UInt8}
    {rid : RecordId} (h : ((writePropertyBytes bytes).exec db).1 = .ok rid) :
    step ⟨db, live⟩ (.write bytes) =
      some ⟨((writePropertyBytes bytes).exec db).2, (rid, bytes) :: live⟩ := by
  unfold step
  dsimp only
  generalize (writePropertyBytes bytes).exec db = r at *
  obtain ⟨r, db'⟩ := r
  dsimp only at h
  rw [h]

/-- Every step of the run meets the condition in the state before it. -/
def Meets (C : StoreState → StoreOp → Prop) : StoreState → List StoreOp → Prop
  | _, [] => True
  | s, op :: ops => C s op ∧ ∀ s', s.step op = some s' → Meets C s' ops

end StoreState

/-- A new database file, or a new database in memory. -/
def NewFile (db : DatabaseFile) : Prop :=
  (∃ opts, db = DatabaseFile.create [] opts) ∨ db = DatabaseFile.createInMemory

/-- The property pages of a database file. -/
def propertyPages (db : DatabaseFile) : List PageData :=
  (List.range db.header.propertyDirLen.toNat).map fun i =>
    match ((readPropertyPage i).exec db).1 with
    | .ok page => page
    | _ => PageData.zero

/-- Page `i` is on the chain at `rid`. -/
def OnChain (db : DatabaseFile) (rid : RecordId) (i : Nat) : Prop :=
  ∃ pages, ((chainOf rid).exec db).1 = .ok pages ∧ i ∈ pages.map Prod.fst

/-- Page `i` is on a live chain. -/
def StoreState.OnLiveChain (s : StoreState) (i : Nat) : Prop :=
  ∃ e ∈ s.live, e.1.slotId = CHAIN_HEAD_SLOT ∧ OnChain s.db e.1 i

/-- Page `i` has a live slot. -/
def StoreState.HostsSlot (s : StoreState) (i : Nat) : Prop :=
  ∃ e ∈ s.live, e.1.slotId ≠ CHAIN_HEAD_SLOT ∧ e.1.pageId.toNat = i

/-- The page an inline write settles on is on no live chain. -/
def OffChains (s : StoreState) : StoreOp → Prop
  | .write bytes => bytes.length + 6 ≤ PAGE_SIZE → ∀ i, SettlesOn (fun i => (propertyPages s.db)[i]?)
      bytes s.db.header.propertyFirstFreeHint i → ¬ s.OnLiveChain i
  | _ => True

/-- The head of the chain that is freed does not pass for a freed page. -/
def HeadUnmarked (s : StoreState) : StoreOp → Prop
  | .free rid => ¬ MarkedHead (fun i => (propertyPages s.db)[i]?) rid
  | _ => True

/-- The store is the map `live`. -/
structure RefinesMap (s : StoreState) : Prop where
  distinct : (s.live.map Prod.fst).Nodup
  reads : ∀ e ∈ s.live, ((readPropertyBytes e.1).exec s.db).1 = .ok e.2
  apart : ∀ i, s.HostsSlot i → ¬ s.OnLiveChain i

/-! ## The invariant of a run -/

/-- The pages of the file hold the live values, and the hint skips no room. -/
def StoreInv (t : Prop) (s : StoreState) : Prop :=
  ∃ m ps live free, Shows s.db m ∧ PropPages m ps ∧ Stored t ps live free [] ∧ HintSound ps live ∧
    s.live = live.map fun e => (e.rid, e.bytes)

theorem propertyPages_eq {db : DatabaseFile} {m : PageMap} {ps : PropState} (hd : Shows db m)
    (hm : PropPages m ps) : propertyPages db = ps.pages := by
  unfold propertyPages
  rw [hd.header, hm.dirLen]
  apply List.ext_getElem
  · simp
  · intro i h1 h2
    have hread := hm.run_read i
    rw [List.getElem?_eq_getElem h2] at hread
    rw [List.getElem_map, List.getElem_range, (hd.exec (readPropertyPage i)).1, hread]

theorem onChain_iff {t : Prop} {db : DatabaseFile} {m : PageMap} {ps : PropState} {live : List Entry}
    {free held : List Nat} (hd : Shows db m) (hm : PropPages m ps) (hs : Stored t ps live free held)
    {e : Entry} (he : e ∈ live) (hb : ¬ e.IsSlot) (i : Nat) : OnChain db e.rid i ↔ i ∈ e.pages := by
  obtain ⟨hhead, hnd, -, hc⟩ := (hs.holds e he).blob hb
  unfold OnChain
  rw [(hd.exec (chainOf e.rid)).1, hm.run_chainOf hhead hnd hc]
  constructor
  · rintro ⟨pages, hp, hi⟩
    cases hp
    rwa [chainPages_fst] at hi
  · intro hi
    exact ⟨_, rfl, by rwa [chainPages_fst]⟩

theorem newFile_shows {db : DatabaseFile} (h : NewFile db) :
    ∃ m, Shows db m ∧ m.count = 1 ∧ m.header = FileHeader.new ∧ (m.pages 0).isSome := by
  rcases h with ⟨opts, rfl⟩ | rfl
  · have hf : IsFile (DatabaseFile.create [] opts) { PageMap.fresh with durable := true } :=
      (IsFile.create opts).durable
    exact ⟨_, (Sound.of_isFile hf rfl).pages, rfl, rfl, rfl⟩
  · exact ⟨_, Sound.createInMemory.pages, rfl, rfl, rfl⟩

theorem propPages_new {m : PageMap} (hc : m.count = 1) (hh : m.header = FileHeader.new)
    (h0 : (m.pages 0).isSome) : PropPages m ⟨[], 0, NO_FREE_PAGE⟩ := by
  exact ⟨⟨fun _ => ⟨[], []⟩, .new hc hh h0, rfl⟩, by rw [hh]; rfl, by rw [hh]; rfl⟩

theorem stored_new (t : Prop) : Stored t ⟨[], 0, NO_FREE_PAGE⟩ [] [] [] where
  rids := List.nodup_nil
  holds _ h := by cases h
  counted h := by simp at h
  apart _ h := by cases h
  freeAt := .nil
  free_apart _ h := by cases h
  held_nodup := List.nodup_nil
  held_lt _ h := by cases h
  held_apart _ h := by cases h
  held_free _ h := by cases h
  exact _ _ _ h := by simp at h
  cover _ _ h := by simp at h

theorem StoreInv.new (t : Prop) {db : DatabaseFile} (h : NewFile db) : StoreInv t ⟨db, []⟩ := by
  obtain ⟨m, hd, hc, hh, h0⟩ := newFile_shows h
  exact ⟨m, _, [], [], hd, propPages_new hc hh h0, stored_new t, HintSound.new _, rfl⟩

/-- A write that settles off the live chains, in terms of their pages. -/
theorem OffChains.not_mem_pages {t : Prop} {s : StoreState} {m : PageMap} {ps : PropState}
    {live : List Entry} {free : List Nat} {bytes : List UInt8} (hop : OffChains s (.write bytes))
    (hd : Shows s.db m) (hm : PropPages m ps) (hs : Stored t ps live free [])
    (hlive : s.live = live.map fun e => (e.rid, e.bytes)) :
    bytes.length + 6 ≤ PAGE_SIZE →
      ∀ i, SettlesOn (fun i => ps.pages[i]?) bytes m.header.propertyFirstFreeHint i →
        ∀ e ∈ live, ¬ e.IsSlot → i ∉ e.pages := by
  intro hinline i hsettle e he hb hi
  have hcond := hop hinline i
  rw [propertyPages_eq hd hm, hd.header] at hcond
  refine hcond hsettle ⟨(e.rid, e.bytes), ?_, not_not.1 hb, (onChain_iff hd hm hs he hb i).2 hi⟩
  rw [hlive]
  exact List.mem_map_of_mem he

/-- Where `t` holds, no chain with a head like a freed page is freed. -/
def Condition (t : Prop) (s : StoreState) (op : StoreOp) : Prop :=
  OffChains s op ∧ (t → HeadUnmarked s op)

/-- **One call keeps the invariant.** -/
theorem StoreInv.step {t : Prop} {s s' : StoreState} {op : StoreOp} (h : StoreInv t s)
    (hop : Condition t s op) (hstep : s.step op = some s') : StoreInv t s' := by
  obtain ⟨m, ps, live, free, hd, hm, hs, hh, hlive⟩ := h
  have hpages := propertyPages_eq hd hm
  cases op with
  | write bytes =>
    obtain ⟨h1, h2⟩ := hd.exec (writePropertyBytes bytes)
    have hoff := hop.1.not_mem_pages hd hm hs hlive
    unfold StoreState.step at hstep
    dsimp only at hstep
    cases hexec : (writePropertyBytes bytes).exec s.db with
    | mk r db' =>
      rw [hexec] at h1 h2 hstep
      rcases hs.run_write hm bytes hoff with
        ⟨hpanic, -⟩ | ⟨err, hrun, -⟩ | ⟨e, m', ps', free', hrun, hb, hm', hs', -, hh', -⟩
      · dsimp only at h1
        rw [hpanic] at h1
        cases h1
        cases hstep
      · rw [hrun] at h1 h2
        dsimp only at h1 h2
        cases h1
        cases hstep
        exact ⟨m, ps, live, free, h2, hm, hs, hh, hlive⟩
      · rw [hrun] at h1 h2
        dsimp only at h1 h2
        cases h1
        cases hstep
        exact ⟨m', ps', e :: live, free', h2, hm', hs', hh' hh, by simp [hlive, hb]⟩
  | free rid =>
    unfold StoreState.step at hstep
    dsimp only at hstep
    split at hstep
    case isFalse => cases hstep
    case isTrue hmem =>
      obtain ⟨h1, h2⟩ := hd.exec (freePropertyBytes rid)
      have hmem' : ∃ e ∈ live, e.rid = rid := by simpa [hlive] using hmem
      obtain ⟨e, he, rfl⟩ := hmem'
      have hperm := perm_cons_filter hs.rids he
      obtain ⟨m', ps', free', hrun, hm', hs', hh'⟩ := (hs.perm hperm).run_free hm (by
        intro ht
        have hcond := hop.2 ht
        unfold HeadUnmarked at hcond
        rwa [hpages] at hcond)
      cases hexec : (freePropertyBytes e.rid).exec s.db with
      | mk r db' =>
        rw [hexec] at h1 h2 hstep
        rw [hrun] at h1 h2
        dsimp only at h1 h2
        cases h1
        cases hstep
        refine ⟨m', ps', _, free', h2, hm', hs', hh' (hh.lower (fun e' he' _ => ⟨hperm.mem_iff.2 he', rfl⟩)
          (Nat.le_refl _)), ?_⟩
        simp only [hlive, List.filter_map]
        rfl
  | allocTopologyPage kind data =>
    obtain ⟨h1, h2⟩ := hd.exec (ChiffonDB.allocTopologyPage kind data)
    unfold StoreState.step at hstep
    dsimp only at hstep
    cases hexec : (ChiffonDB.allocTopologyPage kind data).exec s.db with
    | mk r db' =>
      rw [hexec] at h1 h2 hstep
      rcases hm.run_allocTopologyPage kind data with hpanic | ⟨logical, m', hrun, hm'⟩
      · dsimp only at h1
        rw [hpanic] at h1
        cases h1
        cases hstep
      · rw [hrun] at h1 h2
        dsimp only at h1 h2
        cases h1
        cases hstep
        exact ⟨m', ps, live, free, h2, hm', hs, hh, hlive⟩
  | appendPage data =>
    obtain ⟨h1, h2⟩ := hd.exec (Prog.append data)
    unfold StoreState.step at hstep
    dsimp only at hstep
    cases hexec : (Prog.append data).exec s.db with
    | mk r db' =>
      rw [hexec] at h1 h2 hstep
      rcases hm.run_append data with hpanic | ⟨p, m', hrun, hm'⟩
      · dsimp only at h1
        rw [hpanic] at h1
        cases h1
        cases hstep
      · rw [hrun] at h1 h2
        dsimp only at h1 h2
        cases h1
        cases hstep
        exact ⟨m', ps, live, free, h2, hm', hs, hh, hlive⟩

/-- **… and so does a run.** -/
theorem StoreInv.run {t : Prop} {s s' : StoreState} {ops : List StoreOp} (h : StoreInv t s)
    (hops : StoreState.Meets (Condition t) s ops) (hrun : s.run ops = some s') : StoreInv t s' := by
  induction ops generalizing s with
  | nil =>
    cases hrun
    exact h
  | cons op ops ih =>
    obtain ⟨hop, hrest⟩ := hops
    obtain ⟨s₁, hstep, hrun⟩ := Option.bind_eq_some_iff.1 hrun
    exact ih (h.step hop hstep) (hrest s₁ hstep) hrun

theorem StoreState.Meets.mono {C C' : StoreState → StoreOp → Prop} (hC : ∀ s op, C s op → C' s op)
    {s : StoreState} {ops : List StoreOp} (h : Meets C s ops) : Meets C' s ops := by
  induction ops generalizing s with
  | nil => trivial
  | cons op ops ih => exact ⟨hC s op h.1, fun s' hstep => ih (h.2 s' hstep)⟩

/-! ## The store is a map -/

theorem StoreInv.onLiveChain_iff {s : StoreState} {m : PageMap} {ps : PropState} {live : List Entry}
    {t : Prop} {free : List Nat} (hd : Shows s.db m) (hm : PropPages m ps)
    (hs : Stored t ps live free []) (hlive : s.live = live.map fun e => (e.rid, e.bytes)) (i : Nat) :
    s.OnLiveChain i ↔ ∃ e ∈ live, ¬ e.IsSlot ∧ i ∈ e.pages := by
  unfold StoreState.OnLiveChain
  rw [hlive]
  constructor
  · rintro ⟨e', he', hb, hi⟩
    obtain ⟨e, he, rfl⟩ := List.mem_map.1 he'
    exact ⟨e, he, not_not.2 hb, (onChain_iff hd hm hs he (not_not.2 hb) i).1 hi⟩
  · rintro ⟨e, he, hb, hi⟩
    exact ⟨_, List.mem_map_of_mem he, not_not.1 hb, (onChain_iff hd hm hs he hb i).2 hi⟩

theorem StoreInv.hostsSlot_iff {s : StoreState} {live : List Entry}
    (hlive : s.live = live.map fun e => (e.rid, e.bytes)) (i : Nat) :
    s.HostsSlot i ↔ ∃ e ∈ live, e.IsSlot ∧ e.rid.pageId.toNat = i := by
  unfold StoreState.HostsSlot
  rw [hlive]
  constructor
  · rintro ⟨e', he', hs, hi⟩
    obtain ⟨e, he, rfl⟩ := List.mem_map.1 he'
    exact ⟨e, he, hs, hi⟩
  · rintro ⟨e, he, hs, hi⟩
    exact ⟨_, List.mem_map_of_mem he, hs, hi⟩

theorem StoreInv.refinesMap {t : Prop} {s : StoreState} (h : StoreInv t s) : RefinesMap s := by
  obtain ⟨m, ps, live, free, hd, hm, hs, -, hlive⟩ := h
  refine ⟨?_, ?_, ?_⟩
  · rw [hlive, List.map_map]
    exact hs.rids
  · intro e' he'
    rw [hlive] at he'
    obtain ⟨e, he, rfl⟩ := List.mem_map.1 he'
    rw [(hd.exec (readPropertyBytes e.rid)).1, hs.run_read hm he]
  · intro i hslot hchain
    obtain ⟨e, he, hs₁, rfl⟩ := (StoreInv.hostsSlot_iff hlive i).1 hslot
    obtain ⟨e', he', hb, hi⟩ := (StoreInv.onLiveChain_iff hd hm hs hlive _).1 hchain
    rcases hs.apart e he e' he' _ (hs.holds e he).mem_pages hi with heq | ⟨-, hs'⟩
    · exact hb (by unfold Entry.IsSlot; rw [← heq]; exact hs₁)
    · exact hb hs'

/-- The free list of the file. -/
def FreeList (db : DatabaseFile) (free : List Nat) : Prop :=
  FreeAt (propertyPages db) db.header.propertyFreeListHead free

/-- The free list is what no live value uses. -/
structure FreeListExact (s : StoreState) : Prop where
  /-- The list ends and has no page twice; its pages are mapped and marked as free. -/
  terminates : ∃ free, FreeList s.db free ∧ free.Nodup ∧
    (∀ i ∈ free, ∃ page, (propertyPages s.db)[i]? = some page ∧ pageIsFreeMarked page) ∧
    (∀ i ∈ free, ¬ s.HostsSlot i ∧ ¬ s.OnLiveChain i) ∧
    ∀ i < (propertyPages s.db).length, i ∈ free ∨ s.HostsSlot i ∨ s.OnLiveChain i

theorem StoreInv.freeListExact {s : StoreState} (h : StoreInv True s) : FreeListExact s := by
  obtain ⟨m, ps, live, free, hd, hm, hs, -, hlive⟩ := h
  have hpages := propertyPages_eq hd hm
  have hchain := StoreInv.onLiveChain_iff hd hm hs hlive
  have hslot := fun i => StoreInv.hostsSlot_iff hlive i
  refine ⟨free, ?_, hs.freeAt.nodup, ?_, ?_, ?_⟩
  · unfold FreeList
    rw [hpages, hd.header, hm.freeHead]
    exact hs.freeAt
  · intro i hi
    obtain ⟨page, hp, hmark⟩ := hs.freeAt.marked hi
    exact ⟨page, by rw [hpages, hp], by simpa [pageIsFreeMarked] using hmark⟩
  · intro i hi
    rw [hslot, hchain]
    constructor
    · rintro ⟨e, he, -, rfl⟩
      exact hs.free_apart e he _ (hs.holds e he).mem_pages hi
    · rintro ⟨e, he, -, hin⟩
      exact hs.free_apart e he i hin hi
  · intro i hi
    rw [hpages] at hi
    rw [hslot, hchain]
    rcases hs.cover trivial i hi with hfree | hheld | ⟨e, he, hin⟩
    · exact .inl hfree
    · cases hheld
    · by_cases hes : e.IsSlot
      · exact .inr (.inl ⟨e, he, hes, (hs.holds e he).eq_of_slot hes hin⟩)
      · exact .inr (.inr ⟨e, he, hes, hin⟩)

/-- A value of two pages, all zeros. -/
def zeroBlob : List UInt8 := List.replicate 4091 0

theorem writeBlobChain_zeroBlob : writeBlobChain zeroBlob =
    [chainPage 1 zeroBlob 0, chainPage NO_NEXT_PAGE zeroBlob 1] := by
  have hlen : zeroBlob.length = 4091 := List.length_replicate
  have hneeded : pagesNeeded zeroBlob.length = 2 := by
    rw [hlen]
    rfl
  unfold writeBlobChain
  rw [hneeded]
  rfl

theorem eq_pair {α : Type} {l : List α} {a b : α} (hlen : l.length = 2) (ha : l[0]? = some a)
    (hb : l[1]? = some b) : l = [a, b] := by
  match l, hlen with
  | [x, y], _ =>
    cases ha
    cases hb
    rfl

theorem FreeAt.head_of_nil {pages : List PageData} {head : UInt32} (h : FreeAt pages head []) :
    head = NO_FREE_PAGE := by
  cases h
  rfl

/-- Writing the blob to a new file. -/
theorem run_write_zeroBlob {m : PageMap} (hc : m.count = 1) (hm : PropPages m ⟨[], 0, NO_FREE_PAGE⟩) :
    ∃ m' ps, (writePropertyBytes zeroBlob).run m = (.ok ⟨0, CHAIN_HEAD_SLOT⟩, m') ∧
      PropPages m' ps ∧ ps.hint = 0 ∧ ps.freeHead = NO_FREE_PAGE ∧
      ps.pages = [chainPage 1 zeroBlob 0, chainPage NO_NEXT_PAGE zeroBlob 1] := by
  have hlen : zeroBlob.length = 4091 := List.length_replicate
  have hcount : m.count.toNat = 1 := by rw [hc]; rfl
  have hsize : UInt32.size = 4294967296 := rfl
  unfold writePropertyBytes
  rw [if_neg (by rw [hlen]; decide), Prog.run_bind, writeBlobChain_zeroBlob, allocPages, allocPages,
    allocPages, Prog.run_bind]
  obtain ⟨hfull, -⟩ | ⟨i, m₁, s₁, hrun₁, h₁, ha₁, hc₁⟩ := hm.run_alloc .nil (chainPage 1 zeroBlob 0)
  · omega
  obtain rfl : i = 0 := by
    rcases ha₁.origin with h | ⟨-, h⟩
    · cases h
    · exact h
  have hlen₁ : s₁.pages.length = 1 := by
    have h0 := lt_length_iff ha₁.pages 0
    have h1 := lt_length_iff ha₁.pages 1
    simp at h0 h1
    omega
  obtain ⟨hfull, -⟩ | ⟨i, m₂, s₂, hrun₂, h₂, ha₂, -⟩ :=
    h₁.run_alloc ha₁.free (chainPage NO_NEXT_PAGE zeroBlob 1)
  · omega
  obtain rfl : i = 1 := by
    rcases ha₂.origin with h | ⟨-, h⟩
    · cases h
    · rw [h, hlen₁]
  have hlen₂ : s₂.pages.length = 2 := by
    have h1 := lt_length_iff ha₂.pages 1
    have h2 := lt_length_iff ha₂.pages 2
    simp [hlen₁] at h1 h2
    omega
  obtain ⟨m₃, s₃, hrun₃, -, h₃, hlen₃, hhint, hfh, -, hchain⟩ :=
    h₂.run_relink (b := zeroBlob) (j := 0) (show ([0, 1] : List Nat).Nodup by decide) (by
      intro k i hk
      rcases k with - | - | k
      · cases hk
        exact ⟨1, by rw [ha₂.other (by decide), ha₁.self]⟩
      · cases hk
        exact ⟨NO_NEXT_PAGE, ha₂.self⟩
      · cases hk)
  rw [hrun₁, Prog.andThen_ok, Prog.run_bind, Prog.run_bind, hrun₂, Prog.andThen_ok]
  refine ⟨m₃, s₃, ?_, h₃, ?_, ?_, eq_pair (by rw [hlen₃, hlen₂]) hchain.1 hchain.2.1⟩
  · simp only [Prog.run_bind, Prog.run_pure, Prog.andThen_ok, hrun₃]
    rfl
  · rw [hhint, ha₂.hint, ha₁.hint]
  · rw [hfh]
    exact ha₂.free.head_of_nil

/-- The head of the chain passes for a slotted page with room. -/
theorem chainPage_accepts {v : List UInt8} (hv : v.length = 1) :
    slotCount (chainPage 1 zeroBlob 0) = 1 ∧ liveCount (chainPage 1 zeroBlob 0) = 0 ∧
      dataEnd (chainPage 1 zeroBlob 0) = 4088 ∧ Accepts v (chainPage 1 zeroBlob 0) := by
  have hnext := chainPage_next 1 zeroBlob 0
  have hchunk := chainPage_len 1 zeroBlob 0
  have hclen : (chunk zeroBlob 0).length = 4088 := by
    unfold chunk slice
    rw [List.length_take, List.length_drop, zeroBlob, List.length_replicate]
    rfl
  have hsize := (chainPage 1 zeroBlob 0).size_eq
  generalize chainPage 1 zeroBlob 0 = p at *
  have h0 := u32At_eq_u16At (l := p.bytes) (show 0 + 4 ≤ _ by rw [hsize]; decide)
  have h4 := u32At_eq_u16At (l := p.bytes) (show 4 + 4 ≤ _ by rw [hsize]; decide)
  rw [hnext] at h0
  rw [hchunk, hclen] at h4
  have hb0 := (u16At p.bytes 0).toNat_lt
  have hb4 := (u16At p.bytes 4).toNat_lt
  have hone : (1 : UInt32).toNat = 1 := rfl
  have hcount : slotCount p = 1 := UInt16.toNat_inj.1 (by
    show (u16At p.bytes 0).toNat = 1
    omega)
  have hlive : liveCount p = 0 := UInt16.toNat_inj.1 (by
    show (u16At p.bytes (0 + 2)).toNat = 0
    omega)
  have hoff : (entryOff p 0).toNat = 4088 := by
    show (u16At p.bytes 4).toNat = 4088
    omega
  have hlen : (entryLen p 0).toNat = 0 := by
    show (u16At p.bytes (4 + 2)).toNat = 0
    omega
  have hend : dataEnd p = 4088 := by
    simp [dataEnd, hcount, hoff]
  refine ⟨hcount, hlive, hend, ?_, ?_⟩
  · simp [isValid, hcount, hoff, hlen, FREE_PAGE_MARKER, dirOffset, HEADER_SIZE, SLOT_ENTRY_SIZE,
      PAGE_SIZE]
  · simp [hend, hv, dirEnd, hcount, dirOffset, HEADER_SIZE, SLOT_ENTRY_SIZE]

/-- The chain's head behind the inline write: its link leads nowhere. -/
theorem link_of_clobbered {p' : PageData} {slot : UInt16} {v : List UInt8} (hv : v.length = 1)
    (hw : Written (chainPage 1 zeroBlob 0) p' slot v) : u32At p'.bytes 0 = 65538 := by
  obtain ⟨hcount, hlive, -, -⟩ := chainPage_accepts hv
  have h0 := u32At_eq_u16At (l := p'.bytes) (show 0 + 4 ≤ _ by rw [p'.size_eq]; decide)
  have h1 : (u16At p'.bytes 0).toNat = 2 := by
    have := hw.slotCount
    rw [hcount] at this
    exact this
  have h2 : (u16At p'.bytes (0 + 2)).toNat = 1 := by
    have := hw.liveCount
    rw [hlive] at this
    exact this
  apply UInt32.toNat_inj.1
  rw [h0, h1, h2]
  rfl

/-- An inline write with the hint at page 0 lands in the head of the chain. -/
theorem run_write_clobbering {m : PageMap} {ps : PropState} (hm : PropPages m ps) (hhint : ps.hint = 0)
    (hpages : ps.pages = [chainPage 1 zeroBlob 0, chainPage NO_NEXT_PAGE zeroBlob 1]) :
    ∃ p₀ m' hint, (writePropertyBytes [1]).run m = (.ok ⟨0, 1⟩, m') ∧
      PropPages m' ⟨[p₀, chainPage NO_NEXT_PAGE zeroBlob 1], hint, ps.freeHead⟩ ∧
      u32At p₀.bytes 0 = 65538 := by
  have hv : [(1 : UInt8)].length = 1 := rfl
  obtain ⟨hcount, hlive, hend, hacc⟩ := chainPage_accepts hv
  have hclobber := fun p' slot => @link_of_clobbered p' slot [1] hv
  generalize chainPage 1 zeroBlob 0 = c₀ at *
  generalize chainPage NO_NEXT_PAGE zeroBlob 1 = c₁ at *
  have hp₀ : ps.pages[0]? = some c₀ := by rw [hpages]; rfl
  have hstart : m.header.propertyFirstFreeHint = 0 := by
    unfold FileHeader.propertyFirstFreeHint
    rw [hm.hint, hhint, UInt32.min_def, if_pos UInt32.zero_le]
    rfl
  have hlen : ps.pages.length = 2 := by rw [hpages]; rfl
  unfold writePropertyBytes propertyFirstFreeHint
  rw [if_pos (by decide)]
  simp only [Prog.run_bind, Prog.run_getHeader, Prog.run_pure, Prog.andThen_ok, hm.run_count, hstart]
  rcases @PropPages.run_scanPages m ps hm [1] 0 (ps.pages.length - 0) 0 0 false (by omega) (Nat.le_refl _)
    (fun j _ _ hj => absurd hj (Nat.not_lt_zero j)) (fun _ => rfl) with
    ⟨_, _, -, hnone, -⟩ | ⟨i, p, hsettle, hp, hcases⟩
  · exact absurd hacc (hnone 0 _ (Nat.le_refl _) hp₀)
  obtain rfl : i = 0 := by
    rcases Nat.eq_zero_or_pos i with h | h
    · exact h
    · exact absurd hacc (hsettle.first 0 _ (Nat.le_refl _) h hp₀)
  rw [hp₀] at hp
  cases hp
  rcases writeProperty_cases hacc.2 with ⟨-, hover | hover⟩ | ⟨slot, p', hw, hwritten⟩
  · rw [hend] at hover
    exact absurd hover (by decide)
  · rw [hlive] at hover
    exact absurd hover (by decide)
  obtain rfl : slot = 1 := by rw [hwritten.slot_eq, hcount]
  rcases hcases with ⟨hpanic, -⟩ | ⟨slot', p'', m', hint, hw', hrun, hm', -⟩
  · rw [hw] at hpanic
    cases hpanic
  rw [hw] at hw'
  cases hw'
  rw [hpages] at hm'
  refine ⟨p', m', hint, ?_, hm', hclobber p' 1 hwritten⟩
  rw [hrun]
  rfl

theorem run_two_writes {db : DatabaseFile} {m₀ m₁ m₂ : PageMap} {b₁ b₂ : List UInt8}
    {r₁ r₂ : RecordId} (hd : Shows db m₀) (h₁ : (writePropertyBytes b₁).run m₀ = (.ok r₁, m₁))
    (h₂ : (writePropertyBytes b₂).run m₁ = (.ok r₂, m₂)) :
    ∃ s, StoreState.run ⟨db, []⟩ [.write b₁, .write b₂] = some s ∧
      s.live = [(r₂, b₂), (r₁, b₁)] ∧ Shows s.db m₂ := by
  obtain ⟨he₁, hd₁⟩ := hd.exec (writePropertyBytes b₁)
  rw [h₁] at he₁ hd₁
  obtain ⟨he₂, hd₂⟩ := hd₁.exec (writePropertyBytes b₂)
  rw [h₂] at he₂ hd₂
  have hstep₁ := @StoreState.step_write _ [] _ _ he₁
  have hstep₂ := @StoreState.step_write _ [(r₁, b₁)] _ _ he₂
  refine ⟨⟨_, [(r₂, b₂), (r₁, b₁)]⟩, ?_, rfl, hd₂⟩
  rw [StoreState.run_cons hstep₁, StoreState.run_cons hstep₂, StoreState.run_nil]

/-- Two writes to a new file in memory: the second one lands in the chain of the first. -/
theorem run_clobber : ∃ s m ps p₁, StoreState.run ⟨DatabaseFile.createInMemory, []⟩
      [.write zeroBlob, .write [1]] = some s ∧
    s.live = [(⟨0, 1⟩, [1]), (⟨0, CHAIN_HEAD_SLOT⟩, zeroBlob)] ∧ Shows s.db m ∧ PropPages m ps ∧
    ps.freeHead = NO_FREE_PAGE ∧
    ∃ p₀, ps.pages = [p₀, p₁] ∧ u32At p₀.bytes 0 = 65538 := by
  obtain ⟨m₀, hd₀, hc, hh, h0⟩ := newFile_shows (.inr rfl)
  obtain ⟨m₁, ps₁, hrun₁, hm₁, hhint, hfh, hpages⟩ := run_write_zeroBlob hc (propPages_new hc hh h0)
  obtain ⟨p₀, m₂, hint, hrun₂, hm₂, hlink⟩ := run_write_clobbering hm₁ hhint hpages
  obtain ⟨s, hrun, hlive, hd⟩ := run_two_writes hd₀ hrun₁ hrun₂
  exact ⟨s, m₂, _, _, hrun, hlive, hd, hm₂, hfh, p₀, rfl, hlink⟩

theorem run_one_write {db : DatabaseFile} {m₀ m₁ : PageMap} {b : List UInt8} {r : RecordId}
    (hd : Shows db m₀) (h : (writePropertyBytes b).run m₀ = (.ok r, m₁)) :
    ∃ s, StoreState.run ⟨db, []⟩ [.write b] = some s ∧ s.live = [(r, b)] := by
  obtain ⟨he, -⟩ := hd.exec (writePropertyBytes b)
  rw [h] at he
  have hstep := @StoreState.step_write _ [] _ _ he
  exact ⟨_, by rw [StoreState.run_cons hstep, StoreState.run_nil], rfl⟩

theorem zeroBlob_not_inline : ¬ zeroBlob.length + 6 ≤ PAGE_SIZE := by
  have hlen : zeroBlob.length = 4091 := List.length_replicate
  rw [hlen]
  decide

theorem chainOf_clobbered {m : PageMap} {ps : PropState} {p₀ p₁ : PageData} (hm : PropPages m ps)
    (hpages : ps.pages = [p₀, p₁]) (hlink : u32At p₀.bytes 0 = 65538) :
    (chainOf ⟨0, CHAIN_HEAD_SLOT⟩).run m = (.err (.storageCorrupted 65538), m) := by
  have h0 := hm.run_read 0
  have h1 := hm.run_read 65538
  rw [hpages] at h0 h1
  unfold chainOf
  rw [Prog.run_bind, hm.run_count, Prog.andThen_ok, hpages]
  show (collectChain 2 0).run m = _
  unfold collectChain
  rw [Prog.run_bind, h0]
  show (if u32At p₀.bytes 0 = NO_NEXT_PAGE then _ else _ : Prog _).run m = _
  rw [hlink, if_neg (by decide), Prog.run_bind]
  unfold collectChain
  rw [Prog.run_bind]
  show Prog.andThen (Prog.andThen ((readPropertyPage 65538).run m) _) _ = _
  rw [h1]
  rfl

end ChiffonDB
