import ChiffonDB.Storage.SlotAllocator
import ChiffonDB.Storage.StoreRun

/-!
# Runs of the slot allocator

Nodes and edges allocated, written and freed, in any order, from a new database file.

* `TopologyState` — the file, the record ids in use, and the most of a kind that were in use together.
* `Economical` — no slot is given twice, none before the hint is free, and the pages of a kind are as few as can
  hold the most records of it that were live together.
* `topology_economical` — **so it is along every run that frees only slots in use.**
-/

set_option autoImplicit false

namespace ChiffonDB

open Topology RecordPage

inductive TopologyCall where
  | allocNode (nodeTypeId : UInt16)
  | allocEdge (edgeTypeId : UInt16) (fromNode toNode : RecordId)
  | writeNode (node : NodeRecord)
  | writeEdge (edge : EdgeRecord)
  | free (kind : TopologyKind) (rid : RecordId)

structure TopologyState where
  db : DatabaseFile
  live : TopologyKind → List RecordId
  peak : TopologyKind → Nat

namespace TopologyState

def new (db : DatabaseFile) : TopologyState := ⟨db, fun _ => [], fun _ => 0⟩

/-- An allocation; none where it panics. -/
def alloc (s : TopologyState) (kind : TopologyKind) (p : Prog RecordId) : Option TopologyState :=
  match p.exec s.db with
  | (.ok rid, db) => some {
      db := db
      live := Function.update s.live kind (rid :: s.live kind)
      peak := Function.update s.peak kind (max (s.peak kind) ((s.live kind).length + 1)) }
  | (.err _, db) => some { s with db := db }
  | (.panic, _) => none

/-- A write, into any slot. -/
def write (s : TopologyState) (p : Prog Unit) : Option TopologyState :=
  match p.exec s.db with
  | (.panic, _) => none
  | (_, db) => some { s with db := db }

/-- One call; none where it panics or frees a slot that is not in use. -/
def step (s : TopologyState) : TopologyCall → Option TopologyState
  | .allocNode nodeTypeId => s.alloc .node (allocNode nodeTypeId)
  | .allocEdge edgeTypeId fromNode toNode => s.alloc .edge (allocEdge edgeTypeId fromNode toNode)
  | .writeNode node => s.write (writeNode node)
  | .writeEdge edge => s.write (writeEdge edge)
  | .free kind rid =>
    if rid ∈ s.live kind then
      match (freeRecord kind rid).exec s.db with
      | (.ok _, db) => some { s with db := db, live := Function.update s.live kind ((s.live kind).erase rid) }
      | (.err _, db) => some { s with db := db }
      | (.panic, _) => none
    else none

def run (s : TopologyState) : List TopologyCall → Option TopologyState
  | [] => some s
  | c :: calls => (s.step c).bind fun s' => s'.run calls

end TopologyState

/-- The pages of a kind. -/
def topologyPages (kind : TopologyKind) (db : DatabaseFile) : List PageData :=
  (List.range (pageCount db.header kind)).map fun i =>
    match ((readTopologyPage kind i).exec db).1 with
    | .ok page => page
    | _ => PageData.zero

/-- Every slot of the page is in use. -/
def PageFull (kind : TopologyKind) (page : PageData) : Prop :=
  ∀ slot : UInt16, slot.toNat < slots kind → isUsed (recordSize kind) page slot = true

/-- Nothing is wasted and nothing is given twice. -/
structure Economical (s : TopologyState) (kind : TopologyKind) : Prop where
  distinct : (s.live kind).Nodup
  inUse : ∀ rid, ((slotUsed kind rid).exec s.db).1 = .ok (decide (rid ∈ s.live kind))
  full : ∀ i < s.db.header.topologyFirstFreeHint kind, ∃ page,
    (topologyPages kind s.db)[i]? = some page ∧ PageFull kind page
  allocates : (∃ count : UInt32, (Prog.count.exec s.db).1 = .ok count ∧ UInt32.size ≤ count.toNat + 2) ∨
    ∃ i slot db, (allocTopologySlot kind).exec s.db = (.ok (i, slot), db) ∧
      (⟨UInt32.ofNat i, slot⟩ : RecordId) ∉ s.live kind ∧
      (pageCount db.header kind = pageCount s.db.header kind ∨
        pageCount db.header kind = pageCount s.db.header kind + 1 ∧
          ∀ page ∈ topologyPages kind s.db, PageFull kind page)
  least : IsLeast {k | s.peak kind ≤ k * slots kind} (pageCount s.db.header kind)

/-! ## The invariant of a run -/

/-- The place of a slot in a slab. -/
def RecordId.place (rid : RecordId) : ℕ × ℕ := (rid.pageId.toNat, rid.slotId.toNat)

theorem RecordId.place_injective : Function.Injective RecordId.place := fun _ _ h =>
  RecordId.ext_toNat (congrArg Prod.fst h) (congrArg Prod.snd h)

/-- The slots of a kind in use, as a slab has them. -/
def TopologyState.uses (s : TopologyState) (kind : TopologyKind) : SlabUse :=
  ⟨(s.live kind).map RecordId.place, s.peak kind⟩

/-- The file holds two tight slabs. -/
def TopologyInv (s : TopologyState) : Prop :=
  ∃ m D, Shows s.db m ∧ Layout m D ∧ ∀ kind, Slab.Tight (slots kind) (slab m D kind) (s.uses kind)

namespace TopologyInv

variable {s s' : TopologyState} {kind : TopologyKind}

theorem new {db : DatabaseFile} (h : NewFile db) : TopologyInv (.new db) := by
  obtain ⟨m, hd, hc, hh, h0⟩ := newFile_shows h
  refine ⟨m, _, hd, .new hc hh h0, fun kind => ?_⟩
  have hslab : slab m (fun _ => ⟨[], []⟩) kind = ⟨[], 0⟩ := by
    unfold slab
    rw [hh]
    cases kind <;> rfl
  rw [hslab]
  exact Slab.Tight.new _

/-- One kind takes a step of its slab. -/
theorem moved {m m' : PageMap} {D D' : DirKind → DirPages} {c : SlabCall} {db : DatabaseFile}
    {live : List RecordId} {peak : Nat}
    (hslabs : ∀ k, Slab.Tight (slots k) (slab m D k) (s.uses k)) (hd : Shows db m')
    (hmoves : Moves m D m' D' kind c) (huse : (s.uses kind).call c = ⟨live.map RecordId.place, peak⟩) :
    TopologyInv ⟨db, Function.update s.live kind live, Function.update s.peak kind peak⟩ := by
  refine ⟨m', D', hd, hmoves.layout, fun k => ?_⟩
  unfold TopologyState.uses
  by_cases hk : k = kind
  · subst hk
    have htight := (hslabs k).step hmoves.step
    rw [huse] at htight
    simpa using htight
  · rw [hmoves.others k hk]
    simp only [Function.update_of_ne hk]
    exact hslabs k

theorem alloc (h : TopologyInv s) {record : RecordId → List UInt8}
    (hlen : ∀ rid, (record rid).length = recordSize kind)
    (hstep : s.alloc kind (allocRecord kind record) = some s') : TopologyInv s' := by
  obtain ⟨m, D, hd, hl, hslabs⟩ := h
  obtain ⟨h1, h2⟩ := hd.exec (allocRecord kind record)
  unfold TopologyState.alloc at hstep
  cases hexec : (allocRecord kind record).exec s.db with
  | mk r db =>
    rw [hexec] at h1 h2 hstep
    dsimp only at h1 h2
    rcases run_allocRecord hl kind hlen with ⟨-, hpanic⟩ | ⟨rid, m', D', hrun, -, hmoves⟩
    · rw [hpanic] at h1
      subst h1
      cases hstep
    · rw [hrun] at h1 h2
      subst h1
      cases hstep
      refine moved hslabs h2 hmoves ?_
      simp [TopologyState.uses, SlabUse.call, RecordId.place]

theorem write (h : TopologyInv s) {rid : RecordId} {data : List UInt8}
    (hstep : s.write (writeRecord kind rid data) = some s') : TopologyInv s' := by
  obtain ⟨m, D, hd, hl, hslabs⟩ := h
  obtain ⟨h1, h2⟩ := hd.exec (writeRecord kind rid data)
  unfold TopologyState.write at hstep
  cases hexec : (writeRecord kind rid data).exec s.db with
  | mk r db =>
    rw [hexec] at h1 h2 hstep
    dsimp only at h1 h2
    rcases run_writeRecord hl kind rid data with ⟨e, hrun, -⟩ | ⟨m', hrun, -, hl', hsame⟩
    · rw [hrun] at h1 h2
      subst h1
      cases hstep
      exact ⟨m, D, h2, hl, hslabs⟩
    · rw [hrun] at h1 h2
      subst h1
      cases hstep
      exact ⟨m', D, h2, hl', fun k => by rw [hsame]; exact hslabs k⟩

theorem free (h : TopologyInv s) {rid : RecordId} (hstep : s.step (.free kind rid) = some s') :
    TopologyInv s' := by
  obtain ⟨m, D, hd, hl, hslabs⟩ := h
  obtain ⟨h1, h2⟩ := hd.exec (freeRecord kind rid)
  unfold TopologyState.step at hstep
  dsimp only at hstep
  split at hstep
  case isFalse => cases hstep
  case isTrue hmem =>
    have hused := ((hslabs kind).mem rid.place).1 (List.mem_map_of_mem hmem)
    obtain ⟨m', hrun, -, hmoves⟩ := run_freeRecord hl hused
    cases hexec : (freeRecord kind rid).exec s.db with
    | mk r db =>
      rw [hexec] at h1 h2 hstep
      dsimp only at h1 h2
      rw [hrun] at h1 h2
      subst h1
      cases hstep
      have huse : (s.uses kind).call (.free rid.pageId.toNat rid.slotId.toNat) =
          ⟨((s.live kind).erase rid).map RecordId.place, s.peak kind⟩ := by
        show SlabUse.mk (((s.live kind).map RecordId.place).erase rid.place) (s.peak kind) = _
        rw [← List.map_erase RecordId.place_injective]
      have hinv := moved hslabs h2 hmoves huse
      rwa [Function.update_eq_self] at hinv

/-- **One call keeps the slabs tight.** -/
theorem step (h : TopologyInv s) {c : TopologyCall} (hstep : s.step c = some s') : TopologyInv s' := by
  cases c with
  | allocNode nodeTypeId => exact h.alloc (fun rid => NodeRecord.length_serialize _) hstep
  | allocEdge edgeTypeId fromNode toNode => exact h.alloc (fun rid => EdgeRecord.length_serialize _) hstep
  | writeNode node => exact h.write hstep
  | writeEdge edge => exact h.write hstep
  | free kind rid => exact h.free hstep

theorem run (h : TopologyInv s) {calls : List TopologyCall} (hrun : s.run calls = some s') : TopologyInv s' := by
  induction calls generalizing s with
  | nil =>
    cases hrun
    exact h
  | cons c calls ih =>
    obtain ⟨s₁, hstep, hrun⟩ := Option.bind_eq_some_iff.1 hrun
    exact ih (h.step hstep) hrun

/-! ## What the invariant says of the file -/

theorem topologyPages_eq {db : DatabaseFile} {m : PageMap} {D : DirKind → DirPages} (hd : Shows db m)
    (hl : Layout m D) (kind : TopologyKind) :
    topologyPages kind db = contents m (D (.topology kind)).phys := by
  have hcount : pageCount db.header kind = (D (.topology kind)).phys.length := by
    rw [hd.header]
    exact hl.len _
  unfold topologyPages
  rw [hcount]
  apply List.ext_getElem
  · simp [contents]
  · intro i h1 h2
    have hread := hl.run_readLogicalPage (.topology kind) i
    rw [List.getElem?_eq_getElem h2] at hread
    rw [List.getElem_map, List.getElem_range, (hd.exec (readTopologyPage kind i)).1]
    show (match ((readLogicalPage (.topology kind) i).run m).1 with | .ok page => page | _ => _) = _
    rw [hread]

theorem pageFull_iff {kind : TopologyKind} {page : PageData} :
    PageFull kind page ↔ usedSlots (recordSize kind) page = Finset.range (slots kind) := by
  constructor
  · intro h
    refine Finset.Subset.antisymm (usedSlots_subset _ _) fun i hi => ?_
    have hlt := Finset.mem_range.1 hi
    have := h (UInt16.ofNat i) (by rw [toNat_slot hlt]; exact hlt)
    rwa [isUsed_iff, toNat_slot hlt] at this
  · intro h slot hslot
    rw [isUsed_iff, h]
    exact Finset.mem_range.2 hslot

theorem economical (h : TopologyInv s) (kind : TopologyKind) : Economical s kind := by
  obtain ⟨m, D, hd, hl, hslabs⟩ := h
  have htight := hslabs kind
  have hpages := topologyPages_eq hd hl kind
  have hslab : (slab m D kind).pages = (topologyPages kind s.db).map (usedSlots (recordSize kind)) := by
    rw [hpages]
    rfl
  have hcount : ∀ {db : DatabaseFile} {m' : PageMap} {D' : DirKind → DirPages}, Shows db m' → Layout m' D' →
      pageCount db.header kind = (slab m' D' kind).pages.length := by
    intro db m' D' hd' hl'
    rw [hd'.header, pageCount_eq hl']
  have hfull : ∀ {i page}, (topologyPages kind s.db)[i]? = some page →
      (slab m D kind).Full (slots kind) i → PageFull kind page := by
    intro i page hpage hf
    unfold Slab.Full at hf
    rw [hslab, List.getElem?_map, hpage, Option.map_some] at hf
    exact pageFull_iff.2 (Option.some.inj hf)
  have hmem : ∀ rid : RecordId, rid ∈ s.live kind ↔
      (slab m D kind).Used (rid.pageId.toNat, rid.slotId.toNat) := by
    intro rid
    rw [← htight.mem]
    exact (List.mem_map_of_injective RecordId.place_injective).symm
  refine ⟨.of_map _ htight.nodup, fun rid => ?_, fun i hi => ?_, ?_, ?_⟩
  · obtain ⟨b, hrun, hb⟩ := run_slotUsed hl kind rid
    rw [(hd.exec _).1, hrun, Bool.eq_iff_iff.2 (hb.trans ((hmem rid).symm.trans (decide_eq_true_iff).symm))]
  · rw [hd.header] at hi
    have hf := htight.full i hi
    obtain ⟨page, hpage, -⟩ : ∃ page, (topologyPages kind s.db)[i]? = some page ∧
        usedSlots (recordSize kind) page = Finset.range (slots kind) := by
      unfold Slab.Full at hf
      rw [hslab, List.getElem?_map, Option.map_eq_some_iff] at hf
      exact hf
    exact ⟨page, hpage, hfull hpage hf⟩
  · obtain ⟨h1, h2⟩ := hd.exec (allocTopologySlot kind)
    rcases run_allocTopologySlot hl kind with ⟨hsize, -⟩ | ⟨i, slot, m', D', hrun, -, hmoves⟩
    · exact .inl ⟨m.count, by rw [(hd.exec _).1, Prog.run_count], hsize⟩
    · rw [hrun] at h1 h2
      have hpid : (UInt32.ofNat i).toNat = i := by
        have hlt := hmoves.step.bounds.1
        rw [← pageCount_eq hmoves.layout] at hlt
        exact UInt32.toNat_ofNat_of_lt' (Nat.lt_trans hlt (UInt32.toNat_lt _))
      refine .inr ⟨i, slot, ((allocTopologySlot kind).exec s.db).2, Prod.ext h1 rfl, ?_, ?_⟩
      · rw [hmem]
        show ¬ Slab.Used _ ((UInt32.ofNat i).toNat, slot.toNat)
        rw [hpid]
        exact hmoves.step.fresh
      · rw [hcount h2 hmoves.layout, hcount hd hl]
        refine hmoves.step.grown.imp_right fun ⟨hlen, hskip⟩ => ⟨hlen, fun page hpage => ?_⟩
        obtain ⟨k, hk, hget⟩ := List.getElem_of_mem hpage
        have hklt : k < (slab m D kind).pages.length := by
          rw [hslab, List.length_map]
          exact hk
        exact hfull (List.getElem?_eq_some_iff.2 ⟨hk, hget⟩) (htight.all_full hskip k hklt)
  · rw [hcount hd hl]
    exact htight.least

end TopologyInv

/-- **After any run of allocations, writes and frees of slots in use from a new file: the slots in use are the ones
    given out and not freed, every page before the hint is full, the next allocation gives a slot that is not in
    use and adds a page only where every page is full, and the pages are as few as can hold the most records that
    were live together.** -/
theorem topology_economical {db : DatabaseFile} (h : NewFile db) {calls : List TopologyCall} {s : TopologyState}
    (hrun : (TopologyState.new db).run calls = some s) (kind : TopologyKind) : Economical s kind :=
  ((TopologyInv.new h).run hrun).economical kind

/-- A node allocated in a new database in memory. -/
theorem topology_economical_node : ∃ s,
    (TopologyState.new DatabaseFile.createInMemory).run [.allocNode 7] = some s ∧ Economical s .node := by
  obtain ⟨m, hd, hc, hh, h0⟩ := newFile_shows (.inr rfl)
  have hexec := (hd.exec (allocNode 7)).1
  rcases run_allocRecord (Layout.new hc hh h0) .node (fun rid => NodeRecord.length_serialize
      ⟨rid, 7, none, none, none, none, 0⟩) with ⟨hfull, -⟩ | ⟨rid, m', D', hrun, -⟩
  · rw [hc] at hfull
    exact absurd hfull (by decide)
  · have hok : ((allocNode 7).exec DatabaseFile.createInMemory).1 = .ok rid :=
      hexec.trans (congrArg Prod.fst hrun)
    have hstep : ∃ s, (TopologyState.new DatabaseFile.createInMemory).step (.allocNode 7) = some s := by
      unfold TopologyState.step TopologyState.alloc
      dsimp only [TopologyState.new]
      generalize (allocNode 7).exec DatabaseFile.createInMemory = r at hok
      obtain ⟨r, db⟩ := r
      dsimp only at hok
      rw [hok]
      exact ⟨_, rfl⟩
    obtain ⟨s, hstep⟩ := hstep
    have hrun : (TopologyState.new DatabaseFile.createInMemory).run [.allocNode 7] = some s := by
      rw [TopologyState.run, hstep]
      rfl
    exact ⟨s, hrun, topology_economical (.inr rfl) hrun .node⟩

end ChiffonDB
