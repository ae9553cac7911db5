import ChiffonDB.Lib.Slab
import ChiffonDB.Storage.LogicalPages
import ChiffonDB.Storage.RecordSlots

/-!
# The slot allocator

The allocation and the freeing of node and edge slots in `storage/topology.rs`, over the page directories and the
header of the file.

* `slab` — the slab that the pages of a kind and the header's hint stand for.
* `run_allocTopologySlot`, `run_freeRecord` — **an allocation and a free are steps of it**, which leave the slab of
  the other kind as it is.
* `run_writeRecord` — writing a record is none.
-/

set_option autoImplicit false

namespace ChiffonDB

def FileHeader.firstFreePage (h : FileHeader) : TopologyKind → UInt32
  | .node => h.nodeFirstFreePage
  | .edge => h.edgeFirstFreePage

def FileHeader.withFirstFreePage (h : FileHeader) (kind : TopologyKind) (hint : UInt32) : FileHeader :=
  match kind with
  | .node => { h with nodeFirstFreePage := hint }
  | .edge => { h with edgeFirstFreePage := hint }

/-- `topology_first_free_hint`, clamped to the number of pages. -/
def FileHeader.topologyFirstFreeHint (h : FileHeader) (kind : TopologyKind) : Nat :=
  (min (h.firstFreePage kind) (h.dirLen (.topology kind))).toNat

def setTopologyFirstFreeHint (kind : TopologyKind) (hint : Nat) : Prog Unit := do
  let h ← Prog.getHeader
  Prog.putHeader (h.withFirstFreePage kind (UInt32.ofNat hint))

namespace Topology

open RecordPage

def recordSize : TopologyKind → Nat
  | .node => NODE_RECORD_SIZE
  | .edge => EDGE_RECORD_SIZE

/-- `node_page_count`, `edge_page_count`. -/
def pageCount (h : FileHeader) (kind : TopologyKind) : Nat := (h.dirLen (.topology kind)).toNat

/-- The loop of `alloc_topology_slot` over the pages from the hint on. -/
def scanPages (kind : TopologyKind) (start : Nat) : List Nat → Prog (Option (Nat × UInt16))
  | [] => pure none
  | logical :: rest => do
    let page ← readTopologyPage kind logical
    match allocSlot (recordSize kind) page with
    | some (slot, page) => do
      writeTopologyPage kind logical page
      if logical ≠ start then setTopologyFirstFreeHint kind logical else pure ()
      pure (some (logical, slot))
    | none => scanPages kind start rest

/-- The end of `alloc_topology_slot`: a fresh page. -/
def allocFresh (kind : TopologyKind) : Prog (Nat × UInt16) :=
  match allocSlot (recordSize kind) newPage with
  | none => .throw (.storageCorrupted 0)
  | some (slot, page) => do
    let logical ← allocTopologyPage kind page
    setTopologyFirstFreeHint kind logical
    pure (logical, slot)

def allocTopologySlot (kind : TopologyKind) : Prog (Nat × UInt16) := do
  let h ← Prog.getHeader
  let count := pageCount h kind
  let start := h.topologyFirstFreeHint kind
  match ← scanPages kind start (List.range' start (count - start)) with
  | some found => pure found
  | none => allocFresh kind

def backOffTopologyHint (kind : TopologyKind) (logical : Nat) : Prog Unit := do
  let h ← Prog.getHeader
  if logical < h.topologyFirstFreeHint kind then setTopologyFirstFreeHint kind logical else pure ()

/-- `free_node`, and the end of `delete_edge`. -/
def freeRecord (kind : TopologyKind) (rid : RecordId) : Prog Unit := do
  let logical := rid.pageId.toNat
  let page ← readTopologyPage kind logical
  let page ← Prog.ofExcept (freeSlot (recordSize kind) page rid.slotId)
  writeTopologyPage kind logical page
  backOffTopologyHint kind logical

/-- `write_node`, `write_edge`. -/
def writeRecord (kind : TopologyKind) (rid : RecordId) (data : List UInt8) : Prog Unit := do
  let h ← Prog.getHeader
  let logical := rid.pageId.toNat
  if logical ≥ pageCount h kind then .throw (.storageCorrupted rid.pageId)
  else do
    let page ← readTopologyPage kind logical
    let page ← Prog.ofExcept (writeSlot (recordSize kind) page rid.slotId data)
    writeTopologyPage kind logical page

def writeNode (node : NodeRecord) : Prog Unit := writeRecord .node node.id node.serialize

def writeEdge (edge : EdgeRecord) : Prog Unit := writeRecord .edge edge.id edge.serialize

def freeNode (rid : RecordId) : Prog Unit := freeRecord .node rid

/-- `alloc_node`, `alloc_edge`: a slot, and the record that is written to it. -/
def allocRecord (kind : TopologyKind) (record : RecordId → List UInt8) : Prog RecordId := do
  let (logical, slot) ← allocTopologySlot kind
  let rid : RecordId := ⟨UInt32.ofNat logical, slot⟩
  writeRecord kind rid (record rid)
  pure rid

def allocNode (nodeTypeId : UInt16) : Prog RecordId :=
  allocRecord .node fun rid => NodeRecord.serialize ⟨rid, nodeTypeId, none, none, none, none, 0⟩

def allocEdge (edgeTypeId : UInt16) (fromNode toNode : RecordId) : Prog RecordId :=
  allocRecord .edge fun rid => EdgeRecord.serialize ⟨rid, edgeTypeId, fromNode, toNode, none, none, none, 0, none⟩

/-- `node_slot_used`, `edge_slot_used`. -/
def slotUsed (kind : TopologyKind) (rid : RecordId) : Prog Bool := do
  let h ← Prog.getHeader
  let logical := rid.pageId.toNat
  if logical ≥ pageCount h kind then pure false
  else do
    match ← (readTopologyPage kind logical).attempt with
    | .ok page => pure (isUsed (recordSize kind) page rid.slotId)
    | .error _ => pure false

/-! ## The slabs of a file -/

/-- How many records a page of a kind holds. -/
def slots (kind : TopologyKind) : Nat := slotCount (recordSize kind)

theorem slots_pos (kind : TopologyKind) : 0 < slots kind := by
  cases kind with
  | node => exact show 0 < slotCount 64 by decide
  | edge => exact show 0 < slotCount 64 by decide

/-- The slots in use on the pages of a kind, and where a search starts. -/
def slab (m : PageMap) (D : DirKind → DirPages) (kind : TopologyKind) : Slab where
  pages := (contents m (D (.topology kind)).phys).map (usedSlots (recordSize kind))
  hint := m.header.topologyFirstFreeHint kind

theorem firstFreePage_withFirstFreePage (h : FileHeader) (k k' : TopologyKind) (hint : UInt32) :
    (h.withFirstFreePage k hint).firstFreePage k' = if k' = k then hint else h.firstFreePage k' := by
  rcases k with _ | _ <;> rcases k' with _ | _ <;> rfl

theorem dirRoot_withFirstFreePage (h : FileHeader) (k : TopologyKind) (hint : UInt32) :
    (h.withFirstFreePage k hint).dirRoot = h.dirRoot := by
  funext k'
  rcases k with _ | _ <;> rcases k' with _ | _ | _ <;> rfl

theorem dirLen_withFirstFreePage (h : FileHeader) (k : TopologyKind) (hint : UInt32) :
    (h.withFirstFreePage k hint).dirLen = h.dirLen := by
  funext k'
  rcases k with _ | _ <;> rcases k' with _ | _ | _ <;> rfl

theorem firstFreePage_withDir (h : FileHeader) (k : DirKind) (root len : UInt32) :
    (h.withDir k root len).firstFreePage = h.firstFreePage := by
  funext k'
  rcases k with _ | _ | _ <;> rcases k' with _ | _ <;> rfl

theorem topologyFirstFreeHint_eq (h : FileHeader) (kind : TopologyKind) :
    h.topologyFirstFreeHint kind = min (h.firstFreePage kind).toNat (h.dirLen (.topology kind)).toNat := by
  unfold FileHeader.topologyFirstFreeHint
  rw [UInt32.min_def, Nat.min_def]
  split <;> rename_i hle <;> rw [UInt32.le_iff_toNat_le] at hle
  · rw [if_pos hle]
  · rw [if_neg hle]

section Steps

variable {m m' : PageMap} {D D' : DirKind → DirPages} {kind : TopologyKind}

/-- A step of the slab of a kind, with the other one as it was. -/
structure Moves (m : PageMap) (D : DirKind → DirPages) (m' : PageMap) (D' : DirKind → DirPages)
    (kind : TopologyKind) (c : SlabCall) : Prop where
  layout : Layout m' D'
  step : Slab.Step (slots kind) (slab m D kind) c (slab m' D' kind)
  others : ∀ k, k ≠ kind → slab m' D' k = slab m D k

theorem length_slab (m : PageMap) (D : DirKind → DirPages) (kind : TopologyKind) :
    (slab m D kind).pages.length = (D (.topology kind)).phys.length := by
  simp [slab, contents]

theorem getElem?_slab (h : Layout m D) {i : Nat} {p : UInt32} {page : PageData}
    (hi : (D (.topology kind)).phys[i]? = some p) (hp : m.pages p = some page) :
    (slab m D kind).pages[i]? = some (usedSlots (recordSize kind) page) := by
  unfold slab
  rw [List.getElem?_map, h.getElem?_contents hi, hp, Option.map_some]

theorem hint_slab (h : Layout m D) (kind : TopologyKind) :
    (slab m D kind).hint = min (m.header.firstFreePage kind).toNat (D (.topology kind)).phys.length := by
  rw [← h.len]
  exact topologyFirstFreeHint_eq _ _

theorem pageCount_eq (h : Layout m D) (kind : TopologyKind) :
    pageCount m.header kind = (slab m D kind).pages.length := by
  rw [length_slab, ← h.len]
  rfl

/-- A page that is written has new slots in use. -/
theorem slab_set (h : Layout m D) {i : Nat} {p : UInt32} (hi : (D (.topology kind)).phys[i]? = some p)
    (page : PageData) :
    slab (m.set p page) D kind =
      ⟨(slab m D kind).pages.set i (usedSlots (recordSize kind) page), (slab m D kind).hint⟩ := by
  unfold slab
  rw [h.contents_set hi, List.map_set]
  rfl

theorem slab_set_of_ne (h : Layout m D) {p : UInt32} (hp : p ∈ (D (.topology kind)).phys) (page : PageData)
    {k : TopologyKind} (hk : k ≠ kind) : slab (m.set p page) D k = slab m D k := by
  have hpages : contents (m.set p page) (D (.topology k)).phys = contents m (D (.topology k)).phys := by
    refine Layout.contents_congr fun q hq => m.set_pages_of_ne ?_ page
    rintro rfl
    exact hk (DirKind.topology.inj (h.owner (Layout.mem_phys hq) (Layout.mem_phys hp)))
  unfold slab
  rw [hpages]
  rfl

/-- The header after the hint is set. -/
theorem run_setTopologyFirstFreeHint (h : Layout m D) (kind : TopologyKind) (hint : Nat)
    (hle : hint ≤ (slab m D kind).pages.length) :
    ∃ m', (setTopologyFirstFreeHint kind hint).run m = (.ok (), m') ∧ Layout m' D ∧ m'.count = m.count ∧
      slab m' D kind = ⟨(slab m D kind).pages, hint⟩ ∧ ∀ k, k ≠ kind → slab m' D k = slab m D k := by
  have hroot := dirRoot_withFirstFreePage m.header kind (UInt32.ofNat hint)
  have hlen := dirLen_withFirstFreePage m.header kind (UInt32.ofNat hint)
  have hpages : ∀ k, contents { m.set 0 (m.header.withFirstFreePage kind (UInt32.ofNat hint)).serialize with
      header := m.header.withFirstFreePage kind (UInt32.ofNat hint) } (D (.topology k)).phys =
      contents m (D (.topology k)).phys := fun k => Layout.contents_congr fun p hp =>
    m.set_pages_of_ne (h.bound _ p (Layout.mem_phys hp)).1 _
  have hsmall : (UInt32.ofNat hint).toNat = hint := by
    rw [length_slab, ← h.len] at hle
    exact UInt32.toNat_ofNat_of_lt' (Nat.lt_of_le_of_lt hle (UInt32.toNat_lt _))
  refine ⟨_, ?_, h.set_header hroot hlen, rfl, ?_, fun k hk => ?_⟩
  · unfold setTopologyFirstFreeHint
    rw [Prog.run_bind, Prog.run_getHeader, Prog.andThen_ok, Prog.run_putHeader h.page0]
  · unfold slab
    rw [hpages, topologyFirstFreeHint_eq]
    dsimp only
    rw [firstFreePage_withFirstFreePage, if_pos rfl, hsmall, hlen]
    rw [length_slab, ← h.len] at hle
    rw [Nat.min_eq_left hle]
  · unfold slab
    rw [hpages, topologyFirstFreeHint_eq, topologyFirstFreeHint_eq]
    dsimp only
    rw [firstFreePage_withFirstFreePage, if_neg hk, hlen]

/-! ## Allocation -/

/-- The scan passes the pages that are full and takes a slot of the first one that is not. -/
theorem run_scanPages (h : Layout m D) (kind : TopologyKind) (n logical : Nat)
    (hend : logical + n = (slab m D kind).pages.length) (hstart : (slab m D kind).hint ≤ logical)
    (hfull : ∀ k, (slab m D kind).hint ≤ k → k < logical → (slab m D kind).Full (slots kind) k) :
    ((scanPages kind (slab m D kind).hint (List.range' logical n)).run m = (.ok none, m) ∧
      ∀ k, (slab m D kind).hint ≤ k → k < (slab m D kind).pages.length → (slab m D kind).Full (slots kind) k) ∨
    ∃ i slot m', (scanPages kind (slab m D kind).hint (List.range' logical n)).run m = (.ok (some (i, slot)), m') ∧
      m'.count = m.count ∧ Moves m D m' D kind (.alloc i slot.toNat) := by
  induction n generalizing logical with
  | zero =>
    refine .inl ⟨rfl, fun k hk hlt => hfull k hk ?_⟩
    omega
  | succ n ih =>
    have hlt : logical < (D (.topology kind)).phys.length := by
      rw [length_slab] at hend
      omega
    have hi : (D (.topology kind)).phys[logical]? = some (D (.topology kind)).phys[logical] :=
      List.getElem?_eq_getElem hlt
    generalize (D (.topology kind)).phys[logical] = p at hi
    have hp := List.mem_of_getElem? hi
    obtain ⟨page, hpage⟩ := Option.isSome_iff_exists.1 (h.mapped _ p hp)
    have hslots := getElem?_slab h hi hpage
    have hread : (readTopologyPage kind logical).run m = (.ok page, m) := by
      unfold readTopologyPage
      rw [h.run_readLogicalPage, h.getElem?_contents hi, hpage]
    rw [List.range'_succ, scanPages, Prog.run_bind, hread, Prog.andThen_ok]
    rcases allocSlot_cases (recordSize kind) page with ⟨hnone, hused⟩ | ⟨slot, page', hsome, hslot, hfresh, hused⟩
    · rw [hnone]
      refine ih (logical + 1) (by omega) (by omega) fun k hk hlt' => ?_
      by_cases hkl : k = logical
      · rw [hkl]
        show (slab m D kind).pages[logical]? = _
        rw [hslots, hused]
        rfl
      · exact hfull k hk (by omega)
    · have hwrite : (writeTopologyPage kind logical page').run m = (.ok (), m.set p page') := by
        unfold writeTopologyPage
        rw [h.run_writeLogicalPage, hi]
      have h' := h.set_phys hp page'
      have hslab := slab_set h hi page'
      rw [hused] at hslab
      have hstep := Slab.Step.fill hstart hfull hslots hfresh hslot
      rw [hsome]
      dsimp only
      rw [Prog.run_bind, hwrite, Prog.andThen_ok]
      by_cases heq : logical = (slab m D kind).hint
      · rw [if_neg (not_not.2 heq)]
        refine .inr ⟨logical, slot, m.set p page', rfl, rfl, h', ?_, fun k hk => slab_set_of_ne h hp page' hk⟩
        rw [hslab]
        rwa [← heq]
      · rw [if_pos heq, Prog.run_bind]
        obtain ⟨m', hrun, hl, hcount, hnew, hother⟩ := run_setTopologyFirstFreeHint h' kind logical
          (by rw [length_slab]; exact Nat.le_of_lt hlt)
        rw [hrun, Prog.andThen_ok]
        refine .inr ⟨logical, slot, m', rfl, hcount, hl, ?_, fun k hk => ?_⟩
        · rw [hnew, hslab]
          exact hstep
        · rw [hother k hk]
          exact slab_set_of_ne h hp page' hk

/-- A fresh page, unless the file is full. -/
theorem run_allocFresh (h : Layout m D) (kind : TopologyKind)
    (hfull : ∀ k, (slab m D kind).hint ≤ k → k < (slab m D kind).pages.length →
      (slab m D kind).Full (slots kind) k) :
    (UInt32.size ≤ m.count.toNat + 2 ∧ ((allocFresh kind).run m).1 = .panic) ∨
    ∃ i slot m' D', (allocFresh kind).run m = (.ok (i, slot), m') ∧ m'.count.toNat ≤ m.count.toNat + 2 ∧
      Moves m D m' D' kind (.alloc i slot.toNat) := by
  unfold allocFresh
  rcases allocSlot_cases (recordSize kind) newPage with ⟨-, hused⟩ | ⟨slot, page, hsome, hslot, -, hused⟩
  · rw [usedSlots_newPage] at hused
    have := congrArg Finset.card hused
    rw [Finset.card_empty, Finset.card_range] at this
    exact absurd this.symm (Nat.ne_of_gt (slots_pos kind))
  · rw [usedSlots_newPage, insert_empty_eq] at hused
    rw [hsome]
    dsimp only
    rw [Prog.run_bind]
    unfold allocTopologyPage
    rcases h.run_mapPage (.topology kind) page with ⟨hsize, hpanic⟩ | ⟨m₁, D₁, hmap, hm⟩
    · refine .inl ⟨hsize, ?_⟩
      cases hr : (mapPage (.topology kind) page).run m with
      | mk r m₁ =>
        rw [hr] at hpanic
        cases hpanic
        rfl
    · have hold : ∀ k, contents m₁ (D (.topology k)).phys = contents m (D (.topology k)).phys := fun k =>
        Layout.contents_congr fun p hp => by
          rw [hm.old p (.inr ⟨_, hp⟩)]
          refine m.set_pages_of_ne ?_ page
          rintro rfl
          exact UInt32.lt_irrefl _ (h.bound _ _ (Layout.mem_phys hp)).2
      obtain ⟨root, len, hheader⟩ := hm.header
      have hfree : m₁.header.firstFreePage = m.header.firstFreePage := by
        rw [hheader]
        exact firstFreePage_withDir _ _ _ _
      have hnew : (slab m₁ D₁ kind).pages = (slab m D kind).pages ++ [{slot.toNat}] := by
        have hlast : m₁.pages m.count = some page := by
          rw [hm.old _ (.inl rfl)]
          exact m.set_pages_self _ _
        unfold slab
        dsimp only
        rw [hm.phys, contents, List.map_append, ← contents, hold, List.map_append]
        show _ ++ [usedSlots _ ((m₁.pages m.count).getD _)] = _
        rw [hlast, Option.getD_some, hused]
      have hother : ∀ k, k ≠ kind → slab m₁ D₁ k = slab m D k := by
        intro k hk
        have hD : D₁ (.topology k) = D (.topology k) := hm.others _ fun he => hk (DirKind.topology.inj he)
        have hhint := hint_slab hm.layout k
        rw [hD, hfree, ← hint_slab h k] at hhint
        unfold slab at hhint ⊢
        dsimp only at hhint
        rw [hD, hold, hhint]
      have hlen : (slab m D kind).pages.length = (D (.topology kind)).phys.length := length_slab m D kind
      obtain ⟨m', hrun, hl, hcount, hset, hkeep⟩ := run_setTopologyFirstFreeHint hm.layout kind
        (D (.topology kind)).phys.length (by rw [hnew, List.length_append, hlen]; omega)
      rw [hmap, Prog.andThen_ok, Prog.run_bind, hrun, Prog.andThen_ok]
      refine .inr ⟨_, slot, m', D₁, rfl, ?_, hl, ?_, fun k hk => ?_⟩
      · rw [hcount]
        have h1 := hm.count
        dsimp only at h1
        rw [UInt32.toNat_add] at h1
        have h2 : (m.count.toNat + (1 : UInt32).toNat) % 2 ^ 32 ≤ m.count.toNat + 1 := Nat.mod_le _ _
        omega
      · rw [hset, hnew, ← hlen]
        exact Slab.Step.grow hfull hslot
      · rw [hkeep k hk, hother k hk]

/-- **An allocation is a step of the slab of its kind**, unless the file is full. -/
theorem run_allocTopologySlot (h : Layout m D) (kind : TopologyKind) :
    (UInt32.size ≤ m.count.toNat + 2 ∧ ((allocTopologySlot kind).run m).1 = .panic) ∨
    ∃ i slot m' D', (allocTopologySlot kind).run m = (.ok (i, slot), m') ∧ m'.count.toNat ≤ m.count.toNat + 2 ∧
      Moves m D m' D' kind (.alloc i slot.toNat) := by
  unfold allocTopologySlot
  rw [Prog.run_bind, Prog.run_getHeader, Prog.andThen_ok]
  dsimp only
  rw [Prog.run_bind, pageCount_eq h]
  have hle : (slab m D kind).hint ≤ (slab m D kind).pages.length := by
    rw [hint_slab h, length_slab]
    exact Nat.min_le_right _ _
  have hscan := run_scanPages h kind ((slab m D kind).pages.length - (slab m D kind).hint) (slab m D kind).hint
    (Nat.add_sub_cancel' hle) (Nat.le_refl _) fun k hk hlt => absurd hk (Nat.not_le_of_lt hlt)
  change ((scanPages kind (m.header.topologyFirstFreeHint kind) _).run m = _ ∧ _) ∨ _ at hscan
  rcases hscan with ⟨hnone, hfull⟩ | ⟨i, slot, m', hsome, hcount, hmoves⟩
  · change (scanPages kind (m.header.topologyFirstFreeHint kind) (List.range' (m.header.topologyFirstFreeHint kind)
      ((slab m D kind).pages.length - m.header.topologyFirstFreeHint kind))).run m = _ at hnone
    rw [hnone, Prog.andThen_ok]
    exact run_allocFresh h kind hfull
  · change (scanPages kind (m.header.topologyFirstFreeHint kind) (List.range' (m.header.topologyFirstFreeHint kind)
      ((slab m D kind).pages.length - m.header.topologyFirstFreeHint kind))).run m = _ at hsome
    rw [hsome, Prog.andThen_ok]
    exact .inr ⟨i, slot, m', D, rfl, by rw [hcount]; omega, hmoves⟩

/-! ## Freeing and writing -/

/-- **Freeing a slot in use is a step of the slab of its kind.** -/
theorem run_freeRecord (h : Layout m D) {rid : RecordId}
    (hused : (slab m D kind).Used (rid.pageId.toNat, rid.slotId.toNat)) :
    ∃ m', (freeRecord kind rid).run m = (.ok (), m') ∧ m'.count = m.count ∧
      Moves m D m' D kind (.free rid.pageId.toNat rid.slotId.toNat) := by
  obtain ⟨used, hpage, hslot⟩ := hused
  dsimp only at hpage hslot
  have hlt := (List.getElem?_eq_some_iff.1 hpage).1
  rw [length_slab] at hlt
  have hi : (D (.topology kind)).phys[rid.pageId.toNat]? = some (D (.topology kind)).phys[rid.pageId.toNat] :=
    List.getElem?_eq_getElem hlt
  generalize (D (.topology kind)).phys[rid.pageId.toNat] = p at hi
  have hp := List.mem_of_getElem? hi
  obtain ⟨page, hdata⟩ := Option.isSome_iff_exists.1 (h.mapped _ p hp)
  have hslots := getElem?_slab h hi hdata
  obtain rfl : usedSlots (recordSize kind) page = used := Option.some.inj (hslots.symm.trans hpage)
  have hread : (readTopologyPage kind rid.pageId.toNat).run m = (.ok page, m) := by
    unfold readTopologyPage
    rw [h.run_readLogicalPage, h.getElem?_contents hi, hdata]
  obtain ⟨page', hfree, hcleared⟩ : ∃ page', freeSlot (recordSize kind) page rid.slotId = .ok page' ∧
      usedSlots (recordSize kind) page' = (usedSlots (recordSize kind) page).erase rid.slotId.toNat := by
    rcases freeSlot_cases (recordSize kind) page rid.slotId with ⟨-, hout⟩ | hfree
    · exact absurd (mem_usedSlots.1 hslot).1 (Nat.not_lt.2 hout)
    · exact hfree
  have hwrite : (writeTopologyPage kind rid.pageId.toNat page').run m = (.ok (), m.set p page') := by
    unfold writeTopologyPage
    rw [h.run_writeLogicalPage, hi]
  have h' := h.set_phys hp page'
  have hslab := slab_set h hi page'
  rw [hcleared] at hslab
  have hstep := Slab.Step.free (n := slots kind) hslots hslot
  unfold freeRecord
  dsimp only
  rw [Prog.run_bind, hread, Prog.andThen_ok, Prog.run_bind, hfree]
  show ∃ m', Prog.andThen (.ok page', m) _ = _ ∧ _
  rw [Prog.andThen_ok, Prog.run_bind, hwrite, Prog.andThen_ok]
  unfold backOffTopologyHint
  rw [Prog.run_bind, Prog.run_getHeader, Prog.andThen_ok]
  by_cases hback : rid.pageId.toNat < (m.set p page').header.topologyFirstFreeHint kind
  · rw [if_pos hback]
    obtain ⟨m', hrun, hl, hcount, hnew, hother⟩ := run_setTopologyFirstFreeHint h' kind rid.pageId.toNat
      (by rw [length_slab]; exact Nat.le_of_lt hlt)
    refine ⟨m', hrun, hcount, hl, ?_, fun k hk => ?_⟩
    · rw [hnew, hslab]
      rw [Nat.min_eq_left (Nat.le_of_lt (show _ < (slab m D kind).hint from hback))] at hstep
      exact hstep
    · rw [hother k hk]
      exact slab_set_of_ne h hp page' hk
  · rw [if_neg hback]
    refine ⟨m.set p page', rfl, rfl, h', ?_, fun k hk => slab_set_of_ne h hp page' hk⟩
    rw [hslab]
    rw [Nat.min_eq_right (Nat.le_of_not_lt (show ¬ _ < (slab m D kind).hint from hback))] at hstep
    exact hstep

/-- Writing a record leaves the slabs as they are. -/
theorem run_writeRecord (h : Layout m D) (kind : TopologyKind) (rid : RecordId) (data : List UInt8) :
    (∃ e, (writeRecord kind rid data).run m = (.err e, m) ∧
      (pageCount m.header kind ≤ rid.pageId.toNat ∨ data.length ≠ recordSize kind ∨
        slots kind ≤ rid.slotId.toNat)) ∨
    ∃ m', (writeRecord kind rid data).run m = (.ok (), m') ∧ m'.count = m.count ∧ Layout m' D ∧
      ∀ k, slab m' D k = slab m D k := by
  unfold writeRecord
  rw [Prog.run_bind, Prog.run_getHeader, Prog.andThen_ok]
  dsimp only
  by_cases hout : rid.pageId.toNat ≥ pageCount m.header kind
  · rw [if_pos hout]
    exact .inl ⟨_, rfl, .inl hout⟩
  rw [if_neg hout]
  have hlt : rid.pageId.toNat < (D (.topology kind)).phys.length := by
    rw [pageCount_eq h, length_slab] at hout
    exact Nat.lt_of_not_le hout
  have hi : (D (.topology kind)).phys[rid.pageId.toNat]? = some (D (.topology kind)).phys[rid.pageId.toNat] :=
    List.getElem?_eq_getElem hlt
  generalize (D (.topology kind)).phys[rid.pageId.toNat] = p at hi
  have hp := List.mem_of_getElem? hi
  obtain ⟨page, hdata⟩ := Option.isSome_iff_exists.1 (h.mapped _ p hp)
  have hread : (readTopologyPage kind rid.pageId.toNat).run m = (.ok page, m) := by
    unfold readTopologyPage
    rw [h.run_readLogicalPage, h.getElem?_contents hi, hdata]
  rw [Prog.run_bind, hread, Prog.andThen_ok, Prog.run_bind]
  rcases writeSlot_cases (recordSize kind) page rid.slotId data with ⟨hbad, hwhy⟩ | ⟨page', hok, hsame⟩
  · rw [hbad]
    exact .inl ⟨_, rfl, .inr hwhy⟩
  · have hwrite : (writeTopologyPage kind rid.pageId.toNat page').run m = (.ok (), m.set p page') := by
      unfold writeTopologyPage
      rw [h.run_writeLogicalPage, hi]
    rw [hok]
    refine .inr ⟨m.set p page', hwrite, rfl, h.set_phys hp page', fun k => ?_⟩
    by_cases hk : k = kind
    · subst hk
      have hlt' := (List.getElem?_eq_some_iff.1 (getElem?_slab h hi hdata)).1
      have hget := (List.getElem?_eq_some_iff.1 (getElem?_slab h hi hdata)).2
      rw [slab_set h hi, hsame, ← hget, List.set_getElem_self hlt']
    · exact slab_set_of_ne h hp page' hk

/-- `node_slot_used` and `edge_slot_used` read the slab. -/
theorem run_slotUsed (h : Layout m D) (kind : TopologyKind) (rid : RecordId) :
    ∃ b, (slotUsed kind rid).run m = (.ok b, m) ∧
      (b = true ↔ (slab m D kind).Used (rid.pageId.toNat, rid.slotId.toNat)) := by
  unfold slotUsed
  rw [Prog.run_bind, Prog.run_getHeader, Prog.andThen_ok]
  dsimp only
  by_cases hout : rid.pageId.toNat ≥ pageCount m.header kind
  · rw [if_pos hout]
    refine ⟨false, rfl, ?_⟩
    rw [pageCount_eq h] at hout
    simp [Slab.Used, List.getElem?_eq_none hout]
  rw [if_neg hout]
  have hlt : rid.pageId.toNat < (D (.topology kind)).phys.length := by
    rw [pageCount_eq h, length_slab] at hout
    exact Nat.lt_of_not_le hout
  have hi : (D (.topology kind)).phys[rid.pageId.toNat]? = some (D (.topology kind)).phys[rid.pageId.toNat] :=
    List.getElem?_eq_getElem hlt
  generalize (D (.topology kind)).phys[rid.pageId.toNat] = p at hi
  obtain ⟨page, hdata⟩ := Option.isSome_iff_exists.1 (h.mapped _ p (List.mem_of_getElem? hi))
  have hread : (readTopologyPage kind rid.pageId.toNat).run m = (.ok page, m) := by
    unfold readTopologyPage
    rw [h.run_readLogicalPage, h.getElem?_contents hi, hdata]
  rw [Prog.run_bind, Prog.run_attempt, hread]
  refine ⟨_, rfl, ?_⟩
  rw [isUsed_iff]
  simp [Slab.Used, getElem?_slab h hi hdata]

/-- **So is an allocation with the record that is written to the slot.** -/
theorem run_allocRecord (h : Layout m D) (kind : TopologyKind) {record : RecordId → List UInt8}
    (hlen : ∀ rid, (record rid).length = recordSize kind) :
    (UInt32.size ≤ m.count.toNat + 2 ∧ ((allocRecord kind record).run m).1 = .panic) ∨
    ∃ rid m' D', (allocRecord kind record).run m = (.ok rid, m') ∧ m'.count.toNat ≤ m.count.toNat + 2 ∧
      Moves m D m' D' kind (.alloc rid.pageId.toNat rid.slotId.toNat) := by
  unfold allocRecord
  rw [Prog.run_bind]
  rcases run_allocTopologySlot h kind with ⟨hfull, hpanic⟩ | ⟨i, slot, m₁, D₁, hrun, hcount, hmoves⟩
  · refine .inl ⟨hfull, ?_⟩
    cases hr : (allocTopologySlot kind).run m with
    | mk r m₁ =>
      rw [hr] at hpanic
      cases hpanic
      rfl
  · rw [hrun, Prog.andThen_ok]
    dsimp only
    obtain ⟨hpage, hslot⟩ := hmoves.step.bounds
    have hpid : (UInt32.ofNat i).toNat = i := by
      rw [← pageCount_eq hmoves.layout] at hpage
      exact UInt32.toNat_ofNat_of_lt' (Nat.lt_trans hpage (UInt32.toNat_lt _))
    rw [Prog.run_bind]
    rcases run_writeRecord hmoves.layout kind ⟨UInt32.ofNat i, slot⟩ (record ⟨UInt32.ofNat i, slot⟩) with
      ⟨e, -, hout | hout | hout⟩ | ⟨m₂, hwrite, hcount₂, hl, hsame⟩
    · rw [pageCount_eq hmoves.layout, hpid] at hout
      exact absurd hpage (Nat.not_lt.2 hout)
    · exact absurd (hlen _) hout
    · exact absurd hslot (Nat.not_lt.2 hout)
    · rw [hwrite, Prog.andThen_ok]
      refine .inr ⟨_, m₂, D₁, rfl, by rw [hcount₂]; exact hcount, hl, ?_, fun k hk => ?_⟩
      · rw [hsame]
        show Slab.Step _ _ (.alloc (UInt32.ofNat i).toNat slot.toNat) _
        rw [hpid]
        exact hmoves.step
      · rw [hsame]
        exact hmoves.others k hk

end Steps

end Topology

end ChiffonDB
