import Mathlib.Data.List.Perm.Subperm
import ChiffonDB.Storage.PageDirectory

/-!
# Logical pages

The three page directories of a database file (`storage/file.rs`): property pages and the node and
edge topology pages, each addressed by a logical number, interleaved on the append tail.

* `Layout` — the header's directories on the pages of the file: no physical page serves twice.
* `Layout.run_readLogicalPage`, `Layout.run_writeLogicalPage` — reading and overwriting a mapped page.
* `Layout.run_mapPage` — **mapping a page appends it to its directory and leaves the mapped pages
  of every directory as they are**.
-/

set_option autoImplicit false

namespace ChiffonDB

open Bytes

inductive TopologyKind where
  | node
  | edge
  deriving DecidableEq

/-- The directories of a file. -/
inductive DirKind where
  | property
  | topology (kind : TopologyKind)
  deriving DecidableEq

/-- The header's root of a directory. -/
def FileHeader.dirRoot (h : FileHeader) : DirKind → UInt32
  | .property => h.propertyDirRoot
  | .topology .node => h.nodeDirRoot
  | .topology .edge => h.edgeDirRoot

/-- The header's number of pages mapped in a directory. -/
def FileHeader.dirLen (h : FileHeader) : DirKind → UInt32
  | .property => h.propertyDirLen
  | .topology .node => h.nodePageCount
  | .topology .edge => h.edgePageCount

def FileHeader.withDir (h : FileHeader) (kind : DirKind) (root len : UInt32) : FileHeader :=
  match kind with
  | .property => { h with propertyDirRoot := root, propertyDirLen := len }
  | .topology .node => { h with nodeDirRoot := root, nodePageCount := len }
  | .topology .edge => { h with edgeDirRoot := root, edgePageCount := len }

/-- The directory of a kind, from the header. -/
def pageDir (h : FileHeader) (kind : DirKind) : PageDirectory :=
  if h.dirRoot kind = NO_DIR_ROOT then .new else .withRoot (h.dirRoot kind) (h.dirLen kind).toNat

/-- Persist a directory's root and length in the header. -/
def storeDir (kind : DirKind) (dir : PageDirectory) : Prog Unit := do
  let h ← Prog.getHeader
  Prog.putHeader (h.withDir kind dir.root (UInt32.ofNat dir.len))

def resolvePage (kind : DirKind) (logical : Nat) : Prog UInt32 := do
  let h ← Prog.getHeader
  match ← (pageDir h kind).resolve logical with
  | none => .throw (.storageCorrupted (UInt32.ofNat logical))
  | some physical => pure physical

/-- Append a page and map it. -/
def mapPage (kind : DirKind) (data : PageData) : Prog Nat := do
  let physical ← Prog.append data
  let h ← Prog.getHeader
  let (logical, dir) ← (pageDir h kind).push physical
  storeDir kind dir
  pure logical

def readLogicalPage (kind : DirKind) (logical : Nat) : Prog PageData := do
  let physical ← resolvePage kind logical
  Prog.read physical

def writeLogicalPage (kind : DirKind) (logical : Nat) (data : PageData) : Prog Unit := do
  let physical ← resolvePage kind logical
  Prog.write physical data

def readPropertyPage (logical : Nat) : Prog PageData := readLogicalPage .property logical

def writePropertyPage (logical : Nat) (data : PageData) : Prog Unit :=
  writeLogicalPage .property logical data

def allocTopologyPage (kind : TopologyKind) (data : PageData) : Prog Nat := mapPage (.topology kind) data

def readTopologyPage (kind : TopologyKind) (logical : Nat) : Prog PageData :=
  readLogicalPage (.topology kind) logical

def writeTopologyPage (kind : TopologyKind) (logical : Nat) (data : PageData) : Prog Unit :=
  writeLogicalPage (.topology kind) logical data

theorem dirRoot_withDir (h : FileHeader) (k k' : DirKind) (root len : UInt32) :
    (h.withDir k root len).dirRoot k' = if k' = k then root else h.dirRoot k' := by
  rcases k with _ | _ | _ <;> rcases k' with _ | _ | _ <;> rfl

theorem dirLen_withDir (h : FileHeader) (k k' : DirKind) (root len : UInt32) :
    (h.withDir k root len).dirLen k' = if k' = k then len else h.dirLen k' := by
  rcases k with _ | _ | _ <;> rcases k' with _ | _ | _ <;> rfl

/-! ## The layout of a file -/

/-- The pages of a directory: those of its chain and those it maps. -/
structure DirPages where
  dirs : List UInt32
  phys : List UInt32

def DirPages.all (d : DirPages) : List UInt32 := d.dirs ++ d.phys

/-- The header's directories, on pages that serve one purpose each. -/
structure Layout (m : PageMap) (D : DirKind → DirPages) : Prop where
  dir : ∀ k, DirAt m (m.header.dirRoot k) (D k).dirs (D k).phys
  len : ∀ k, (m.header.dirLen k).toNat = (D k).phys.length
  mapped : ∀ k, ∀ p ∈ (D k).phys, (m.pages p).isSome
  bound : ∀ k, ∀ p ∈ (D k).all, p ≠ 0 ∧ p < m.count
  nodup : ∀ k, (D k).all.Nodup
  owner : ∀ {k k' p}, p ∈ (D k).all → p ∈ (D k').all → k = k'
  page0 : (m.pages 0).isSome
  nonempty : 0 < m.count

/-- The contents of mapped pages. -/
def contents (m : PageMap) (phys : List UInt32) : List PageData :=
  phys.map fun p => (m.pages p).getD PageData.zero

theorem length_le_of_nodup {l : List UInt32} {n : UInt32} (hn : l.Nodup) (hl : ∀ p ∈ l, p < n) :
    l.length ≤ n.toNat := by
  have hmap : (l.map UInt32.toNat).Nodup := hn.map fun a b h => UInt32.toNat_inj.1 h
  have hsub : l.map UInt32.toNat ⊆ List.range n.toNat := by
    intro a ha
    obtain ⟨p, hp, rfl⟩ := List.mem_map.1 ha
    exact List.mem_range.2 (UInt32.lt_iff_toNat_lt.1 (hl p hp))
  have := (List.Nodup.subperm hmap hsub).length_le
  simpa using this

namespace Layout

variable {m m' : PageMap} {D : DirKind → DirPages}

/-- The directories of a new file are empty. -/
theorem new (hc : m.count = 1) (hh : m.header = FileHeader.new) (h0 : (m.pages 0).isSome) :
    Layout m fun _ => ⟨[], []⟩ := by
  refine ⟨?_, ?_, ?_, ?_, ?_, ?_, h0, ?_⟩
  · intro k
    have hroot : m.header.dirRoot k = UNMAPPED := by
      rw [hh]
      rcases k with _ | _ | _ <;> rfl
    rw [hroot]
    exact DirAt.new m
  · intro k
    rw [hh]
    rcases k with _ | _ | _ <;> rfl
  · simp
  · simp [DirPages.all]
  · simp [DirPages.all]
  · simp [DirPages.all]
  · rw [hc]
    decide

theorem mem_phys {k : DirKind} {p : UInt32} (h : p ∈ (D k).phys) : p ∈ (D k).all :=
  List.mem_append_right _ h

theorem mem_dirs {k : DirKind} {p : UInt32} (h : p ∈ (D k).dirs) : p ∈ (D k).all :=
  List.mem_append_left _ h

theorem not_dirs (h : Layout m D) {k k' : DirKind} {p : UInt32} (hp : p ∈ (D k).phys) :
    p ∉ (D k').dirs := by
  intro hd
  obtain rfl := h.owner (mem_phys hp) (mem_dirs hd)
  exact (List.nodup_append.1 (h.nodup k)).2.2 p hd p hp rfl

theorem length_lt (h : Layout m D) (k : DirKind) : (D k).phys.length ≤ m.count.toNat :=
  length_le_of_nodup (List.nodup_append.1 (h.nodup k)).2.1 fun p hp => (h.bound k p (mem_phys hp)).2

/-- The directory the header describes. -/
theorem pageDir_eq (h : Layout m D) (k : DirKind) :
    pageDir m.header k = ⟨m.header.dirRoot k, (D k).phys.length⟩ := by
  have hd := h.dir k
  unfold pageDir
  split
  · rename_i hroot
    have hdirs : (D k).dirs = [] := by
      by_contra hne
      exact (hd.head (List.length_pos_iff.2 hne)).2 hroot
    have hcover := hd.cover
    rw [hdirs, List.length_nil, Nat.zero_mul] at hcover
    rw [hroot, Nat.le_zero.1 hcover]
    rfl
  · rw [h.len k]
    rfl

theorem run_resolvePage (h : Layout m D) (k : DirKind) (logical : Nat) :
    (resolvePage k logical).run m = match (D k).phys[logical]? with
      | none => (.err (.storageCorrupted (UInt32.ofNat logical)), m)
      | some p => (.ok p, m) := by
  unfold resolvePage
  rw [Prog.run_bind, Prog.run_getHeader, Prog.andThen_ok, Prog.run_bind, h.pageDir_eq,
    (h.dir k).run_resolve, Prog.andThen_ok]
  cases (D k).phys[logical]? <;> rfl

theorem getElem?_contents (h : Layout m D) {k : DirKind} {i : Nat} {p : UInt32}
    (hi : (D k).phys[i]? = some p) : (contents m (D k).phys)[i]? = m.pages p := by
  unfold contents
  rw [List.getElem?_map, hi, Option.map_some]
  obtain ⟨d, hd⟩ := Option.isSome_iff_exists.1 (h.mapped k p (List.mem_of_getElem? hi))
  rw [hd, Option.getD_some]

theorem run_readLogicalPage (h : Layout m D) (k : DirKind) (logical : Nat) :
    (readLogicalPage k logical).run m = match (contents m (D k).phys)[logical]? with
      | none => (.err (.storageCorrupted (UInt32.ofNat logical)), m)
      | some d => (.ok d, m) := by
  unfold readLogicalPage
  rw [Prog.run_bind, h.run_resolvePage]
  cases hi : (D k).phys[logical]? with
  | none =>
    have : (contents m (D k).phys)[logical]? = none := by
      unfold contents
      rw [List.getElem?_map, hi]
      rfl
    rw [this]
    rfl
  | some p =>
    obtain ⟨d, hd⟩ := Option.isSome_iff_exists.1 (h.mapped k p (List.mem_of_getElem? hi))
    rw [h.getElem?_contents hi, hd]
    exact Prog.run_read hd

/-- Overwriting a mapped page. -/
theorem set_phys (h : Layout m D) {k : DirKind} {p : UInt32} (hp : p ∈ (D k).phys) (d : PageData) :
    Layout (m.set p d) D where
  dir k' := (h.dir k').congr fun q hq => m.set_pages_of_ne (by
    rintro rfl
    exact h.not_dirs hp hq) d
  len := h.len
  mapped k' q hq := by
    by_cases hqp : q = p
    · rw [hqp, m.set_pages_self]
      rfl
    · rw [m.set_pages_of_ne hqp]
      exact h.mapped k' q hq
  bound := h.bound
  nodup := h.nodup
  owner := h.owner
  page0 := by
    rw [m.set_pages_of_ne (Ne.symm (h.bound k p (mem_phys hp)).1)]
    exact h.page0
  nonempty := h.nonempty

theorem contents_set (h : Layout m D) {k : DirKind} {i : Nat} {p : UInt32}
    (hi : (D k).phys[i]? = some p) (d : PageData) :
    contents (m.set p d) (D k).phys = (contents m (D k).phys).set i d := by
  have hnd := (List.nodup_append.1 (h.nodup k)).2.1
  obtain ⟨hlt, hpi⟩ := List.getElem?_eq_some_iff.1 hi
  apply List.ext_getElem?
  intro j
  unfold contents
  rw [List.getElem?_map, List.getElem?_set, List.length_map, List.getElem?_map]
  by_cases hij : i = j
  · subst hij
    rw [if_pos rfl, if_pos hlt, hi, Option.map_some, m.set_pages_self]
    rfl
  · rw [if_neg hij]
    cases hj : (D k).phys[j]? with
    | none => rfl
    | some q =>
      have hqp : q ≠ p := by
        rintro rfl
        obtain ⟨hlt', hqj⟩ := List.getElem?_eq_some_iff.1 hj
        exact hij (hnd.getElem_inj_iff.1 (hpi.trans hqj.symm))
      rw [Option.map_some, Option.map_some, m.set_pages_of_ne hqp]

theorem run_writeLogicalPage (h : Layout m D) (k : DirKind) (logical : Nat) (d : PageData) :
    (writeLogicalPage k logical d).run m = match (D k).phys[logical]? with
      | none => (.err (.storageCorrupted (UInt32.ofNat logical)), m)
      | some p => (.ok (), m.set p d) := by
  unfold writeLogicalPage
  rw [Prog.run_bind, h.run_resolvePage]
  cases hi : (D k).phys[logical]? with
  | none => rfl
  | some p => exact Prog.run_write (h.mapped k p (List.mem_of_getElem? hi))

/-- Writing the header page, with directories as they are. -/
theorem set_header (h : Layout m D) {hd : FileHeader} (hr : hd.dirRoot = m.header.dirRoot)
    (hl : hd.dirLen = m.header.dirLen) :
    Layout { m.set 0 hd.serialize with header := hd } D where
  dir k := by
    show DirAt _ (hd.dirRoot k) _ _
    rw [hr]
    exact (h.dir k).congr fun q hq => m.set_pages_of_ne (h.bound k q (mem_dirs hq)).1 _
  len k := by
    show (hd.dirLen k).toNat = _
    rw [hl]
    exact h.len k
  mapped k q hq := by
    show ((m.set 0 hd.serialize).pages q).isSome
    rw [m.set_pages_of_ne (h.bound k q (mem_phys hq)).1]
    exact h.mapped k q hq
  bound := h.bound
  nodup := h.nodup
  owner := h.owner
  page0 := by
    show ((m.set 0 hd.serialize).pages 0).isSome
    rw [m.set_pages_self]
    rfl
  nonempty := h.nonempty

theorem contents_congr {k : DirKind} (hp : ∀ p ∈ (D k).phys, m'.pages p = m.pages p) :
    contents m' (D k).phys = contents m (D k).phys := by
  apply List.map_congr_left
  intro p hmem
  rw [hp p hmem]

/-- A page appended outside the directories. -/
theorem append (h : Layout m D) (hc : m.count.toNat + 1 < UInt32.size) (d : PageData) :
    Layout { m.set m.count d with count := m.count + 1 } D := by
  have hsucc : (m.count + 1).toNat = m.count.toNat + 1 := by
    rw [UInt32.toNat_add]; exact Nat.mod_eq_of_lt hc
  have hne : ∀ {k p}, p ∈ (D k).all → p ≠ m.count := by
    rintro k p hp rfl
    exact absurd (h.bound k _ hp).2 (UInt32.lt_irrefl _)
  refine ⟨?_, h.len, ?_, ?_, h.nodup, h.owner, ?_, ?_⟩
  · intro k
    exact (h.dir k).congr fun q hq => m.set_pages_of_ne (hne (mem_dirs hq)) d
  · intro k q hq
    show ((m.set m.count d).pages q).isSome
    rw [m.set_pages_of_ne (hne (mem_phys hq))]
    exact h.mapped k q hq
  · intro k p hp
    obtain ⟨h0, hlt⟩ := h.bound k p hp
    refine ⟨h0, ?_⟩
    show p < m.count + 1
    rw [UInt32.lt_iff_toNat_lt] at *
    omega
  · show ((m.set m.count d).pages 0).isSome
    have h0 : (0 : UInt32) ≠ m.count := by
      intro h0
      have := h.nonempty
      rw [← h0] at this
      exact absurd this (UInt32.lt_irrefl 0)
    rw [m.set_pages_of_ne h0]
    exact h.page0
  · show 0 < m.count + 1
    rw [UInt32.lt_iff_toNat_lt, hsucc]
    exact Nat.succ_pos _

/-- What mapping page `c` in the directory `k` changes. -/
structure Mapped (m m' : PageMap) (D D' : DirKind → DirPages) (k : DirKind) (c : UInt32) : Prop where
  layout : Layout m' D'
  phys : (D' k).phys = (D k).phys ++ [c]
  others : ∀ k', k' ≠ k → D' k' = D k'
  old : ∀ p, p = c ∨ (∃ k', p ∈ (D k').phys) → m'.pages p = m.pages p
  header : ∃ root len, m'.header = m.header.withDir k root len
  count : m'.count.toNat ≤ m.count.toNat + 1
  durable : m'.durable = m.durable

/-- Storing the directory behind a push. -/
theorem stored (h : Layout m D) {k : DirKind} {c : UInt32} (hc0 : c ≠ 0) (hc : c < m.count)
    (hfresh : ∀ k', c ∉ (D k').all) (hsome : (m.pages c).isSome) {m₂ : PageMap} {root : UInt32}
    {dirs : List UInt32} (hdir : DirAt m₂ root dirs ((D k).phys ++ [c]))
    (hpush : Pushed m m₂ (D k).dirs dirs) {hd : FileHeader}
    (hhd : hd = m.header.withDir k root (UInt32.ofNat ((D k).phys.length + 1))) :
    Mapped m { m₂.set 0 hd.serialize with header := hd } D
      (fun k' => if k' = k then ⟨dirs, (D k).phys ++ [c]⟩ else D k') k c := by
  have hmem : ∀ p ∈ dirs, p ∈ (D k).dirs ∨ p = m.count := by
    intro p hp
    rcases hpush.grown with ⟨he, -⟩ | ⟨he, -⟩
    · exact .inl (he ▸ hp)
    · rwa [he, List.mem_append, List.mem_singleton] at hp
  have hcount : m.count.toNat ≤ m₂.count.toNat := by
    rcases hpush.grown with ⟨-, he⟩ | ⟨-, hlt, he⟩
    · rw [he]
    · rw [he, UInt32.toNat_add]
      show _ ≤ (m.count.toNat + 1) % UInt32.size
      rw [Nat.mod_eq_of_lt hlt]
      omega
  have hcount' : m₂.count.toNat ≤ m.count.toNat + 1 := by
    rcases hpush.grown with ⟨-, he⟩ | ⟨-, -, he⟩
    · rw [he]
      exact Nat.le_succ _
    · rw [he, UInt32.toNat_add]
      exact Nat.mod_le _ _
  have hdirs : ∀ p ∈ dirs, p ≠ 0 ∧ p < m₂.count := by
    intro p hp
    rcases hmem p hp with hp' | rfl
    · obtain ⟨h0, hlt⟩ := h.bound k p (mem_dirs hp')
      rw [UInt32.lt_iff_toNat_lt] at hlt ⊢
      exact ⟨h0, by omega⟩
    · refine ⟨fun h0 => ?_, ?_⟩
      · have := h.nonempty
        rw [h0] at this
        exact absurd this (UInt32.lt_irrefl 0)
      · rcases hpush.grown with ⟨he, -⟩ | ⟨-, hlt, he⟩
        · rw [he] at hp
          exact absurd (h.bound k _ (mem_dirs hp)).2 (UInt32.lt_irrefl _)
        · rw [he, UInt32.lt_iff_toNat_lt, UInt32.toNat_add]
          show _ < (m.count.toNat + 1) % UInt32.size
          rw [Nat.mod_eq_of_lt hlt]
          omega
  have hnot : ∀ {p}, p < m.count → p ∉ (D k).dirs → p ∉ dirs := by
    intro p hlt hp hin
    rcases hmem p hin with hin | rfl
    · exact hp hin
    · exact absurd hlt (UInt32.lt_irrefl _)
  have hcd : c ∉ dirs := hnot hc fun hin => hfresh k (mem_dirs hin)
  have hothers : ∀ {k' p}, p ∈ (D k').all → k' ≠ k → p ∉ dirs := fun hp hne =>
    hnot (h.bound _ _ hp).2 fun hin => hne (h.owner hp (mem_dirs hin))
  have hphys : ∀ {k' p}, p ∈ (D k').phys → p ∉ dirs := fun hp =>
    hnot (h.bound _ _ (mem_phys hp)).2 (h.not_dirs hp)
  have hpages : ∀ {p}, p ≠ 0 → p ∉ dirs →
      ({ m₂.set 0 hd.serialize with header := hd } : PageMap).pages p = m.pages p := by
    intro p h0 hp
    show (m₂.set 0 hd.serialize).pages p = _
    rw [m₂.set_pages_of_ne h0, hpush.pages p hp]
  have hold : ∀ p, p = c ∨ (∃ k', p ∈ (D k').phys) →
      ({ m₂.set 0 hd.serialize with header := hd } : PageMap).pages p = m.pages p := by
    rintro p (rfl | ⟨k', hp⟩)
    · exact hpages hc0 hcd
    · exact hpages (h.bound k' p (mem_phys hp)).1 (hphys hp)
  have hlen := h.length_lt k
  have hall : ∀ k' p, p ∈ (if k' = k then (⟨dirs, (D k).phys ++ [c]⟩ : DirPages) else D k').all →
      (k' = k ∧ p ∈ dirs) ∨ (k' = k ∧ p = c) ∨ p ∈ (D k').all ∧ p ∉ dirs := by
    intro k' p hp
    by_cases hk : k' = k
    · subst hk
      rw [if_pos rfl] at hp
      simp only [DirPages.all, List.mem_append, List.mem_singleton] at hp
      rcases hp with hp | hp | hp
      · exact .inl ⟨rfl, hp⟩
      · exact .inr (.inr ⟨mem_phys hp, hphys hp⟩)
      · exact .inr (.inl ⟨rfl, hp⟩)
    · rw [if_neg hk] at hp
      exact .inr (.inr ⟨hp, hothers hp hk⟩)
  refine ⟨⟨?_, ?_, ?_, ?_, ?_, ?_, ?_, ?_⟩, by rw [if_pos rfl], fun k' hk => if_neg hk, hold,
    ⟨_, _, hhd⟩, hcount', hpush.durable⟩
  · intro k'
    show DirAt _ (hd.dirRoot k') _ _
    rw [hhd, dirRoot_withDir]
    by_cases hk : k' = k
    · subst hk
      rw [if_pos rfl, if_pos rfl]
      exact hdir.congr fun q hq => m₂.set_pages_of_ne (hdirs q hq).1 _
    · rw [if_neg hk, if_neg hk]
      refine (h.dir k').congr fun q hq => ?_
      rw [← hhd]
      exact hpages (h.bound k' q (mem_dirs hq)).1 (hothers (mem_dirs hq) hk)
  · intro k'
    show (hd.dirLen k').toNat = _
    rw [hhd, dirLen_withDir]
    by_cases hk : k' = k
    · subst hk
      have := m.count.toNat_lt
      have hlt := UInt32.lt_iff_toNat_lt.1 hc
      have hsub : (D k').phys.length < m.count.toNat := by
        -- `c` is not among the mapped pages
        have hnd : ((D k').phys ++ [c]).Nodup := List.nodup_append.2
          ⟨(List.nodup_append.1 (h.nodup k')).2.1, by simp, by
            rintro a ha b hb rfl
            rw [List.mem_singleton] at hb
            exact hfresh k' (mem_phys (hb ▸ ha))⟩
        have := length_le_of_nodup (n := m.count) hnd (by
          intro p hp
          rw [List.mem_append, List.mem_singleton] at hp
          rcases hp with hp | rfl
          · exact (h.bound k' p (mem_phys hp)).2
          · exact hc)
        rw [List.length_append, List.length_singleton] at this
        omega
      rw [if_pos rfl, if_pos rfl, UInt32.toNat_ofNat', List.length_append, List.length_singleton]
      exact Nat.mod_eq_of_lt (by omega)
    · rw [if_neg hk, if_neg hk]
      exact h.len k'
  · intro k' p hp
    have hp' : p = c ∨ ∃ k'', p ∈ (D k'').phys := by
      by_cases hk : k' = k
      · subst hk
        rw [if_pos rfl, List.mem_append, List.mem_singleton] at hp
        exact hp.symm.imp id fun hp => ⟨k', hp⟩
      · rw [if_neg hk] at hp
        exact .inr ⟨k', hp⟩
    rw [hold p hp']
    rcases hp' with rfl | ⟨k'', hp'⟩
    · exact hsome
    · exact h.mapped k'' p hp'
  · intro k' p hp
    show p ≠ 0 ∧ p < m₂.count
    rcases hall k' p hp with ⟨-, hp⟩ | ⟨-, rfl⟩ | ⟨hp, -⟩
    · exact hdirs p hp
    · rw [UInt32.lt_iff_toNat_lt] at hc ⊢
      exact ⟨hc0, by omega⟩
    · obtain ⟨h0, hlt⟩ := h.bound k' p hp
      rw [UInt32.lt_iff_toNat_lt] at hlt ⊢
      exact ⟨h0, by omega⟩
  · intro k'
    by_cases hk : k' = k
    · subst hk
      rw [if_pos rfl]
      refine List.nodup_append.2 ⟨hdir.nodup, List.nodup_append.2
        ⟨(List.nodup_append.1 (h.nodup k')).2.1, by simp, ?_⟩, ?_⟩
      · rintro a ha b hb rfl
        rw [List.mem_singleton] at hb
        exact hfresh k' (mem_phys (hb ▸ ha))
      · rintro a ha b hb rfl
        rw [List.mem_append, List.mem_singleton] at hb
        rcases hb with hb | rfl
        · exact hphys hb ha
        · exact hcd ha
    · rw [if_neg hk]
      exact h.nodup k'
  · intro k₁ k₂ p h₁ h₂
    rcases hall k₁ p h₁ with ⟨rfl, hp₁⟩ | ⟨rfl, rfl⟩ | ⟨hp₁, hn₁⟩
    · rcases hall k₂ p h₂ with ⟨rfl, -⟩ | ⟨rfl, -⟩ | ⟨-, hn₂⟩
      · rfl
      · rfl
      · exact absurd hp₁ hn₂
    · rcases hall k₂ p h₂ with ⟨rfl, -⟩ | ⟨rfl, -⟩ | ⟨hp₂, -⟩
      · rfl
      · rfl
      · exact absurd hp₂ (hfresh k₂)
    · rcases hall k₂ p h₂ with ⟨-, hp₂⟩ | ⟨-, rfl⟩ | ⟨hp₂, -⟩
      · exact absurd hp₂ hn₁
      · exact absurd hp₁ (hfresh k₁)
      · exact h.owner hp₁ hp₂
  · show ((m₂.set 0 hd.serialize).pages 0).isSome
    rw [m₂.set_pages_self]
    rfl
  · show 0 < m₂.count
    have := UInt32.lt_iff_toNat_lt.1 h.nonempty
    rw [UInt32.lt_iff_toNat_lt]
    exact Nat.lt_of_lt_of_le this hcount

/-- **Mapping a page appends it to its directory** (or panics when the file is full). -/
theorem run_mapPage (h : Layout m D) (k : DirKind) (data : PageData) :
    (UInt32.size ≤ m.count.toNat + 2 ∧ ((mapPage k data).run m).1 = .panic) ∨
    ∃ m' D', (mapPage k data).run m = (.ok (D k).phys.length, m') ∧
      Mapped { m.set m.count data with count := m.count + 1 } m' D D' k m.count := by
  unfold mapPage
  rw [Prog.run_bind]
  by_cases hc : m.count.toNat + 1 < UInt32.size
  · have h₁ := h.append hc data
    have hsucc : (m.count + 1).toNat = m.count.toNat + 1 := by
      rw [UInt32.toNat_add]; exact Nat.mod_eq_of_lt hc
    have hne : m.count ≠ UNMAPPED := by
      intro he
      rw [he] at hc
      exact absurd hc (by decide)
    rw [Prog.run_append hc, Prog.andThen_ok, Prog.run_bind, Prog.run_getHeader, Prog.andThen_ok,
      h₁.pageDir_eq, Prog.run_bind]
    rcases (h₁.dir k).run_push (fun p hp => (h₁.bound k p (mem_dirs hp)).2) hne with
      ⟨hfull, hp⟩ | ⟨m₂, root, dirs, hrun, hdir, hpush⟩
    · refine .inl ⟨?_, ?_⟩
      · dsimp only at hfull
        rwa [hsucc] at hfull
      cases hr : (PageDirectory.push ⟨_, (D k).phys.length⟩ m.count).run
          { m.set m.count data with count := m.count + 1 } with
      | mk r m₂ =>
        rw [hr] at hp
        cases hp
        rfl
    · have hc0 : m.count ≠ 0 := by
        intro h0
        have := h.nonempty
        rw [h0] at this
        exact absurd this (UInt32.lt_irrefl 0)
      have hfresh : ∀ k', m.count ∉ (D k').all := fun k' hin =>
        absurd (h.bound k' _ hin).2 (UInt32.lt_irrefl _)
      have hlt : m.count < m.count + 1 := by
        rw [UInt32.lt_iff_toNat_lt, hsucc]
        exact Nat.lt_succ_self _
      have hsome : ((m.set m.count data).pages m.count).isSome := by
        rw [m.set_pages_self]
        rfl
      have hstored := h₁.stored hc0 hlt hfresh hsome hdir hpush rfl
      have hpage0 : (m₂.pages 0).isSome := by
        rw [hpush.pages 0 (fun hin => ?_)]
        · exact h₁.page0
        · rcases hpush.grown with ⟨he, -⟩ | ⟨he, -⟩
          · exact (h₁.bound k 0 (mem_dirs (he ▸ hin))).1 rfl
          · rw [he, List.mem_append, List.mem_singleton] at hin
            rcases hin with hin | hin
            · exact (h₁.bound k 0 (mem_dirs hin)).1 rfl
            · have hz := h₁.nonempty
              rw [← hin] at hz
              exact absurd hz (UInt32.lt_irrefl 0)
      rw [hrun, Prog.andThen_ok]
      dsimp only
      rw [Prog.run_bind, storeDir, Prog.run_bind, Prog.run_getHeader, Prog.andThen_ok,
        Prog.run_putHeader hpage0, Prog.andThen_ok, hpush.header]
      exact .inr ⟨_, _, rfl, hstored⟩
  · refine .inl ⟨by omega, ?_⟩
    have hnone : m.appendPage data = none := if_neg hc
    unfold Prog.append Prog.run
    rw [hnone]
    rfl

end Layout

end ChiffonDB
