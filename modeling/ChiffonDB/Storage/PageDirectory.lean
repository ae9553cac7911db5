import ChiffonDB.Storage.Prog

/-!
# Page directories

`PageDirectory` of `storage/page_directory.rs`: a chain of directory pages that maps the logical
page numbers `0..len` to physical pages.

* `DirAt` — the directory pages `dirs` of a page map hold the mapping `phys`.
* `DirAt.run_resolve` — resolving a logical number gives the page mapped there.
* `DirAt.run_push` — **pushing appends one mapping and touches nothing but directory pages**.
-/

set_option autoImplicit false

namespace ChiffonDB

open Bytes

def UNMAPPED : UInt32 := 0xFFFFFFFF

def LINK_SIZE : Nat := 4

def ENTRIES_PER_DIR_PAGE : Nat := (PAGE_SIZE - LINK_SIZE) / 4

def readLink (page : PageData) : UInt32 := u32At page.bytes 0

def writeLink (page : PageData) (pid : UInt32) : PageData :=
  page.splice 0 (u32Bytes pid) (link_fits pid)

def entryOffset (slot : Nat) : Nat := LINK_SIZE + slot * 4

def readEntry (page : PageData) (slot : Nat) : UInt32 := u32At page.bytes (entryOffset slot)

/-- `write_entry`; its callers take the slot modulo `ENTRIES_PER_DIR_PAGE`. -/
def writeEntry (page : PageData) (slot : Fin ENTRIES_PER_DIR_PAGE) (physical : UInt32) : PageData :=
  page.splice (entryOffset slot) (u32Bytes physical) (by
    have := slot.isLt
    rw [length_u32Bytes]
    unfold entryOffset ENTRIES_PER_DIR_PAGE LINK_SIZE PAGE_SIZE at *
    omega)

/-- The page of `append_blank_dir_page`: the link and every entry are `UNMAPPED`. -/
def blankDirPage : PageData where
  bytes := (List.replicate (1 + ENTRIES_PER_DIR_PAGE) UNMAPPED).flatMap u32Bytes
  size_eq := by
    rw [length_flatMap_u32Bytes, List.length_replicate]
    rfl

def appendBlankDirPage : Prog UInt32 := Prog.append blankDirPage

structure PageDirectory where
  root : UInt32
  len : Nat

namespace PageDirectory

def new : PageDirectory := ⟨UNMAPPED, 0⟩

def withRoot (root : UInt32) (len : Nat) : PageDirectory := ⟨root, len⟩

/-- The loop of `dir_page_pid`, `n` links from `pid`. -/
def walk : Nat → UInt32 → Prog (Option UInt32)
  | 0, pid => pure (some pid)
  | n + 1, pid => do
    let page ← Prog.read pid
    let next := readLink page
    if next = UNMAPPED then pure none else walk n next

def dirPagePid (d : PageDirectory) (dirIndex : Nat) : Prog (Option UInt32) :=
  if d.root = UNMAPPED then pure none else walk dirIndex d.root

def resolve (d : PageDirectory) (logical : Nat) : Prog (Option UInt32) :=
  if logical ≥ d.len then pure none
  else do
    let dirIndex := logical / ENTRIES_PER_DIR_PAGE
    let slot := logical % ENTRIES_PER_DIR_PAGE
    match ← d.dirPagePid dirIndex with
    | none => pure none
    | some dirPid => do
      let page ← Prog.read dirPid
      let physical := readEntry page slot
      pure (if physical = UNMAPPED then none else some physical)

/-- The loop of `ensure_dir_page`: walk `n` links, appending blank pages where the chain ends. -/
def extend : Nat → UInt32 → Prog UInt32
  | 0, pid => pure pid
  | n + 1, pid => do
    let page ← Prog.read pid
    let next := readLink page
    if next ≠ UNMAPPED then extend n next
    else do
      let newPid ← appendBlankDirPage
      Prog.write pid (writeLink page newPid)
      extend n newPid

/-- `ensure_dir_page`: the directory page's number, and the directory's root. -/
def ensureDirPage (d : PageDirectory) (dirIndex : Nat) : Prog (UInt32 × UInt32) := do
  let root ← (if d.root = UNMAPPED then appendBlankDirPage else pure d.root)
  let pid ← extend dirIndex root
  pure (pid, root)

/-- `set`, for a logical number up to `len`. -/
def set (d : PageDirectory) (logical : Nat) (physical : UInt32) : Prog PageDirectory :=
  if logical > d.len then .throw (.storageCorrupted (UInt32.ofNat logical))
  else do
    let dirIndex := logical / ENTRIES_PER_DIR_PAGE
    let slot : Fin ENTRIES_PER_DIR_PAGE :=
      ⟨logical % ENTRIES_PER_DIR_PAGE, Nat.mod_lt _ (by decide)⟩
    let (dirPid, root) ← d.ensureDirPage dirIndex
    let page ← Prog.read dirPid
    Prog.write dirPid (writeEntry page slot physical)
    pure { d with root := root }

/-- `push`: the new logical number and the directory with it. -/
def push (d : PageDirectory) (physical : UInt32) : Prog (Nat × PageDirectory) :=
  if physical = UNMAPPED then .throw (.storageCorrupted physical)
  else do
    let logical := d.len
    let d ← d.set logical physical
    pure (logical, { d with len := logical + 1 })

end PageDirectory

/-! ## Links and entries -/

theorem readLink_writeLink (page : PageData) (pid : UInt32) : readLink (writeLink page pid) = pid :=
  u32At_splice_self pid (by rw [page.size_eq]; decide)

theorem readEntry_writeLink (page : PageData) (pid : UInt32) (slot : Nat) :
    readEntry (writeLink page pid) slot = readEntry page slot := by
  apply u32At_splice_of_disjoint
  · rw [length_u32Bytes, page.size_eq]; decide
  · rw [length_u32Bytes]
    unfold entryOffset LINK_SIZE
    omega

theorem readLink_writeEntry (page : PageData) (slot : Fin ENTRIES_PER_DIR_PAGE) (v : UInt32) :
    readLink (writeEntry page slot v) = readLink page := by
  have := slot.isLt
  apply u32At_splice_of_disjoint
  · rw [length_u32Bytes, page.size_eq]
    unfold entryOffset ENTRIES_PER_DIR_PAGE LINK_SIZE PAGE_SIZE at *
    omega
  · unfold entryOffset LINK_SIZE
    omega

theorem readEntry_writeEntry (page : PageData) (slot : Fin ENTRIES_PER_DIR_PAGE) (v : UInt32)
    (j : Nat) : readEntry (writeEntry page slot v) j = if j = slot then v else readEntry page j := by
  have hs := slot.isLt
  have hfit : entryOffset slot + 4 ≤ page.bytes.length := by
    rw [page.size_eq]
    unfold entryOffset ENTRIES_PER_DIR_PAGE LINK_SIZE PAGE_SIZE at *
    omega
  split
  · rename_i hj
    rw [hj]
    exact u32At_splice_self v hfit
  · rename_i hj
    apply u32At_splice_of_disjoint
    · rwa [length_u32Bytes]
    · rw [length_u32Bytes]
      unfold entryOffset
      omega

theorem u32At_blankDirPage {i : Nat} (hi : i < 1 + ENTRIES_PER_DIR_PAGE) :
    u32At blankDirPage.bytes (4 * i) = UNMAPPED := by
  apply u32At_of_slice
  apply slice_flatMap_u32Bytes
  rw [List.getElem?_replicate, if_pos hi]

theorem readLink_blankDirPage : readLink blankDirPage = UNMAPPED :=
  u32At_blankDirPage (i := 0) (by decide)

/-! ## A directory on its pages -/

/-- The directory pages `dirs`, chained from `root`, map the logical numbers to `phys`. -/
structure DirChain (m : PageMap) (root : UInt32) (dirs phys : List UInt32) : Prop where
  root_eq : root = dirs.headD UNMAPPED
  nodup : dirs.Nodup
  cover : phys.length ≤ dirs.length * ENTRIES_PER_DIR_PAGE
  ne_unmapped : ∀ p ∈ dirs ++ phys, p ≠ UNMAPPED
  page : ∀ {i p}, dirs[i]? = some p → ∃ d, m.pages p = some d ∧
    readLink d = dirs[i + 1]?.getD UNMAPPED ∧
    ∀ {j q}, j < ENTRIES_PER_DIR_PAGE → phys[i * ENTRIES_PER_DIR_PAGE + j]? = some q →
      readEntry d j = q

/-- … without a directory page too many. -/
structure DirAt (m : PageMap) (root : UInt32) (dirs phys : List UInt32) : Prop
    extends DirChain m root dirs phys where
  size : dirs.length ≤ (phys.length + (ENTRIES_PER_DIR_PAGE - 1)) / ENTRIES_PER_DIR_PAGE

/-- What a push changes: directory pages, at most one of them new. -/
structure Pushed (m m' : PageMap) (dirs dirs' : List UInt32) : Prop where
  durable : m'.durable = m.durable
  header : m'.header = m.header
  grown : dirs' = dirs ∧ m'.count = m.count ∨
    dirs' = dirs ++ [m.count] ∧ m.count.toNat + 1 < UInt32.size ∧ m'.count = m.count + 1
  pages : ∀ p, p ∉ dirs' → m'.pages p = m.pages p

namespace DirChain

variable {m m' : PageMap} {root : UInt32} {dirs phys : List UInt32}

theorem congr (h : DirChain m root dirs phys) (hp : ∀ p ∈ dirs, m'.pages p = m.pages p) :
    DirChain m' root dirs phys where
  root_eq := h.root_eq
  nodup := h.nodup
  cover := h.cover
  ne_unmapped := h.ne_unmapped
  page hi := by
    rw [hp _ (List.mem_of_getElem? hi)]
    exact h.page hi

theorem next (h : DirChain m root dirs phys) {i : Nat} (hi : i < dirs.length) :
    dirs[i]? = some dirs[i] ∧ dirs[i] ≠ UNMAPPED :=
  ⟨List.getElem?_eq_getElem hi, h.ne_unmapped _ (List.mem_append_left _ (List.getElem_mem hi))⟩

/-- Walking the chain from one of its pages. -/
theorem run_walk (h : DirChain m root dirs phys) {i n : Nat} {p q : UInt32} (hi : dirs[i]? = some p)
    (hq : dirs[i + n]? = some q) : (PageDirectory.walk n p).run m = (.ok (some q), m) := by
  induction n generalizing i p with
  | zero =>
    rw [Nat.add_zero, hi] at hq
    cases hq
    rfl
  | succ n ih =>
    obtain ⟨d, hd, hlink, -⟩ := h.page hi
    have hlt : i + 1 < dirs.length := by
      have := (List.getElem?_eq_some_iff.1 hq).1
      omega
    obtain ⟨hnext, hne⟩ := h.next hlt
    rw [hnext, Option.getD_some] at hlink
    rw [PageDirectory.walk, Prog.run_bind, Prog.run_read hd, Prog.andThen_ok]
    dsimp only
    rw [hlink, if_neg hne]
    exact ih hnext (by rw [Nat.add_assoc, Nat.add_comm 1]; exact hq)

/-- `ensure_dir_page`'s walk inside the chain. -/
theorem run_extend_within (h : DirChain m root dirs phys) {i n : Nat} {p q : UInt32}
    (hi : dirs[i]? = some p) (hq : dirs[i + n]? = some q) :
    (PageDirectory.extend n p).run m = (.ok q, m) := by
  induction n generalizing i p with
  | zero =>
    rw [Nat.add_zero, hi] at hq
    cases hq
    rfl
  | succ n ih =>
    obtain ⟨d, hd, hlink, -⟩ := h.page hi
    have hlt : i + 1 < dirs.length := by
      have := (List.getElem?_eq_some_iff.1 hq).1
      omega
    obtain ⟨hnext, hne⟩ := h.next hlt
    rw [hnext, Option.getD_some] at hlink
    rw [PageDirectory.extend, Prog.run_bind, Prog.run_read hd, Prog.andThen_ok]
    dsimp only
    rw [hlink, if_pos hne]
    exact ih hnext (by rw [Nat.add_assoc, Nat.add_comm 1]; exact hq)

theorem head (h : DirChain m root dirs phys) (hd : 0 < dirs.length) :
    dirs[0]? = some root ∧ root ≠ UNMAPPED := by
  cases dirs with
  | nil => exact absurd hd (Nat.lt_irrefl _)
  | cons p dirs =>
    obtain rfl : root = p := h.root_eq
    exact ⟨rfl, h.ne_unmapped _ (by simp)⟩

/-- The chain with a blank page linked behind its last one. -/
theorem linkBlank (h : DirChain m root dirs phys) (hbelow : ∀ p ∈ dirs, p < m.count)
    (hc : m.count.toNat + 1 < UInt32.size) {i : Nat} {p : UInt32} {d : PageData}
    (hi : dirs[i]? = some p) (hlast : i + 1 = dirs.length) (hd : m.pages p = some d) :
    DirChain (({ m.set m.count blankDirPage with count := m.count + 1 } : PageMap).set p
        (writeLink d m.count)) root (dirs ++ [m.count]) phys ∧
      Pushed m (({ m.set m.count blankDirPage with count := m.count + 1 } : PageMap).set p
        (writeLink d m.count)) dirs (dirs ++ [m.count]) := by
  have hp : p ∈ dirs := List.mem_of_getElem? hi
  have hnew : m.count ∉ dirs := fun hm => absurd (hbelow _ hm) (UInt32.lt_irrefl _)
  have hcount : m.count ≠ UNMAPPED := by
    intro he
    rw [he] at hc
    exact absurd hc (by decide)
  have hpages : ∀ q, (({ m.set m.count blankDirPage with count := m.count + 1 } : PageMap).set p
      (writeLink d m.count)).pages q =
        if q = p then some (writeLink d m.count)
        else if q = m.count then some blankDirPage else m.pages q := by
    intro q
    split
    · rename_i hq
      rw [hq, PageMap.set_pages_self]
    · rename_i hq
      rw [PageMap.set_pages_of_ne _ hq]
      show (m.set m.count blankDirPage).pages q = _
      split
      · rename_i hqc
        rw [hqc, PageMap.set_pages_self]
      · rename_i hqc
        rw [PageMap.set_pages_of_ne _ hqc]
  refine ⟨⟨?_, ?_, ?_, ?_, ?_⟩, ⟨rfl, rfl, .inr ⟨rfl, hc, rfl⟩, ?_⟩⟩
  · cases dirs with
    | nil => cases hp
    | cons q dirs => exact h.root_eq
  · rw [List.nodup_append]
    refine ⟨h.nodup, by simp, ?_⟩
    rintro a ha b hb rfl
    rw [List.mem_singleton] at hb
    exact hnew (hb ▸ ha)
  · rw [List.length_append, Nat.add_mul]
    exact Nat.le_trans h.cover (Nat.le_add_right ..)
  · intro q hq
    simp only [List.mem_append, List.mem_singleton] at hq
    rcases hq with (hq | rfl) | hq
    · exact h.ne_unmapped q (List.mem_append_left _ hq)
    · exact hcount
    · exact h.ne_unmapped q (List.mem_append_right _ hq)
  · intro k q hk
    rw [hpages]
    by_cases hkl : k < dirs.length
    · rw [List.getElem?_append_left hkl] at hk
      by_cases hki : k = i
      · -- the page that was the last one
        subst hki
        rw [hi] at hk
        cases hk
        obtain ⟨d', hd', -, hentry⟩ := h.page hi
        rw [hd] at hd'
        cases hd'
        refine ⟨_, if_pos rfl, ?_, ?_⟩
        · rw [readLink_writeLink, hlast, List.getElem?_append_right (Nat.le_refl _), Nat.sub_self]
          rfl
        · intro j q hj hq
          rw [readEntry_writeLink]
          exact hentry hj hq
      · have hqp : q ≠ p := by
          rintro rfl
          have h1 := (List.getElem?_eq_some_iff.1 hk)
          have h2 := (List.getElem?_eq_some_iff.1 hi)
          exact hki ((h.nodup.getElem_inj_iff).1 (h1.2.trans h2.2.symm))
        have hqc : q ≠ m.count := by
          rintro rfl
          exact hnew (List.mem_of_getElem? hk)
        obtain ⟨d', hd', hlink, hentry⟩ := h.page hk
        refine ⟨d', by rw [if_neg hqp, if_neg hqc, hd'], ?_, hentry⟩
        rw [List.getElem?_append_left (by omega)]
        exact hlink
    · have hkeq : k = dirs.length := by
        have := (List.getElem?_eq_some_iff.1 hk).1
        rw [List.length_append, List.length_singleton] at this
        omega
      subst hkeq
      rw [List.getElem?_append_right (Nat.le_refl _), Nat.sub_self] at hk
      cases hk
      have hcp : m.count ≠ p := fun he => hnew (he ▸ hp)
      refine ⟨blankDirPage, by rw [if_neg hcp, if_pos rfl], ?_, ?_⟩
      · rw [readLink_blankDirPage, List.getElem?_eq_none (by simp)]
        rfl
      · intro j q hj hq
        have := (List.getElem?_eq_some_iff.1 hq).1
        have := h.cover
        omega
  · intro q hq
    rw [List.mem_append, not_or, List.mem_singleton] at hq
    rw [hpages, if_neg (fun he => hq.1 (by rw [he]; exact hp)), if_neg hq.2]

/-- `ensure_dir_page`'s walk one page past the end of the chain. -/
theorem run_extend_past (h : DirChain m root dirs phys) (hbelow : ∀ p ∈ dirs, p < m.count)
    {i n : Nat} {p : UInt32} (hi : dirs[i]? = some p) (hn : i + n = dirs.length) :
    (UInt32.size ≤ m.count.toNat + 1 ∧ ((PageDirectory.extend n p).run m).1 = .panic) ∨
    ∃ m', (PageDirectory.extend n p).run m = (.ok m.count, m') ∧
      DirChain m' root (dirs ++ [m.count]) phys ∧ Pushed m m' dirs (dirs ++ [m.count]) := by
  induction n generalizing i p with
  | zero =>
    have := (List.getElem?_eq_some_iff.1 hi).1
    omega
  | succ n ih =>
    obtain ⟨d, hd, hlink, -⟩ := h.page hi
    rw [PageDirectory.extend, Prog.run_bind, Prog.run_read hd, Prog.andThen_ok]
    dsimp only
    rw [hlink]
    by_cases hlt : i + 1 < dirs.length
    · obtain ⟨hnext, hne⟩ := h.next hlt
      rw [hnext, Option.getD_some, if_pos hne]
      exact ih hnext (by omega)
    · have hlast : i + 1 = dirs.length := by omega
      obtain rfl : n = 0 := by omega
      rw [List.getElem?_eq_none (by omega), Option.getD_none, if_neg (not_not.2 rfl), Prog.run_bind]
      by_cases hc : m.count.toNat + 1 < UInt32.size
      · obtain ⟨hchain, hpushed⟩ := h.linkBlank hbelow hc hi hlast hd
        rw [appendBlankDirPage, Prog.run_append hc, Prog.andThen_ok, Prog.run_bind,
          Prog.run_write, Prog.andThen_ok]
        · exact .inr ⟨_, rfl, hchain, hpushed⟩
        · have hpc : p ≠ m.count := by
            rintro rfl
            exact absurd (hbelow _ (List.mem_of_getElem? hi)) (UInt32.lt_irrefl _)
          show ((m.set m.count blankDirPage).pages p).isSome
          rw [PageMap.set_pages_of_ne _ hpc, hd]
          rfl
      · refine .inl ⟨Nat.le_of_not_lt hc, ?_⟩
        have hnone : m.appendPage blankDirPage = none := if_neg hc
        unfold appendBlankDirPage Prog.append Prog.run
        rw [hnone]
        rfl

end DirChain

namespace DirAt

variable {m m' : PageMap} {root : UInt32} {dirs phys : List UInt32}

theorem new (m : PageMap) : DirAt m UNMAPPED [] [] where
  root_eq := rfl
  nodup := List.nodup_nil
  cover := Nat.le_refl _
  ne_unmapped := by simp
  page h := by cases h
  size := Nat.zero_le _

theorem congr (h : DirAt m root dirs phys) (hp : ∀ p ∈ dirs, m'.pages p = m.pages p) :
    DirAt m' root dirs phys where
  toDirChain := h.toDirChain.congr hp
  size := h.size

/-- **Resolving gives the page mapped at the logical number.** -/
theorem run_resolve (h : DirAt m root dirs phys) (logical : Nat) :
    (PageDirectory.resolve ⟨root, phys.length⟩ logical).run m = (.ok phys[logical]?, m) := by
  unfold PageDirectory.resolve
  by_cases hlt : logical < phys.length
  · have hq := List.getElem?_eq_getElem hlt
    have hindex : logical / ENTRIES_PER_DIR_PAGE < dirs.length := by
      have := h.cover
      unfold ENTRIES_PER_DIR_PAGE PAGE_SIZE LINK_SIZE at *
      omega
    have hpid := List.getElem?_eq_getElem hindex
    obtain ⟨hhead, hroot⟩ := h.head (Nat.lt_of_le_of_lt (Nat.zero_le _) hindex)
    obtain ⟨d, hd, -, hentry⟩ := h.page hpid
    have hvalue : readEntry d (logical % ENTRIES_PER_DIR_PAGE) = phys[logical] := by
      apply hentry (Nat.mod_lt _ (by decide))
      rw [Nat.mul_comm, Nat.div_add_mod]
      exact hq
    have hne : phys[logical] ≠ UNMAPPED :=
      h.ne_unmapped _ (List.mem_append_right _ (List.getElem_mem hlt))
    dsimp only
    rw [if_neg (by omega), Prog.run_bind, PageDirectory.dirPagePid, if_neg hroot,
      h.run_walk hhead (by rw [Nat.zero_add]; exact hpid), Prog.andThen_ok]
    dsimp only
    rw [Prog.run_bind, Prog.run_read hd, Prog.andThen_ok, hvalue, if_neg hne, hq]
    rfl
  · dsimp only
    rw [if_pos (by omega), List.getElem?_eq_none (by omega)]
    rfl

/-- `ensure_dir_page` for the next logical number. -/
theorem run_ensure (h : DirAt m root dirs phys) (hbelow : ∀ p ∈ dirs, p < m.count) :
    (UInt32.size ≤ m.count.toNat + 1 ∧ ((PageDirectory.ensureDirPage ⟨root, phys.length⟩
        (phys.length / ENTRIES_PER_DIR_PAGE)).run m).1 = .panic) ∨
    ∃ m' root' dirs' pid, (PageDirectory.ensureDirPage ⟨root, phys.length⟩
        (phys.length / ENTRIES_PER_DIR_PAGE)).run m = (.ok (pid, root'), m') ∧
      DirChain m' root' dirs' phys ∧ Pushed m m' dirs dirs' ∧
      dirs'[phys.length / ENTRIES_PER_DIR_PAGE]? = some pid ∧
      dirs'.length = phys.length / ENTRIES_PER_DIR_PAGE + 1 := by
  have hsize := h.size
  have hcover := h.cover
  unfold PageDirectory.ensureDirPage
  dsimp only
  by_cases hlen : 0 < dirs.length
  · obtain ⟨hhead, hroot⟩ := h.head hlen
    rw [if_neg hroot, Prog.run_bind, Prog.run_pure, Prog.andThen_ok, Prog.run_bind]
    by_cases hin : phys.length / ENTRIES_PER_DIR_PAGE < dirs.length
    · have hpid := List.getElem?_eq_getElem hin
      rw [h.run_extend_within hhead (by rw [Nat.zero_add]; exact hpid), Prog.andThen_ok]
      refine .inr ⟨m, root, dirs, _, rfl, h.toDirChain, ⟨rfl, rfl, .inl ⟨rfl, rfl⟩, fun _ _ => rfl⟩,
        hpid, ?_⟩
      unfold ENTRIES_PER_DIR_PAGE PAGE_SIZE LINK_SIZE at *
      omega
    · have hend : phys.length / ENTRIES_PER_DIR_PAGE = dirs.length := by
        unfold ENTRIES_PER_DIR_PAGE PAGE_SIZE LINK_SIZE at *
        omega
      rw [hend]
      rcases h.run_extend_past hbelow hhead (Nat.zero_add _) with
        ⟨hfull, hp⟩ | ⟨m', hrun, hchain, hpushed⟩
      · refine .inl ⟨hfull, ?_⟩
        cases hr : (PageDirectory.extend dirs.length root).run m with
        | mk r m' =>
          rw [hr] at hp
          cases hp
          rfl
      · rw [hrun, Prog.andThen_ok]
        refine .inr ⟨m', root, _, m.count, rfl, hchain, hpushed, ?_, by simp⟩
        rw [List.getElem?_append_right (Nat.le_refl _), Nat.sub_self]
        rfl
  · -- the first page of the directory
    obtain rfl : dirs = [] := List.eq_nil_of_length_eq_zero (by omega)
    have hphys : phys = [] := List.eq_nil_of_length_eq_zero (by simpa using hcover)
    subst hphys
    obtain rfl : root = UNMAPPED := h.root_eq
    rw [if_pos rfl, Prog.run_bind]
    by_cases hc : m.count.toNat + 1 < UInt32.size
    · rw [appendBlankDirPage, Prog.run_append hc, Prog.andThen_ok, Prog.run_bind]
      have hcount : m.count ≠ UNMAPPED := by
        intro he
        rw [he] at hc
        exact absurd hc (by decide)
      refine .inr ⟨_, m.count, [m.count], m.count, rfl, ⟨rfl, by simp, by simp, by simpa using hcount, ?_⟩,
        ⟨rfl, rfl, .inr ⟨rfl, hc, rfl⟩, ?_⟩, rfl, rfl⟩
      · intro i p hi
        have hi0 : i = 0 := by
          have := (List.getElem?_eq_some_iff.1 hi).1
          simpa using this
        subst hi0
        cases hi
        exact ⟨blankDirPage, m.set_pages_self _ _, readLink_blankDirPage, fun _ hq => by cases hq⟩
      · intro p hp
        exact m.set_pages_of_ne (by simpa using hp) _
    · refine .inl ⟨Nat.le_of_not_lt hc, ?_⟩
      have hnone : m.appendPage blankDirPage = none := if_neg hc
      unfold appendBlankDirPage Prog.append Prog.run
      rw [hnone]
      rfl

/-- **Pushing maps the next logical number and touches nothing but directory pages** (or panics
    when the file is full). -/
theorem run_push (h : DirAt m root dirs phys) (hbelow : ∀ p ∈ dirs, p < m.count) {physical : UInt32}
    (hne : physical ≠ UNMAPPED) :
    (UInt32.size ≤ m.count.toNat + 1 ∧
      ((PageDirectory.push ⟨root, phys.length⟩ physical).run m).1 = .panic) ∨
    ∃ m' root' dirs', (PageDirectory.push ⟨root, phys.length⟩ physical).run m =
        (.ok (phys.length, ⟨root', phys.length + 1⟩), m') ∧
      DirAt m' root' dirs' (phys ++ [physical]) ∧ Pushed m m' dirs dirs' := by
  unfold PageDirectory.push PageDirectory.set
  dsimp only
  rw [if_neg hne, if_neg (Nat.lt_irrefl _), Prog.run_bind, Prog.run_bind]
  rcases h.run_ensure hbelow with
    ⟨hfull, hp⟩ | ⟨m₁, root', dirs', pid, hrun, hchain, hpushed, hpid, hlen⟩
  · refine .inl ⟨hfull, ?_⟩
    cases hr : (PageDirectory.ensureDirPage ⟨root, phys.length⟩
        (phys.length / ENTRIES_PER_DIR_PAGE)).run m with
    | mk r m' =>
      rw [hr] at hp
      cases hp
      rfl
  obtain ⟨d, hd, hlink, hentry⟩ := hchain.page hpid
  have hmem : pid ∈ dirs' := List.mem_of_getElem? hpid
  rw [hrun, Prog.andThen_ok]
  dsimp only
  rw [Prog.run_bind, Prog.run_read hd, Prog.andThen_ok, Prog.run_bind,
    Prog.run_write (by rw [hd]; rfl), Prog.andThen_ok]
  refine .inr ⟨_, root', dirs', rfl, ⟨⟨hchain.root_eq, hchain.nodup, ?_, ?_, ?_⟩, ?_⟩,
    ⟨hpushed.durable, hpushed.header, hpushed.grown, ?_⟩⟩
  · rw [List.length_append, List.length_singleton, hlen]
    unfold ENTRIES_PER_DIR_PAGE PAGE_SIZE LINK_SIZE
    omega
  · intro p hp
    rw [← List.append_assoc, List.mem_append, List.mem_singleton] at hp
    rcases hp with hp | rfl
    · exact hchain.ne_unmapped p hp
    · exact hne
  · intro i p hi
    by_cases hpp : p = pid
    · subst hpp
      have hieq : i = phys.length / ENTRIES_PER_DIR_PAGE := by
        have h1 := List.getElem?_eq_some_iff.1 hi
        have h2 := List.getElem?_eq_some_iff.1 hpid
        exact (hchain.nodup.getElem_inj_iff).1 (h1.2.trans h2.2.symm)
      refine ⟨_, m₁.set_pages_self p _, ?_, ?_⟩
      · rw [readLink_writeEntry, hlink, hieq]
      · intro j q hj hq
        rw [readEntry_writeEntry]
        have hdiv := Nat.div_add_mod phys.length ENTRIES_PER_DIR_PAGE
        rw [Nat.mul_comm] at hdiv
        split
        · rename_i hje
          dsimp only at hje
          rw [hieq, hje, hdiv, List.getElem?_append_right (Nat.le_refl _), Nat.sub_self] at hq
          cases hq
          rfl
        · rename_i hje
          dsimp only at hje
          rw [hieq] at hq
          have hlt := (List.getElem?_eq_some_iff.1 hq).1
          rw [List.length_append, List.length_singleton] at hlt
          rw [List.getElem?_append_left (by omega)] at hq
          exact hentry hj hq
    · obtain ⟨d', hd', hlink', hentry'⟩ := hchain.page hi
      refine ⟨d', by rw [PageMap.set_pages_of_ne _ hpp, hd'], hlink', ?_⟩
      intro j q hj hq
      apply hentry' hj
      rw [List.getElem?_append] at hq
      split at hq
      · exact hq
      · -- the new entry is on page `pid`
        rename_i hge
        exfalso
        have hlt := (List.getElem?_eq_some_iff.1 hq).1
        rw [List.length_singleton] at hlt
        have hidx : i = phys.length / ENTRIES_PER_DIR_PAGE := by
          have h1 := (List.getElem?_eq_some_iff.1 hi).1
          unfold ENTRIES_PER_DIR_PAGE PAGE_SIZE LINK_SIZE at *
          omega
        rw [hidx, hpid] at hi
        cases hi
        exact hpp rfl
  · rw [List.length_append, List.length_singleton, hlen]
    unfold ENTRIES_PER_DIR_PAGE PAGE_SIZE LINK_SIZE
    omega
  · intro p hp
    have hpp : p ≠ pid := by
      rintro rfl
      exact hp hmem
    rw [PageMap.set_pages_of_ne _ hpp, hpushed.pages p hp]

end DirAt

end ChiffonDB
