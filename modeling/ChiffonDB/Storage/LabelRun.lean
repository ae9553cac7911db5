import Mathlib.Data.Finset.Card
import ChiffonDB.Storage.LabelOps
import ChiffonDB.Storage.StoreRun

/-!
# Runs of a label index

Any calls of `add`, `add_new` and `remove`, from any index: any chains, any fills, any end-of-run records.

* `Exact` — what `get` and `count` return is the set of every type.
* `Keeps` — a call returns, leaves the other types alone and drops no page.
* `labelIndex_refines` — **along every run the index is a map from types to sets of record ids.**
-/

set_option autoImplicit false

namespace ChiffonDB

namespace LabelIndex

/-! ## The system -/

inductive LabelCall where
  | add (typeId : UInt16) (rid : RecordId)
  | addNew (typeId : UInt16) (rid : RecordId)
  | remove (typeId : UInt16) (rid : RecordId)

namespace LabelCall

def typeId : LabelCall → UInt16
  | add t _ => t
  | addNew t _ => t
  | remove t _ => t

def prog : LabelCall → Prog Unit
  | add t rid => LabelIndex.add t rid
  | addNew t rid => LabelIndex.addNew t rid
  | remove t rid => LabelIndex.remove t rid

/-- The set of the call's type afterwards. -/
def onSet : LabelCall → Finset RecordId → Finset RecordId
  | add _ rid, s => insert rid s
  | addNew _ rid, s => insert rid s
  | remove _ rid, s => s.erase rid

/-- `add_new` asks its caller for a record id that is not there. -/
def Allowed : LabelCall → Finset RecordId → Prop
  | add _ _, _ => True
  | addNew _ rid, s => rid ∉ s
  | remove _ _, _ => True

end LabelCall

/-- A database file, and the set of every type. -/
structure LabelState where
  db : DatabaseFile
  sets : UInt16 → Finset RecordId

/-- The sets behind a call. -/
def LabelState.after (s : LabelState) (c : LabelCall) (db : DatabaseFile) : LabelState :=
  ⟨db, Function.update s.sets c.typeId (c.onSet (s.sets c.typeId))⟩

/-- Calls that all return `Ok`. -/
inductive Runs : LabelState → List LabelCall → LabelState → Prop
  | nil (s : LabelState) : Runs s [] s
  | cons {s s' : LabelState} {c : LabelCall} {cs : List LabelCall} {db : DatabaseFile}
      (allowed : c.Allowed (s.sets c.typeId)) (ok : c.prog.exec s.db = (.ok (), db))
      (rest : Runs (s.after c db) cs s') : Runs s (c :: cs) s'

theorem Runs.one {s : LabelState} {c : LabelCall} (hc : c.Allowed (s.sets c.typeId))
    (h : (c.prog.exec s.db).1 = .ok ()) : Runs s [c] (s.after c (c.prog.exec s.db).2) :=
  .cons hc (Prod.ext h rfl) (.nil _)

/-! ## What is to hold -/

def visitPid (out : List UInt32) (pid : UInt32) (_ : PageData) : Empty ⊕ List UInt32 := .inr (out ++ [pid])

/-- The pages of a type's chain. -/
def chainPids (typeId : UInt16) : Prog (List UInt32) := do
  match ← headOf typeId with
  | none => pure []
  | some pid => do
    let limit ← Prog.count
    match ← walk visitPid limit.toNat pid [] with
    | .inl a => nomatch a
    | .inr out => pure out

/-- What the index returns is what the sets say. -/
structure Exact (s : LabelState) : Prop where
  get : ∀ t, ∃ l, ((get t).exec s.db).1 = .ok l ∧ l.Nodup ∧ ∀ rid, rid ∈ l ↔ rid ∈ s.sets t
  count : ∀ t, ((count t).exec s.db).1 = .ok (s.sets t).card

/-- No page of a chain has left it. -/
def PagesStay (db db' : DatabaseFile) : Prop :=
  ∀ t, ∃ ps ps', ((chainPids t).exec db).1 = .ok ps ∧ ((chainPids t).exec db').1 = .ok ps' ∧ ps ⊆ ps'

/-- The call returns `Ok`, unless the file is full; it leaves the other types alone and drops no page. -/
def Keeps (s : LabelState) (c : LabelCall) : Prop :=
  (∃ db, c.prog.exec s.db = (.panic, db) ∧ UInt32.size ≤ db.pageCount.toNat + 1) ∨
  ∃ db, c.prog.exec s.db = (.ok (), db) ∧ PagesStay s.db db ∧
    ∀ t, t ≠ c.typeId → ((get t).exec db).1 = ((get t).exec s.db).1 ∧
      ((count t).exec db).1 = ((count t).exec s.db).1

/-! ## The invariant -/

/-- The pages behind the sets. -/
structure Laid (s : LabelState) (m : PageMap) (roots : List UInt32) (chains : UInt16 → List UInt32) :
    Prop where
  shows : Shows s.db m
  layout : LabelLayout m roots chains
  nodup : ∀ t, (members m (chains t)).Nodup
  mem : ∀ t rid, rid ∈ members m (chains t) ↔ rid ∈ s.sets t

variable {s s' : LabelState} {m m' : PageMap} {roots roots' : List UInt32}
  {chains chains' : UInt16 → List UInt32}

theorem scan_visitPid (out : List UInt32) {pids : List UInt32} (hp : ∀ p ∈ pids, InUse m p) :
    scan visitPid m pids out = .inr (out ++ pids) := by
  induction pids generalizing out with
  | nil => simp [scan]
  | cons p ps ih =>
    obtain ⟨page, hpage⟩ := (hp p (by simp)).get
    rw [scan_cons hpage]
    unfold visitPid
    dsimp only
    have := ih (out ++ [p]) fun q hq => hp q (by simp [hq])
    unfold visitPid at this
    rw [this]
    simp

theorem run_chainPids (hl : LabelLayout m roots chains) (t : UInt16) :
    (chainPids t).run m = (.ok (chains t), m) := by
  have hc := hl.chain t
  unfold chainPids
  rw [Prog.run_bind, run_headOf hl.rooted t, Prog.andThen_ok]
  cases hhead : (chains t).head? with
  | none =>
    rw [List.head?_eq_none_iff.1 hhead]
    rfl
  | some h =>
    dsimp only
    rw [Prog.run_bind, Prog.run_count, Prog.andThen_ok, Prog.run_bind,
      run_walk visitPid (hhead ▸ hc.links) hc.inUse (Nat.le_succ_of_le (length_le_count hc.nodup hc.inUse)) [],
      scan_visitPid [] hc.inUse, List.nil_append]
    rfl

namespace Laid

theorem get (h : Laid s m roots chains) (t : UInt16) :
    ((LabelIndex.get t).exec s.db).1 = .ok (members m (chains t)) := by
  rw [(h.shows.exec _).1, run_get h.layout t]

theorem count (h : Laid s m roots chains) (t : UInt16) :
    ((LabelIndex.count t).exec s.db).1 = .ok (members m (chains t)).length := by
  rw [(h.shows.exec _).1, run_countOf h.layout t]

theorem chainPids (h : Laid s m roots chains) (t : UInt16) :
    ((LabelIndex.chainPids t).exec s.db).1 = .ok (chains t) := by
  rw [(h.shows.exec _).1, run_chainPids h.layout t]

theorem exact (h : Laid s m roots chains) : Exact s where
  get t := ⟨_, h.get t, h.nodup t, h.mem t⟩
  count t := by
    have hset : s.sets t = (members m (chains t)).toFinset := by
      ext rid
      rw [List.mem_toFinset, h.mem]
    rw [h.count t, hset, List.toFinset_card_of_nodup (h.nodup t)]

theorem pagesStay (h : Laid s m roots chains) (h' : Laid s' m' roots' chains')
    (hsub : ∀ t, chains t ⊆ chains' t) : PagesStay s.db s'.db := fun t =>
  ⟨_, _, h.chainPids t, h'.chainPids t, hsub t⟩

/-- What a call leaves, if it returns. -/
def After (s : LabelState) (m : PageMap) (chains : UInt16 → List UInt32) (c : LabelCall)
    (m' : PageMap) : Prop :=
  ∃ roots' chains', LabelLayout m' roots' chains' ∧ (∀ t, chains t ⊆ chains' t) ∧
    (∀ t, t ≠ c.typeId → members m' (chains' t) = members m (chains t)) ∧
    (members m' (chains' c.typeId)).Nodup ∧
    ∀ rid, rid ∈ members m' (chains' c.typeId) ↔ rid ∈ c.onSet (s.sets c.typeId)

/-- The chain of one type rebuilt, the others as they were. -/
theorem after_of_rebuilt (h : Laid s m roots chains) {c : LabelCall} {l : List RecordId}
    (hr : Rebuilt m roots chains c.typeId (fun l' => l'.Perm l) m') (hnd : l.Nodup)
    (hmem : ∀ rid, rid ∈ l ↔ rid ∈ c.onSet (s.sets c.typeId)) : After s m chains c m' := by
  obtain ⟨roots', pids, hl', hf, hsub, hperm⟩ := hr
  refine ⟨roots', _, hl', ?_, ?_, ?_, ?_⟩
  · intro t
    by_cases ht : t = c.typeId
    · rw [ht, Function.update_self]
      exact hsub
    · rw [Function.update_of_ne ht]
      exact fun _ hp => hp
  · intro t ht
    rw [Function.update_of_ne ht]
    exact h.layout.members_of_ne ht hf
  · rw [Function.update_self]
    exact hperm.nodup_iff.2 hnd
  · intro rid
    rw [Function.update_self, hperm.mem_iff, hmem]

/-- **One call.** -/
theorem yields (h : Laid s m roots chains) (c : LabelCall) (hc : c.Allowed (s.sets c.typeId)) :
    c.prog.Yields m fun _ m' => After s m chains c m' := by
  cases c with
  | add t rid =>
    refine (h.layout.yields_add t rid).mono fun _ m' hr =>
      h.after_of_rebuilt (hr.rebuilt fun _ _ hi => hi.perm) (h.nodup t).insert fun r => ?_
    rw [List.mem_insert_iff, h.mem t]
    exact Finset.mem_insert.symm
  | addNew t rid =>
    have hno : rid ∉ members m (chains t) := fun hin => hc ((h.mem t rid).1 hin)
    refine (h.layout.yields_addNew t rid).mono fun _ m' hr =>
      h.after_of_rebuilt (hr.rebuilt fun _ _ ha => ha.1) (List.nodup_cons.2 ⟨hno, h.nodup t⟩)
        fun r => ?_
    rw [List.mem_cons, h.mem t]
    exact Finset.mem_insert.symm
  | remove t rid =>
    refine (h.layout.yields_remove t rid).mono fun _ m' hr =>
      h.after_of_rebuilt (hr.rebuilt fun _ _ hr => hr.perm) ((h.nodup t).erase rid) fun r => ?_
    rw [(h.nodup t).mem_erase_iff, h.mem t]
    exact Finset.mem_erase.symm

/-- The invariant behind a call that has returned. -/
theorem after (h : Laid s m roots chains) {c : LabelCall} {db : DatabaseFile} (hd : Shows db m')
    (ha : After s m chains c m') : ∃ roots' chains', Laid (s.after c db) m' roots' chains' ∧
      (∀ t, chains t ⊆ chains' t) ∧
      ∀ t, t ≠ c.typeId → members m' (chains' t) = members m (chains t) := by
  obtain ⟨roots', chains', hl', hsub, hother, hnd, hmem⟩ := ha
  refine ⟨roots', chains', ⟨hd, hl', ?_, ?_⟩, hsub, hother⟩
  · intro t
    by_cases ht : t = c.typeId
    · rw [ht]
      exact hnd
    · rw [hother t ht]
      exact h.nodup t
  · intro t rid
    show _ ↔ rid ∈ Function.update s.sets c.typeId _ t
    by_cases ht : t = c.typeId
    · rw [ht, Function.update_self, hmem]
    · rw [Function.update_of_ne ht, hother t ht, h.mem]

theorem keeps (h : Laid s m roots chains) (c : LabelCall) (hc : c.Allowed (s.sets c.typeId)) : Keeps s c := by
  obtain ⟨hout, hd⟩ := h.shows.exec c.prog
  rcases h.yields c hc with ⟨m', hr, hfull⟩ | ⟨_, m', hr, ha⟩
  · rw [hr] at hout hd
    exact .inl ⟨_, Prod.ext hout rfl, by rw [hd.pageCount]; exact hfull⟩
  · rw [hr] at hout hd
    obtain ⟨roots', chains', h', hsub, hother⟩ := h.after hd ha
    refine .inr ⟨_, Prod.ext hout rfl, h.pagesStay h' hsub, fun t ht => ?_⟩
    have hget := h'.get t
    have hcount := h'.count t
    rw [hother t ht] at hget hcount
    exact ⟨hget.trans (h.get t).symm, hcount.trans (h.count t).symm⟩

/-- **A run keeps the invariant.** -/
theorem run {calls : List LabelCall} (hrun : Runs s calls s') (h : Laid s m roots chains) :
    ∃ m' roots' chains', Laid s' m' roots' chains' ∧ ∀ t, chains t ⊆ chains' t := by
  induction hrun generalizing m roots chains with
  | nil s => exact ⟨m, roots, chains, h, fun _ _ hp => hp⟩
  | @cons s s' c cs db hc hok _ ih =>
    obtain ⟨hout, hd⟩ := h.shows.exec c.prog
    rw [hok] at hout hd
    rcases h.yields c hc with ⟨m₁, hr, -⟩ | ⟨_, m₁, hr, ha⟩
    · rw [hr] at hout
      cases hout
    · rw [hr] at hd
      obtain ⟨roots₁, chains₁, h₁, hsub₁, -⟩ := h.after hd ha
      obtain ⟨m', roots', chains', h', hsub⟩ := ih h₁
      exact ⟨m', roots', chains', h', fun t _ hp => hsub t (hsub₁ t hp)⟩

end Laid

/-! ## A new file -/

/-- The empty index. -/
theorem LabelLayout.empty (hz : (m.pages 0).isSome) (hpos : 0 < m.count)
    (hroot : m.header.labelIndexRoot = NO_ROOT) : LabelLayout m [] fun _ => [] where
  zero := hz
  pos := hpos
  rooted := ⟨linkOf_eq_none.2 hroot, rfl, by simp, by simp, by simp, by simp⟩
  chain _ := .nil m
  apart := by simp
  disjoint := by simp

/-- A new root page takes the first slot. -/
theorem run_setHead_empty (hz : (m.pages 0).isSome) (hpos : 0 < m.count)
    (hroot : m.header.labelIndexRoot = NO_ROOT) (hroom : m.count.toNat + 1 < UInt32.size) (t : UInt16)
    (head : UInt32) : ∃ m', (setHead t head).run m = (.ok (), m') := by
  have hzero : (0 : UInt32) ≠ m.count := fun he => absurd hpos (by rw [← he]; exact UInt32.lt_irrefl 0)
  obtain ⟨page, hpage⟩ : ∃ page, page = writeCount (writeNext PageData.zero NO_ROOT) 0 := ⟨_, rfl⟩
  have hcount : readCount page = 0 := by
    rw [hpage]
    exact readCount_writeCount _ (Nat.zero_le _)
  obtain ⟨m₁, hm₁⟩ : ∃ m₁ : PageMap, m₁ = { m.set m.count page with count := m.count + 1 } := ⟨_, rfl⟩
  have happend : appendEmptyPage.run m = (.ok m.count, m₁) := by
    unfold appendEmptyPage
    rw [← hpage, Prog.run_append hroom, hm₁]
  have hz₁ : (m₁.pages 0).isSome := by
    rw [hm₁]
    show ((m.set m.count page).pages 0).isSome
    rwa [m.set_pages_of_ne hzero]
  obtain ⟨m₂, hm₂⟩ : ∃ m₂ : PageMap, m₂ = { m₁.set 0 { m₁.header with labelIndexRoot := m.count }.serialize with
    header := { m₁.header with labelIndexRoot := m.count } } := ⟨_, rfl⟩
  have hensure : ensureRoot.run m = (.ok (), m₂) := by
    unfold ensureRoot
    rw [Prog.run_bind, Prog.run_getHeader, Prog.andThen_ok, if_pos hroot, Prog.run_bind, happend, Prog.andThen_ok, Prog.run_bind, Prog.run_getHeader,
      Prog.andThen_ok, Prog.run_putHeader hz₁, hm₂]
  have hroot₂ : m₂.pages m.count = some page := by
    rw [hm₂]
    show (m₁.set 0 _).pages m.count = _
    rw [PageMap.set_pages_of_ne _ hzero.symm, hm₁]
    exact m.set_pages_self _ _
  have hidx : slotIdx page t = none := by
    have hnil : slots page = [] := by rw [← List.length_eq_zero_iff, length_slots, hcount]
    unfold slotIdx
    rw [Option.map_eq_none_iff, List.findFinIdx?_eq_none_iff, hnil]
    simp
  have hlt : readCount page < ROOT_SLOTS_PER_PAGE := by
    rw [hcount]
    decide
  refine ⟨m₂.set m.count (writeCount (writeRootSlot page ⟨readCount page, hlt⟩ t head) (readCount page + 1)), ?_⟩
  unfold setHead placeHead
  rw [Prog.run_bind, hensure, Prog.andThen_ok, Prog.run_bind, Prog.run_getHeader, Prog.andThen_ok]
  have hlabel : m₂.header.labelIndexRoot = m.count := by rw [hm₂]
  dsimp only
  rw [hlabel, Prog.run_bind, Prog.run_count, Prog.andThen_ok, Prog.run_bind, walk.eq_def, Prog.run_bind,
    Prog.run_read hroot₂, Prog.andThen_ok]
  unfold visitSetHead
  rw [hidx]
  dsimp only
  rw [dif_pos hlt]
  exact Prog.run_write (by rw [hroot₂]; rfl)

/-- The first record id of an empty index needs two pages. -/
theorem run_add_empty (hz : (m.pages 0).isSome) (hpos : 0 < m.count)
    (hroot : m.header.labelIndexRoot = NO_ROOT) (hroom : m.count.toNat + 2 < UInt32.size) (t : UInt16)
    (rid : RecordId) : ∃ m', (add t rid).run m = (.ok (), m') := by
  have hhead := run_headOf (LabelLayout.empty hz hpos hroot).rooted t
  have hzero : (0 : UInt32) ≠ m.count := fun he => absurd hpos (by rw [← he]; exact UInt32.lt_irrefl 0)
  obtain ⟨page, hpage⟩ : ∃ page, page = writeNext (writeCount (writeEntry PageData.zero ⟨0, by decide⟩ rid) 1)
      NO_ROOT := ⟨_, rfl⟩
  have hadd : (add t rid).run m = Prog.andThen ((Prog.append page).run m) (setHead t) := by
    unfold add
    rw [Prog.run_bind, hhead, Prog.andThen_ok]
    show (addNew t rid).run m = _
    unfold addNew
    rw [Prog.run_bind, hhead, Prog.andThen_ok, hpage, ← Prog.run_bind]
    rfl
  have hcount : (m.count + 1).toNat = m.count.toNat + 1 := by
    rw [UInt32.toNat_add]
    refine Nat.mod_eq_of_lt ?_
    show m.count.toNat + 1 < UInt32.size
    omega
  rw [hadd, Prog.run_append (by omega), Prog.andThen_ok]
  refine run_setHead_empty ?_ (UInt32.lt_iff_toNat_lt.2 ?_) ?_ ?_ t _
  · show ((m.set m.count page).pages 0).isSome
    rwa [m.set_pages_of_ne hzero]
  · show 0 < (m.count + 1).toNat
    omega
  · exact hroot
  · show (m.count + 1).toNat + 1 < _
    omega

/-- **Along every run the index is a map from types to sets of record ids.** -/
theorem labelIndex_refines {db : DatabaseFile} (hd : Shows db m) (hl : LabelLayout m roots chains)
    (hnd : ∀ t, (members m (chains t)).Nodup) {calls : List LabelCall}
    (hrun : Runs ⟨db, fun t => (members m (chains t)).toFinset⟩ calls s) :
    Exact s ∧ PagesStay db s.db ∧ ∀ c : LabelCall, c.Allowed (s.sets c.typeId) → Keeps s c := by
  have h : Laid ⟨db, fun t => (members m (chains t)).toFinset⟩ m roots chains :=
    ⟨hd, hl, hnd, fun t rid => List.mem_toFinset.symm⟩
  obtain ⟨m', roots', chains', h', hsub⟩ := h.run hrun
  exact ⟨h'.exact, h.pagesStay h' hsub, h'.keeps⟩

/-- A record id added to the index of a new file in memory. -/
theorem labelIndex_refines_add : ∃ s, Runs ⟨DatabaseFile.createInMemory, fun _ => ∅⟩ [.add 1 ⟨0, 0⟩] s ∧
    s.sets 1 = {⟨0, 0⟩} ∧ Exact s := by
  obtain ⟨m, hd, hc, hh, hz⟩ := newFile_shows (.inr rfl)
  have hpos : 0 < m.count := by rw [hc]; decide
  have hroot : m.header.labelIndexRoot = NO_ROOT := by rw [hh]; rfl
  have hl := LabelLayout.empty hz hpos hroot
  obtain ⟨m', hr⟩ := run_add_empty hz hpos hroot (by rw [hc]; show 1 + 2 < 4294967296; omega) 1 ⟨0, 0⟩
  generalize DatabaseFile.createInMemory = db at hd ⊢
  have hout := (hd.exec (add 1 ⟨0, 0⟩)).1
  rw [hr] at hout
  have hruns := Runs.one (s := ⟨db, fun _ => ∅⟩) (c := .add 1 ⟨0, 0⟩) trivial hout
  exact ⟨_, hruns, rfl, (labelIndex_refines hd hl (by simp [members]) hruns).1⟩

end LabelIndex

end ChiffonDB
