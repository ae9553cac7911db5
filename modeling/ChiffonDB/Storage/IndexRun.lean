import Mathlib.Data.Finset.Basic
import ChiffonDB.Storage.IndexBuckets
import ChiffonDB.Storage.StoreRun

/-!
# Runs of the property index

Adds, removes and pages appended for others, in any order, from a new database file.

* `RefinesSets` — `candidates` lists the set of a key, and no call changes what it lists for another key.
* `propertyIndex_refines` — **the index is a map from keys to sets of record ids along every run.**
-/

set_option autoImplicit false

namespace ChiffonDB

namespace PropertyIndex

inductive IndexCall where
  | add (key : IndexKey) (rid : RecordId)
  | remove (key : IndexKey) (rid : RecordId)
  | appendPage (page : PageData)

namespace IndexCall

def program : IndexCall → Prog Unit
  | .add key rid => PropertyIndex.add key rid
  | .remove key rid => PropertyIndex.remove key rid
  | .appendPage page => do
    let _ ← Prog.append page
    pure ()

/-- The key that the call is about. -/
def Names (c : IndexCall) (key : IndexKey) : Prop :=
  match c with
  | .add k _ => k = key
  | .remove k _ => k = key
  | .appendPage _ => False

/-- What the call does to a map from keys to sets. -/
def after (sets : IndexKey → Finset RecordId) : IndexCall → IndexKey → Finset RecordId
  | .add key rid => Function.update sets key (insert rid (sets key))
  | .remove key rid => Function.update sets key ((sets key).erase rid)
  | .appendPage _ => sets

end IndexCall

/-- A run; none where a call fails. -/
def run (db : DatabaseFile) : List IndexCall → Option DatabaseFile
  | [] => some db
  | c :: calls =>
    match c.program.exec db with
    | (.ok (), db) => run db calls
    | _ => none

/-- The file has all the pages that a page number can count. -/
def FileFull (db : DatabaseFile) : Prop :=
  ∃ count : UInt32, (Prog.count.exec db).1 = .ok count ∧ UInt32.size ≤ count.toNat + 1

/-- The index is the map `sets`. -/
structure RefinesSets (db : DatabaseFile) (sets : IndexKey → Finset RecordId) : Prop where
  lists : ∀ key, ∃ l, ((candidates key).exec db).1 = .ok l ∧ l.Nodup ∧ ∀ rid, rid ∈ l ↔ rid ∈ sets key
  succeeds : ∀ c : IndexCall, (∃ db', c.program.exec db = (.ok (), db')) ∨
    ∃ db', c.program.exec db = (.panic, db') ∧ FileFull db'
  others : ∀ (c : IndexCall) db', c.program.exec db = (.ok (), db') → ∀ key, ¬ c.Names key →
    ∀ l l', ((candidates key).exec db).1 = .ok l → ((candidates key).exec db').1 = .ok l' → l'.Perm l

/-! ## The invariant of a run -/

def IndexInv (db : DatabaseFile) (sets : IndexKey → Finset RecordId) : Prop :=
  ∃ m L, Shows db m ∧ Stores m L ∧ (∀ b, (L b).Nodup) ∧
    ∀ key rid, rid ∈ sets key ↔ (key, rid) ∈ L key.bucket

section Inv

variable {db db' : DatabaseFile} {m : PageMap} {L : Nat → List Entry} {sets : IndexKey → Finset RecordId}

theorem IndexInv.new (h : NewFile db) : IndexInv db fun _ => ∅ := by
  obtain ⟨m, hd, hc, hh, h0⟩ := newFile_shows h
  refine ⟨m, fun _ => [], hd, ⟨[], fun _ => [], .new h0 ?_ (by rw [hh]; rfl), fun _ => rfl⟩, by simp, by simp⟩
  rw [hc]
  decide

/-- The sets after a call, on one list of entries. -/
def NewEntries (c : IndexCall) (sets : IndexKey → Finset RecordId) (L : Nat → List Entry) : Prop :=
  (∀ b, (L b).Nodup) ∧ ∀ key rid, rid ∈ c.after sets key ↔ (key, rid) ∈ L key.bucket

theorem newEntries_add (hnd : ∀ b, (L b).Nodup) (hsets : ∀ key rid, rid ∈ sets key ↔ (key, rid) ∈ L key.bucket)
    {key : IndexKey} {rid : RecordId} {l : List Entry} (hl : ((key, rid) ∈ L key.bucket ∧ l = L key.bucket) ∨
      ((key, rid) ∉ L key.bucket ∧ l.Perm ((key, rid) :: L key.bucket))) :
    NewEntries (.add key rid) sets (Function.update L key.bucket l) := by
  have hmem : ∀ e, e ∈ l ↔ e = (key, rid) ∨ e ∈ L key.bucket := by
    intro e
    rcases hl with ⟨hin, rfl⟩ | ⟨-, hp⟩
    · refine ⟨.inr, fun h => h.elim (fun he => ?_) id⟩
      rw [he]
      exact hin
    · rw [hp.mem_iff, List.mem_cons]
  have hlnd : l.Nodup := by
    rcases hl with ⟨-, rfl⟩ | ⟨hno, hp⟩
    · exact hnd _
    · exact hp.nodup_iff.2 (List.nodup_cons.2 ⟨hno, hnd _⟩)
  refine ⟨fun b => ?_, fun k r => ?_⟩
  · by_cases hb : b = key.bucket
    · rw [hb, Function.update_self]
      exact hlnd
    · rw [Function.update_of_ne hb]
      exact hnd b
  · have hsame : (k, r) ∈ Function.update L key.bucket l k.bucket ↔ (k, r) = (key, rid) ∨ (k, r) ∈ L k.bucket := by
      by_cases hb : k.bucket = key.bucket
      · rw [hb, Function.update_self, hmem]
      · rw [Function.update_of_ne hb]
        refine ⟨.inr, fun h => h.resolve_left fun he => hb ?_⟩
        cases he
        rfl
    rw [hsame, ← hsets, Prod.mk.injEq]
    show r ∈ Function.update sets key _ k ↔ _
    by_cases hk : k = key
    · subst hk
      simp
    · simp [hk]

theorem newEntries_remove (hnd : ∀ b, (L b).Nodup) (hsets : ∀ key rid, rid ∈ sets key ↔ (key, rid) ∈ L key.bucket)
    {key : IndexKey} {rid : RecordId} {l : List Entry} (hl : ((key, rid) ∉ L key.bucket ∧ l = L key.bucket) ∨
      ((key, rid) :: l).Perm (L key.bucket)) :
    NewEntries (.remove key rid) sets (Function.update L key.bucket l) := by
  have hcons : ((key, rid) :: l).Perm (L key.bucket) → ((key, rid) :: l).Nodup := fun hp =>
    hp.nodup_iff.2 (hnd _)
  have hmem : ∀ e, e ∈ l ↔ e ≠ (key, rid) ∧ e ∈ L key.bucket := by
    intro e
    rcases hl with ⟨hno, rfl⟩ | hp
    · refine ⟨fun h => ⟨?_, h⟩, And.right⟩
      rintro rfl
      exact hno h
    · have hnot := (List.nodup_cons.1 (hcons hp)).1
      rw [← hp.mem_iff, List.mem_cons]
      refine ⟨fun h => ⟨?_, .inr h⟩, fun h => h.2.resolve_left h.1⟩
      rintro rfl
      exact hnot h
  have hlnd : l.Nodup := by
    rcases hl with ⟨-, rfl⟩ | hp
    · exact hnd _
    · exact (List.nodup_cons.1 (hcons hp)).2
  refine ⟨fun b => ?_, fun k r => ?_⟩
  · by_cases hb : b = key.bucket
    · rw [hb, Function.update_self]
      exact hlnd
    · rw [Function.update_of_ne hb]
      exact hnd b
  · have hsame : (k, r) ∈ Function.update L key.bucket l k.bucket ↔ (k, r) ≠ (key, rid) ∧ (k, r) ∈ L k.bucket := by
      by_cases hb : k.bucket = key.bucket
      · rw [hb, Function.update_self, hmem]
      · rw [Function.update_of_ne hb]
        refine ⟨fun h => ⟨fun he => hb ?_, h⟩, And.right⟩
        cases he
        rfl
    rw [hsame, ← hsets, ne_eq, Prod.mk.injEq]
    show r ∈ Function.update sets key _ k ↔ _
    by_cases hk : k = key
    · subst hk
      simp
    · simp [hk]

/-- **One call keeps the index.** -/
theorem yields_program (hs : Stores m L) (hnd : ∀ b, (L b).Nodup)
    (hsets : ∀ key rid, rid ∈ sets key ↔ (key, rid) ∈ L key.bucket) (c : IndexCall) :
    c.program.Yields m fun _ m' => ∃ L', Stores m' L' ∧ NewEntries c sets L' := by
  cases c with
  | add key rid =>
    exact (yields_add hs key rid).mono fun _ m' ⟨l, hs', hl⟩ => ⟨_, hs', newEntries_add hnd hsets hl⟩
  | remove key rid =>
    exact (yields_remove hs key rid).mono fun _ m' ⟨l, hs', hl⟩ => ⟨_, hs', newEntries_remove hnd hsets hl⟩
  | appendPage page =>
    obtain ⟨roots, chains, h, hL⟩ := hs
    refine .append fun m' _ hkeep hcount hheader => .pure ⟨L, ⟨roots, chains, ?_⟩, hnd, hsets⟩
    obtain ⟨h', hmem⟩ := h.appended hkeep hcount hheader
    exact ⟨h', fun b => (hmem b).trans (hL b)⟩

theorem IndexInv.call (h : IndexInv db sets) (c : IndexCall) :
    (∃ db', c.program.exec db = (.ok (), db') ∧ IndexInv db' (c.after sets)) ∨
      ∃ db', c.program.exec db = (.panic, db') ∧ FileFull db' := by
  obtain ⟨m, L, hd, hs, hnd, hsets⟩ := h
  obtain ⟨h1, h2⟩ := hd.exec c.program
  rcases yields_program hs hnd hsets c with ⟨m', hrun, hfull⟩ | ⟨⟨⟩, m', hrun, L', hs', hnd', hsets'⟩
  · rw [hrun] at h1 h2
    refine .inr ⟨(c.program.exec db).2, Prod.ext h1 rfl, m'.count, ?_, hfull⟩
    rw [(h2.exec Prog.count).1, Prog.run_count]
  · rw [hrun] at h1 h2
    exact .inl ⟨(c.program.exec db).2, Prod.ext h1 rfl, m', L', h2, hs', hnd', hsets'⟩

theorem IndexInv.run (h : IndexInv db sets) {calls : List IndexCall} (hrun : run db calls = some db') :
    IndexInv db' (calls.foldl IndexCall.after sets) := by
  induction calls generalizing db sets with
  | nil =>
    cases hrun
    exact h
  | cons c calls ih =>
    rw [PropertyIndex.run] at hrun
    rcases h.call c with ⟨db₁, hexec, h₁⟩ | ⟨db₁, hexec, -⟩
    · rw [hexec] at hrun
      exact ih h₁ hrun
    · rw [hexec] at hrun
      cases hrun

/-- The candidates of a key: its entries in its bucket. -/
theorem IndexInv.lists (h : IndexInv db sets) (key : IndexKey) :
    ∃ l, ((candidates key).exec db).1 = .ok l ∧ l.Nodup ∧ ∀ rid, rid ∈ l ↔ rid ∈ sets key := by
  obtain ⟨m, L, hd, hs, hnd, hsets⟩ := h
  refine ⟨_, by rw [(hd.exec _).1, run_candidates hs], ?_, fun rid => ?_⟩
  · refine (hnd key.bucket).filterMap ?_
    rintro ⟨k, r⟩ ⟨k', r'⟩ rid h h'
    dsimp only at h h'
    split at h <;> cases h
    split at h' <;> cases h'
    rename_i hk hk'
    rw [hk, hk']
  · rw [hsets, List.mem_filterMap]
    constructor
    · rintro ⟨⟨k, r⟩, hmem, he⟩
      dsimp only at he
      split at he
      · rename_i hk
        cases he
        rwa [hk] at hmem
      · cases he
    · intro hmem
      exact ⟨(key, rid), hmem, if_pos rfl⟩

theorem IndexInv.refines (h : IndexInv db sets) : RefinesSets db sets where
  lists := h.lists
  succeeds c := (h.call c).imp_left fun ⟨db', hexec, _⟩ => ⟨db', hexec⟩
  others c db' hexec key hkey l l' hl hl' := by
    have hafter : c.after sets key = sets key := by
      cases c with
      | add k rid => exact Function.update_of_ne (fun he => hkey he.symm) _ _
      | remove k rid => exact Function.update_of_ne (fun he => hkey he.symm) _ _
      | appendPage => rfl
    rcases h.call c with ⟨db₁, hexec₁, h₁⟩ | ⟨db₁, hexec₁, -⟩
    · obtain rfl : db₁ = db' := congrArg Prod.snd (hexec₁.symm.trans hexec)
      obtain ⟨l₁, hl₁, hnd₁, hmem₁⟩ := h.lists key
      obtain ⟨l₂, hl₂, hnd₂, hmem₂⟩ := h₁.lists key
      obtain rfl : l₁ = l := Outcome.ok.inj (hl₁.symm.trans hl)
      obtain rfl : l₂ = l' := Outcome.ok.inj (hl₂.symm.trans hl')
      refine (List.perm_ext_iff_of_nodup hnd₂ hnd₁).2 fun rid => ?_
      rw [hmem₂, hafter, hmem₁]
    · rw [hexec₁] at hexec
      cases hexec

end Inv

/-- **After any run of adds and removes in a new file, the candidates of a key are without repetition, and they are
    the record ids added and not since removed under its type id, path hash and value hash; a call about one key
    leaves those of every other key as they are, and it succeeds unless the file is full.** -/
theorem propertyIndex_refines {db db' : DatabaseFile} (h : NewFile db) {calls : List IndexCall}
    (hrun : run db calls = some db') : RefinesSets db' (calls.foldl IndexCall.after fun _ => ∅) :=
  ((IndexInv.new h).run hrun).refines

/-- The first entry of a new index needs two pages. -/
theorem run_add_new {m : PageMap} (hz : (m.pages 0).isSome) (hpos : 0 < m.count)
    (hroot : m.header.propertyIndexRoot = NO_ROOT) (hroom : m.count.toNat + 2 < UInt32.size) (key : IndexKey)
    (rid : RecordId) : ∃ m', (add key rid).run m = (.ok (), m') := by
  have hzero : (0 : UInt32) ≠ m.count := UInt32.ne_of_lt hpos
  have hlt : key.bucket < DIR_SLOTS_PER_PAGE := Nat.lt_of_lt_of_le key.bucket_lt (by decide)
  obtain ⟨m₁, hm₁⟩ : ∃ m₁ : PageMap, m₁ = { m.set m.count emptyDirPage with count := m.count + 1 } := ⟨_, rfl⟩
  have hz₁ : (m₁.pages 0).isSome := by
    rw [hm₁]
    show ((m.set m.count emptyDirPage).pages 0).isSome
    rwa [m.set_pages_of_ne hzero]
  obtain ⟨m₂, hm₂⟩ : ∃ m₂ : PageMap, m₂ = { m₁.set 0 { m₁.header with propertyIndexRoot := m.count }.serialize with
    header := { m₁.header with propertyIndexRoot := m.count } } := ⟨_, rfl⟩
  have hensure : ensureDirectory.run m = (.ok (), m₂) := by
    unfold ensureDirectory
    rw [Prog.run_bind, Prog.run_getHeader, Prog.andThen_ok, if_pos hroot, Prog.run_bind,
      Prog.run_append (by omega), Prog.andThen_ok, ← hm₁, Prog.run_bind, Prog.run_getHeader, Prog.andThen_ok,
      Prog.run_putHeader hz₁, hm₂]
  have hroot₂ : m₂.header.propertyIndexRoot = m.count := by rw [hm₂]
  have hcount₂ : m₂.count.toNat = m.count.toNat + 1 := by
    rw [hm₂]
    show m₁.count.toNat = _
    rw [hm₁]
    show (m.count + 1).toNat = _
    rw [UInt32.toNat_add]
    exact Nat.mod_eq_of_lt (show m.count.toNat + 1 < UInt32.size by omega)
  have hdir₂ : m₂.pages m.count = some emptyDirPage := by
    rw [hm₂]
    show (m₁.set 0 _).pages m.count = _
    rw [PageMap.set_pages_of_ne _ hzero.symm, hm₁]
    exact m.set_pages_self _ _
  have hne : m.count ≠ m₂.count := by
    intro he
    rw [← he] at hcount₂
    omega
  generalize hpage : LabelIndex.writeCount (LabelIndex.writeNext PageData.zero NO_ROOT) 0 = page
  obtain ⟨m₃, hm₃⟩ : ∃ m₃ : PageMap, m₃ = { m₂.set m₂.count page with count := m₂.count + 1 } := ⟨_, rfl⟩
  have happend : LabelIndex.appendEmptyPage.run m₂ = (.ok m₂.count, m₃) := by
    unfold LabelIndex.appendEmptyPage
    rw [hpage, Prog.run_append (by omega), hm₃]
  have hdir₃ : m₃.pages m.count = some emptyDirPage := by
    rw [hm₃]
    show (m₂.set m₂.count page).pages m.count = _
    rw [m₂.set_pages_of_ne hne, hdir₂]
  have hnew₃ : m₃.pages m₂.count = some page := by
    rw [hm₃]
    exact m₂.set_pages_self _ _
  obtain ⟨d, hhead⟩ : ∃ d, (bucketHeadEnsure key.bucket).run m = (.ok m₂.count, m₃.set m.count d) := by
    unfold bucketHeadEnsure
    rw [Prog.run_bind, run_bucketHead (BucketLayout.new hz hpos hroot) key.bucket_lt, Prog.andThen_ok]
    simp only [List.head?_nil, dirLocation, Nat.div_eq_of_lt hlt, Nat.mod_eq_of_lt hlt]
    rw [Prog.run_bind, hensure, Prog.andThen_ok, Prog.run_bind, Prog.run_getHeader, Prog.andThen_ok, hroot₂,
      dirWalkEnsure, Prog.run_bind, Prog.run_pure, Prog.andThen_ok, Prog.run_bind, happend, Prog.andThen_ok,
      Prog.run_bind, Prog.run_read hdir₃, Prog.andThen_ok, Prog.run_bind,
      Prog.run_write (by rw [hdir₃]; rfl), Prog.andThen_ok]
    exact ⟨_, rfl⟩
  have hnew₄ : (m₃.set m.count d).pages m₂.count = some page := (m₃.set_pages_of_ne hne.symm d).trans hnew₃
  have hcount : readCount page = 0 := by
    rw [← hpage]
    exact readCount_writeCount _ (Nat.zero_le _)
  have hnext : LabelIndex.readNext page = NO_ROOT := by
    rw [← hpage, LabelIndex.readNext_writeCount, LabelIndex.readNext_writeNext]
  have hroomy : readCount page < ENTRIES_PER_PAGE := by
    rw [hcount]
    decide
  obtain ⟨d', hpush, -, -⟩ := pushEntry_cases hroomy (key, rid)
  unfold add
  rw [Prog.run_bind, hhead, Prog.andThen_ok, Prog.run_bind, Prog.run_count, Prog.andThen_ok, Prog.run_bind,
    LabelIndex.walk.eq_def, Prog.run_bind, Prog.run_read hnew₄, Prog.andThen_ok, visitAdd,
    if_neg (by rw [entries_of_count hcount]; exact List.not_mem_nil), if_pos hroomy]
  dsimp only
  rw [if_pos hnext, Prog.run_pure, Prog.andThen_ok]
  show ∃ m', ((Prog.read m₂.count >>= _ : Prog Unit).run _) = _
  rw [Prog.run_bind, Prog.run_read hnew₄, Prog.andThen_ok, hpush]
  exact ⟨_, Prog.run_write (by rw [hnew₄]; rfl)⟩

/-- An entry added to a new database in memory. -/
theorem propertyIndex_refines_add : ∃ db',
    run DatabaseFile.createInMemory [.add (.new 1 [0x78] [0x31]) ⟨0, 0⟩] = some db' ∧
      RefinesSets db' (IndexCall.after (fun _ => ∅) (.add (.new 1 [0x78] [0x31]) ⟨0, 0⟩)) := by
  obtain ⟨m, hd, hc, hh, hz⟩ := newFile_shows (.inr rfl)
  obtain ⟨m', hrun⟩ := run_add_new hz (by rw [hc]; decide) (by rw [hh]; rfl)
    (by rw [hc]; show 1 + 2 < 4294967296; omega) (.new 1 [0x78] [0x31]) ⟨0, 0⟩
  have hout := (hd.exec (add (.new 1 [0x78] [0x31]) ⟨0, 0⟩)).1
  rw [hrun] at hout
  have hrun : ∃ db', run DatabaseFile.createInMemory [.add (.new 1 [0x78] [0x31]) ⟨0, 0⟩] = some db' := by
    rw [run, IndexCall.program]
    generalize (add (.new 1 [0x78] [0x31]) ⟨0, 0⟩).exec DatabaseFile.createInMemory = r at hout
    obtain ⟨r, db⟩ := r
    dsimp only at hout
    rw [hout]
    exact ⟨db, rfl⟩
  obtain ⟨db', hrun⟩ := hrun
  exact ⟨db', hrun, propertyIndex_refines (.inr rfl) hrun⟩

end PropertyIndex

end ChiffonDB
