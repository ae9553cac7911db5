import ChiffonDB.Storage.FileRun
import ChiffonDB.Storage.Prog

/-!
# Careful programs keep a file sound

A file is sound when its pages are numbered without gaps, page 0 holds the current header and,
if it is file-backed, it can be dropped and reopened at any time.

* `Prog.Within` — every write goes to an existing page that is not reserved for others.
* `Sound.exec` — **such a program keeps a sound file sound**.
* `Prog.Careful.kept` — and leaves the reserved pages and the schema fields of the header alone.
-/

set_option autoImplicit false

namespace ChiffonDB

/-! ## Careful page programs -/

namespace Prog

variable {α β : Type}

/-- Every write goes to an existing page other than the header page and the `frozen` ones, and the
    header keeps its version and changes as `allowed`. -/
def Within (frozen : UInt32 → Prop) (allowed : FileHeader → FileHeader → Prop) :
    Prog α → PageMap → Prop
  | .pure _, _ => True
  | .throw _, _ => True
  | .panic, _ => True
  | .readPage p k, m => (k (m.readPage p)).Within frozen allowed m
  | .writePage p d k, m => p ≠ 0 ∧ p < m.count ∧ ¬ frozen p ∧
      (k (m.writePage p d).1).Within frozen allowed (m.writePage p d).2
  | .appendPage d k, m => ∀ p m', m.appendPage d = some (p, m') → (k p).Within frozen allowed m'
  | .pageCount k, m => (k m.count).Within frozen allowed m
  | .header k, m => (k m.header).Within frozen allowed m
  | .writeHeader h k, m => h.version = VERSION ∧ allowed m.header h ∧
      (k ({ m with header := h }.writePage 0 h.serialize).1).Within frozen allowed
        ({ m with header := h }.writePage 0 h.serialize).2

/-- The header still points at the same schema. -/
def KeepsSchema (old new : FileHeader) : Prop :=
  new.schemaRoot = old.schemaRoot ∧ new.schemaVersion = old.schemaVersion

/-- A program that writes neither to reserved pages nor to the header's schema fields. -/
def Careful (frozen : UInt32 → Prop) (p : Prog α) (m : PageMap) : Prop :=
  p.Within frozen KeepsSchema m

theorem Within.bind {frozen : UInt32 → Prop} {allowed : FileHeader → FileHeader → Prop}
    {p : Prog α} {f : α → Prog β} {m : PageMap} (hp : p.Within frozen allowed m)
    (hf : ∀ a m', p.run m = (.ok a, m') → (f a).Within frozen allowed m') :
    (p >>= f).Within frozen allowed m := by
  show (p.bind f).Within frozen allowed m
  induction p generalizing m with
  | pure a => exact hf a m rfl
  | throw e => trivial
  | panic => trivial
  | readPage p k ih => exact ih _ hp hf
  | writePage p d k ih => exact ⟨hp.1, hp.2.1, hp.2.2.1, ih _ hp.2.2.2 hf⟩
  | appendPage d k ih =>
    intro p m' ha
    refine ih p (hp p m' ha) fun a m'' hr => hf a m'' ?_
    unfold Prog.run
    rw [ha]
    exact hr
  | pageCount k ih => exact ih _ hp hf
  | header k ih => exact ih _ hp hf
  | writeHeader h k ih => exact ⟨hp.1, hp.2.1, ih _ hp.2.2 hf⟩

/-- The program changes nothing. -/
def ReadOnly : Prog α → Prop
  | .pure _ => True
  | .throw _ => True
  | .panic => True
  | .readPage _ k => ∀ r, (k r).ReadOnly
  | .writePage _ _ _ => False
  | .appendPage _ _ => False
  | .pageCount k => ∀ n, (k n).ReadOnly
  | .header k => ∀ h, (k h).ReadOnly
  | .writeHeader _ _ => False

theorem ReadOnly.bind {p : Prog α} {f : α → Prog β} (hp : p.ReadOnly) (hf : ∀ a, (f a).ReadOnly) :
    (p >>= f).ReadOnly := by
  show (p.bind f).ReadOnly
  induction p with
  | pure a => exact hf a
  | throw e => trivial
  | panic => trivial
  | readPage p k ih => exact fun r => ih r (hp r)
  | writePage p d k => exact hp.elim
  | appendPage d k => exact hp.elim
  | pageCount k ih => exact fun n => ih n (hp n)
  | header k ih => exact fun h => ih h (hp h)
  | writeHeader h k => exact hp.elim

theorem ReadOnly.attempt {p : Prog α} (hp : p.ReadOnly) : p.attempt.ReadOnly := by
  induction p with
  | pure a => trivial
  | throw e => trivial
  | panic => trivial
  | readPage p k ih => exact fun r => ih r (hp r)
  | writePage p d k => exact hp.elim
  | appendPage d k => exact hp.elim
  | pageCount k ih => exact fun n => ih n (hp n)
  | header k ih => exact fun h => ih h (hp h)
  | writeHeader h k => exact hp.elim

theorem readOnly_ofExcept (r : Except GraphError α) : (ofExcept r).ReadOnly := by
  cases r <;> trivial

theorem readOnly_read (p : UInt32) : (read p).ReadOnly := readOnly_ofExcept

theorem ReadOnly.run_snd {p : Prog α} (hp : p.ReadOnly) (m : PageMap) : (p.run m).2 = m := by
  induction p with
  | pure a => rfl
  | throw e => rfl
  | panic => rfl
  | readPage p k ih => exact ih _ (hp _)
  | writePage p d k => exact hp.elim
  | appendPage d k => exact hp.elim
  | pageCount k ih => exact ih _ (hp _)
  | header k ih => exact ih _ (hp _)
  | writeHeader h k => exact hp.elim

theorem ReadOnly.within {p : Prog α} (hp : p.ReadOnly) (frozen : UInt32 → Prop)
    (allowed : FileHeader → FileHeader → Prop) (m : PageMap) : p.Within frozen allowed m := by
  induction p with
  | pure a => trivial
  | throw e => trivial
  | panic => trivial
  | readPage p k ih => exact ih _ (hp _)
  | writePage p d k => exact hp.elim
  | appendPage d k => exact hp.elim
  | pageCount k ih => exact ih _ (hp _)
  | header k ih => exact ih _ (hp _)
  | writeHeader h k => exact hp.elim

end Prog

/-! ## Sound files -/

/-- `db` shows the pages of `m`, numbered without gaps, page 0 holds the current header, and a
    file-backed `db` can be reopened. -/
structure Sound (db : DatabaseFile) (m : PageMap) : Prop where
  pages : Shows db m
  exists_page : ∀ p, (m.pages p).isSome ↔ p < m.count
  page0 : m.pages 0 = some m.header.serialize
  version : m.header.version = VERSION
  file : db.isInMemory = false → IsFile db m

namespace Sound

variable {db : DatabaseFile} {m : PageMap}

theorem pos (h : Sound db m) : 0 < m.count := by
  rw [← h.exists_page, h.page0]
  rfl

theorem set_exists (h : Sound db m) {p : UInt32} (hp : p < m.count) (d : PageData) (q : UInt32) :
    ((m.set p d).pages q).isSome ↔ q < m.count := by
  by_cases hq : q = p
  · subst hq
    rw [m.set_pages_self]
    exact ⟨fun _ => hp, fun _ => rfl⟩
  · rw [m.set_pages_of_ne hq, h.exists_page]

theorem writePage_eq (h : Sound db m) {p : UInt32} (hp : p < m.count) (d : PageData) :
    m.writePage p d = (.ok (), m.set p d) := by
  unfold PageMap.writePage
  rw [(h.exists_page p).2 hp, Bool.or_true, if_pos rfl]

theorem isInMemory_readPage (db : DatabaseFile) (p : UInt32) :
    (db.readPage p).2.isInMemory = db.isInMemory := by
  obtain ⟨b, hdr, cnt⟩ := db
  cases b with
  | memory data =>
    unfold DatabaseFile.readPage StorageBackend.readPage
    dsimp only
    split <;> rfl
  | file main wal cache =>
    unfold DatabaseFile.readPage StorageBackend.readPage
    dsimp only
    split
    · rfl
    · split <;> rfl

theorem isInMemory_writePage (db : DatabaseFile) (p : UInt32) (d : PageData) :
    (db.writePage p d).2.isInMemory = db.isInMemory := by
  obtain ⟨b, hdr, cnt⟩ := db
  cases b with
  | file main wal cache => rfl
  | memory data =>
    unfold DatabaseFile.writePage StorageBackend.writePage
    dsimp only
    split <;> rfl

theorem isInMemory_appendPage {db db' : DatabaseFile} {p : UInt32} {d : PageData}
    (h : db.appendPage d = some (p, db')) : db'.isInMemory = db.isInMemory := by
  obtain ⟨b, hdr, cnt⟩ := db
  unfold DatabaseFile.appendPage at h
  dsimp only at h
  split at h
  · cases h
    cases b <;> rfl
  · cases h

theorem readPage (h : Sound db m) (p : UInt32) :
    (db.readPage p).1 = m.readPage p ∧ Sound (db.readPage p).2 m := by
  obtain ⟨hr, hs⟩ := h.pages.readPage p
  refine ⟨hr, hs, h.exists_page, h.page0, h.version, fun hf => ?_⟩
  rw [isInMemory_readPage] at hf
  obtain ⟨_, _, _, _, hi⟩ := h.file hf
  exact (hi.read p).2

theorem writePage (h : Sound db m) {p : UInt32} (hp : p < m.count) (h0 : p ≠ 0) (d : PageData) :
    (db.writePage p d).1 = .ok () ∧ Sound (db.writePage p d).2 (m.set p d) := by
  obtain ⟨hr, hs⟩ := h.pages.writePage p d
  rw [h.writePage_eq hp] at hr hs
  refine ⟨hr, hs, h.set_exists hp d, ?_, h.version, fun hf => ?_⟩
  · exact (m.set_pages_of_ne (Ne.symm h0) d).trans h.page0
  · rw [isInMemory_writePage] at hf
    obtain ⟨_, _, _, _, hi⟩ := h.file hf
    exact hi.write hp d (fun he => absurd he h0)

theorem putHeader (h : Sound db m) {hd : FileHeader} (hv : hd.version = VERSION) :
    ({ db with header := hd }.writeHeader).1 = .ok () ∧
      { m with header := hd }.writePage 0 hd.serialize =
        (.ok (), { m.set 0 hd.serialize with header := hd }) ∧
      Sound ({ db with header := hd }.writeHeader).2 { m.set 0 hd.serialize with header := hd } := by
  obtain ⟨hr, hs⟩ := h.pages.putHeader hd
  have hw : { m with header := hd }.writePage 0 hd.serialize =
      (.ok (), { m.set 0 hd.serialize with header := hd }) := by
    unfold PageMap.writePage
    dsimp only
    rw [h.page0, Option.isSome_some, Bool.or_true, if_pos rfl]
    rfl
  rw [hw] at hr hs
  have h0 : (m.set 0 hd.serialize).pages 0 = some hd.serialize := m.set_pages_self ..
  refine ⟨hr, hw, hs, h.set_exists h.pos _, h0, hv, fun hf => ?_⟩
  have hm : ({ db with header := hd }.writeHeader).2.isInMemory = db.isInMemory :=
    isInMemory_writePage _ 0 _
  rw [hm] at hf
  obtain ⟨_, _, _, _, hi⟩ := h.file hf
  exact hi.writeHeader hv

theorem appendPage (h : Sound db m) (d : PageData) :
    (db.appendPage d = none ∧ m.appendPage d = none) ∨
    ∃ db' m', db.appendPage d = some (m.count, db') ∧ m.appendPage d = some (m.count, m') ∧
      Sound db' m' := by
  rcases h.pages.appendPage d with hn | ⟨p, db', m', h1, h2, hs⟩
  · exact .inl hn
  obtain ⟨rfl, hc, rfl⟩ := appendPage_eq_some h2
  refine .inr ⟨db', _, h1, h2, hs, ?_, ?_, h.version, fun hf => ?_⟩
  · intro q
    have hsucc : (m.count + 1).toNat = m.count.toNat + 1 := by
      rw [UInt32.toNat_add]; exact Nat.mod_eq_of_lt hc
    show ((m.set m.count d).pages q).isSome ↔ q < m.count + 1
    rw [UInt32.lt_iff_toNat_lt, hsucc]
    by_cases hq : q = m.count
    · subst hq
      rw [m.set_pages_self]
      exact ⟨fun _ => Nat.lt_succ_self _, fun _ => rfl⟩
    · rw [m.set_pages_of_ne hq, h.exists_page, UInt32.lt_iff_toNat_lt]
      have : q.toNat ≠ m.count.toNat := fun he => hq (UInt32.toNat_inj.1 he)
      omega
  · have hne : (0 : UInt32) ≠ m.count := fun he => absurd h.pos (by rw [← he]; exact UInt32.lt_irrefl 0)
    exact (m.set_pages_of_ne hne d).trans h.page0
  · rw [isInMemory_appendPage h1] at hf
    obtain ⟨_, _, _, _, hi⟩ := h.file hf
    rcases hi.append d with ⟨hn, -⟩ | ⟨p', db₂, m₂, hd₂, hm₂, hf₂⟩
    · rw [hn] at h1; cases h1
    · rw [h1] at hd₂
      rw [h2] at hm₂
      cases hd₂
      cases hm₂
      exact hf₂

/-- **Such a program keeps a sound file sound** and gives the result of the page map. -/
theorem exec {α : Type} {frozen : UInt32 → Prop} {allowed : FileHeader → FileHeader → Prop}
    {p : Prog α} (h : Sound db m) (hp : p.Within frozen allowed m) : (p.exec db).1 = (p.run m).1 ∧ Sound (p.exec db).2 (p.run m).2 := by
  induction p generalizing db m with
  | pure a => exact ⟨rfl, h⟩
  | throw e => exact ⟨rfl, h⟩
  | panic => exact ⟨rfl, h⟩
  | readPage p k ih =>
    obtain ⟨hr, h'⟩ := h.readPage p
    unfold Prog.exec Prog.run
    rw [hr]
    exact ih _ h' hp
  | writePage p d k ih =>
    obtain ⟨h0, hlt, -, hk⟩ := hp
    obtain ⟨hr, h'⟩ := h.writePage hlt h0 d
    rw [h.writePage_eq hlt] at hk
    unfold Prog.exec Prog.run
    rw [hr, h.writePage_eq hlt]
    exact ih _ h' hk
  | appendPage d k ih =>
    unfold Prog.exec Prog.run
    rcases h.appendPage d with ⟨h1, h2⟩ | ⟨db', m', h1, h2, h'⟩
    · rw [h1, h2]
      exact ⟨rfl, h⟩
    · rw [h1, h2]
      exact ih _ h' (hp _ _ h2)
  | pageCount k ih =>
    unfold Prog.exec Prog.run
    rw [h.pages.pageCount]
    exact ih _ h hp
  | header k ih =>
    unfold Prog.exec Prog.run
    rw [h.pages.header]
    exact ih _ h hp
  | writeHeader hd k ih =>
    obtain ⟨hv, -, hk⟩ := hp
    obtain ⟨hr, hw, h'⟩ := h.putHeader hv
    rw [hw] at hk
    unfold Prog.exec Prog.run
    rw [hr, hw]
    exact ih _ h' hk

end Sound

/-- What a careful program leaves as it was. -/
structure Kept (frozen : UInt32 → Prop) (m m' : PageMap) : Prop where
  count : m.count.toNat ≤ m'.count.toNat
  pages : ∀ p, frozen p → p ≠ 0 → p < m.count → m'.pages p = m.pages p
  schemaRoot : m'.header.schemaRoot = m.header.schemaRoot
  schemaVersion : m'.header.schemaVersion = m.header.schemaVersion

namespace Kept

variable {frozen : UInt32 → Prop} {m m' m'' : PageMap}

theorem refl (m : PageMap) : Kept frozen m m := ⟨Nat.le_refl _, fun _ _ _ _ => rfl, rfl, rfl⟩

theorem trans (h : Kept frozen m m') (h' : Kept frozen m' m'') : Kept frozen m m'' where
  count := Nat.le_trans h.count h'.count
  pages p hf h0 hp := by
    have hp' : p < m'.count := by
      rw [UInt32.lt_iff_toNat_lt] at *
      exact Nat.lt_of_lt_of_le hp h.count
    rw [h'.pages p hf h0 hp', h.pages p hf h0 hp]
  schemaRoot := h'.schemaRoot.trans h.schemaRoot
  schemaVersion := h'.schemaVersion.trans h.schemaVersion

end Kept

theorem Prog.Careful.kept {α : Type} {frozen : UInt32 → Prop} {p : Prog α} {m : PageMap}
    (hp : p.Careful frozen m) : Kept frozen m (p.run m).2 := by
  induction p generalizing m with
  | pure a => exact .refl m
  | throw e => exact .refl m
  | panic => exact .refl m
  | readPage p k ih => exact ih _ hp
  | writePage p d k ih =>
    obtain ⟨h0, hlt, hf, hk⟩ := hp
    refine Kept.trans ?_ (ih _ hk)
    unfold PageMap.writePage
    split
    · refine ⟨Nat.le_refl _, fun q hq _ _ => m.set_pages_of_ne ?_ d, rfl, rfl⟩
      rintro rfl
      exact hf hq
    · exact .refl m
  | appendPage d k ih =>
    unfold Prog.run
    cases ha : m.appendPage d with
    | none => exact .refl m
    | some r =>
      obtain ⟨p, m'⟩ := r
      refine Kept.trans ?_ (ih _ (hp _ _ ha))
      obtain ⟨rfl, hc, rfl⟩ := appendPage_eq_some ha
      refine ⟨?_, fun q _ _ hq => m.set_pages_of_ne ?_ d, rfl, rfl⟩
      · show m.count.toNat ≤ (m.count + 1).toNat
        rw [UInt32.toNat_add]
        show _ ≤ (m.count.toNat + 1) % UInt32.size
        rw [Nat.mod_eq_of_lt hc]
        omega
      · rintro rfl
        exact absurd hq (UInt32.lt_irrefl _)
  | pageCount k ih => exact ih _ hp
  | header k ih => exact ih _ hp
  | writeHeader hd k ih =>
    obtain ⟨-, ⟨hr, hv⟩, hk⟩ := hp
    refine Kept.trans ?_ (ih _ hk)
    unfold PageMap.writePage
    split
    · exact ⟨Nat.le_refl _, fun q _ h0 _ => PageMap.set_pages_of_ne _ h0 _, hr, hv⟩
    · exact ⟨Nat.le_refl _, fun _ _ _ _ => rfl, hr, hv⟩

end ChiffonDB
