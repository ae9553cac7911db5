import ChiffonDB.Storage.Careful

/-!
# Programs cut short

What a program leaves if it stops right before one of its page writes, that write and all later ones
being lost.

* `Prog.execCuts` — the database files of all proper prefixes of the writes; `Prog.runCuts` — the
  same on a page map.
* `Shows.cuts` — **the files show the page maps, in order**.
* `Prog.Cuts` — what holds before every write; its rules follow those of `Prog.Yields`.
* `Prog.Reads`, `Prog.Guarded` — programs that only read, and that do not panic either.
* `Prog.Appends` — programs that append few pages; `Prog.Sober` — programs that panic on a full file
  only.
-/

set_option autoImplicit false

namespace ChiffonDB

namespace Prog

variable {α β : Type}

/-- The file before each page write.  Setting the header happens before the header page is written,
    so that a lost header page may leave either header behind. -/
def execCuts : Prog α → DatabaseFile → List DatabaseFile
  | .pure _, _ => []
  | .throw _, _ => []
  | .panic, _ => []
  | .readPage p k, db => (k (db.readPage p).1).execCuts (db.readPage p).2
  | .writePage p d k, db => db :: (k (db.writePage p d).1).execCuts (db.writePage p d).2
  | .appendPage d k, db =>
    match db.appendPage d with
    | none => []
    | some (p, db') => db :: (k p).execCuts db'
  | .pageCount k, db => (k db.pageCount).execCuts db
  | .header k, db => (k db.header).execCuts db
  | .writeHeader h k, db => db :: { db with header := h } ::
      (k { db with header := h }.writeHeader.1).execCuts { db with header := h }.writeHeader.2

def runCuts : Prog α → PageMap → List PageMap
  | .pure _, _ => []
  | .throw _, _ => []
  | .panic, _ => []
  | .readPage p k, m => (k (m.readPage p)).runCuts m
  | .writePage p d k, m => m :: (k (m.writePage p d).1).runCuts (m.writePage p d).2
  | .appendPage d k, m =>
    match m.appendPage d with
    | none => []
    | some (p, m') => m :: (k p).runCuts m'
  | .pageCount k, m => (k m.count).runCuts m
  | .header k, m => (k m.header).runCuts m
  | .writeHeader h k, m => m :: { m with header := h } ::
      (k ({ m with header := h }.writePage 0 h.serialize).1).runCuts
        ({ m with header := h }.writePage 0 h.serialize).2

end Prog

/-- **The files that a cut program leaves show the page maps that its run leaves.** -/
theorem Shows.cuts {db : DatabaseFile} {m : PageMap} {α : Type} (h : Shows db m) (p : Prog α) :
    List.Forall₂ Shows (p.execCuts db) (p.runCuts m) := by
  induction p generalizing db m with
  | pure a => exact .nil
  | throw e => exact .nil
  | panic => exact .nil
  | readPage p k ih =>
    obtain ⟨hr, h'⟩ := h.readPage p
    unfold Prog.execCuts Prog.runCuts
    rw [hr]
    exact ih _ h'
  | writePage p d k ih =>
    obtain ⟨hr, h'⟩ := h.writePage p d
    unfold Prog.execCuts Prog.runCuts
    rw [hr]
    exact .cons h (ih _ h')
  | appendPage d k ih =>
    unfold Prog.execCuts Prog.runCuts
    rcases h.appendPage d with ⟨h1, h2⟩ | ⟨p, db', m', h1, h2, h'⟩
    · rw [h1, h2]
      exact .nil
    · rw [h1, h2]
      exact .cons h (ih _ h')
  | pageCount k ih =>
    unfold Prog.execCuts Prog.runCuts
    rw [h.pageCount]
    exact ih _ h
  | header k ih =>
    unfold Prog.execCuts Prog.runCuts
    rw [h.header]
    exact ih _ h
  | writeHeader hd k ih =>
    obtain ⟨hr, h'⟩ := h.putHeader hd
    unfold Prog.execCuts Prog.runCuts
    rw [hr]
    exact .cons h (.cons (h.setHeader hd) (ih _ h'))

namespace Prog

variable {α β : Type} {m : PageMap}

/-- What a continuation leaves, unless the call before it failed. -/
def cutsThen (r : Outcome α × PageMap) (f : α → Prog β) : List PageMap :=
  match r with
  | (.ok a, m) => (f a).runCuts m
  | _ => []

theorem runCuts_bind (p : Prog α) (f : α → Prog β) (m : PageMap) :
    (p >>= f).runCuts m = p.runCuts m ++ cutsThen (p.run m) f := by
  show (p.bind f).runCuts m = _
  induction p generalizing m with
  | pure a => rfl
  | throw e => rfl
  | panic => rfl
  | readPage p k ih => exact ih _ _
  | writePage p d k ih => exact congrArg (m :: ·) (ih _ _)
  | appendPage d k ih =>
    unfold Prog.bind runCuts run
    cases m.appendPage d with
    | none => rfl
    | some r => exact congrArg (m :: ·) (ih _ _)
  | pageCount k ih => exact ih _ _
  | header k ih => exact ih _ _
  | writeHeader hd k ih =>
    exact congrArg (fun l => m :: { m with header := hd } :: l) (ih _ _)

theorem ReadOnly.runCuts {p : Prog α} (hp : p.ReadOnly) (m : PageMap) : p.runCuts m = [] := by
  induction p with
  | pure a => rfl
  | throw e => rfl
  | panic => rfl
  | readPage p k ih => exact ih _ (hp _)
  | writePage p d k => exact hp.elim
  | appendPage d k => exact hp.elim
  | pageCount k ih => exact ih _ (hp _)
  | header k ih => exact ih _ (hp _)
  | writeHeader h k => exact hp.elim

theorem runCuts_write {q : UInt32} {d : PageData} (h : (m.pages q).isSome) :
    (write q d).runCuts m = [m] := by
  unfold write runCuts PageMap.writePage
  rw [if_pos (by rw [h, Bool.or_true])]
  rfl

/-! ## What holds before every write -/

/-- Every write of the program is issued in a state that satisfies `C`. -/
def Cuts (p : Prog α) (m : PageMap) (C : PageMap → Prop) : Prop := ∀ m' ∈ p.runCuts m, C m'

namespace Cuts

variable {p : Prog α} {f : α → Prog β} {C C' : PageMap → Prop}

theorem mono (h : p.Cuts m C) (hc : ∀ m', C m' → C' m') : p.Cuts m C' := fun m' hm => hc m' (h m' hm)

theorem of_readOnly (hp : p.ReadOnly) : p.Cuts m C := by
  intro m' hm
  rw [hp.runCuts] at hm
  cases hm

theorem pure (a : α) : (Pure.pure a : Prog α).Cuts m C := of_readOnly trivial

theorem throw (e : GraphError) : (Prog.throw e : Prog α).Cuts m C := of_readOnly trivial

theorem bind (hp : p.Cuts m C) (hf : ∀ a m', p.run m = (.ok a, m') → (f a).Cuts m' C) :
    (p >>= f).Cuts m C := by
  intro m' hm
  rw [runCuts_bind] at hm
  rcases List.mem_append.1 hm with hm | hm
  · exact hp m' hm
  · unfold cutsThen at hm
    split at hm
    case h_1 a m₁ hr => exact hf a m₁ hr m' hm
    case h_2 => cases hm

theorem bind_run (hp : p.Cuts m C) {a : α} {m' : PageMap} (h : p.run m = (.ok a, m'))
    (hf : (f a).Cuts m' C) : (p >>= f).Cuts m C :=
  bind hp fun b m'' hr => by
    rw [h] at hr
    cases hr
    exact hf

theorem read {q : UInt32} {d : PageData} {f : PageData → Prog β} (h : m.pages q = some d)
    (hf : (f d).Cuts m C) : (Prog.read q >>= f).Cuts m C :=
  bind_run (of_readOnly (readOnly_read q)) (run_read h) hf

theorem count {f : UInt32 → Prog β} (hf : (f m.count).Cuts m C) : (Prog.count >>= f).Cuts m C :=
  bind_run (of_readOnly fun _ => trivial) (run_count m) hf

/-- A single write. -/
theorem of_write {q : UInt32} {d : PageData} (h : (m.pages q).isSome) (hc : C m) :
    (Prog.write q d).Cuts m C := by
  intro m' hm
  rw [runCuts_write h, List.mem_singleton] at hm
  rwa [hm]

theorem write {q : UInt32} {d : PageData} {f : Unit → Prog β} (h : (m.pages q).isSome) (hc : C m)
    (hf : (f ()).Cuts (m.set q d) C) : (Prog.write q d >>= f).Cuts m C :=
  bind_run (of_write h hc) (run_write h) hf

/-- An append; one that panics writes nothing. -/
theorem append {d : PageData} {f : UInt32 → Prog β} (hc : C m) (hf : ∀ m', m'.pages m.count = some d →
    (∀ q, q ≠ m.count → m'.pages q = m.pages q) → m'.count.toNat = m.count.toNat + 1 →
    m'.header = m.header → (f m.count).Cuts m' C) : (Prog.append d >>= f).Cuts m C := by
  refine bind (fun m' hm => ?_) fun p m₁ hr => ?_
  · unfold Prog.append runCuts at hm
    cases ha : m.appendPage d with
    | none =>
      rw [ha] at hm
      cases hm
    | some r =>
      rw [ha] at hm
      rwa [List.mem_singleton.1 hm]
  · rcases run_append_cases m d with ⟨hp, -⟩ | ⟨m', hr', ha⟩
    · rw [hr] at hp
      cases hp
    · rw [hr] at hr'
      cases hr'
      have hcount := count_of_appendPage ha
      obtain ⟨-, -, rfl⟩ := appendPage_eq_some ha
      exact hf _ (m.set_pages_self _ _) (fun q hq => m.set_pages_of_ne hq _) hcount rfl

end Cuts

/-- What a program yields is what it returns. -/
theorem Yields.of_ok {p : Prog α} {Q : α → PageMap → Prop} (h : p.Yields m Q) {a : α} {m' : PageMap}
    (hr : p.run m = (.ok a, m')) : Q a m' := by
  rcases h with ⟨m₁, hp, -⟩ | ⟨b, m₁, hb, hq⟩
  · rw [hr] at hp
    cases hp
  · rw [hr] at hb
    cases hb
    exact hq

/-- A page that was read is there. -/
theorem read_ok {q : UInt32} {d : PageData} {m' : PageMap} (h : (read q).run m = (.ok d, m')) :
    m' = m ∧ m.pages q = some d := by
  have hm := (readOnly_read q).run_snd m
  rw [h] at hm
  refine ⟨hm, ?_⟩
  cases hp : m.pages q with
  | some page =>
    rw [run_read hp] at h
    cases h
    rfl
  | none =>
    unfold read run PageMap.readPage at h
    rw [hp] at h
    cases h

/-! ## Programs that do not panic -/

/-- The program returns a value or an error. -/
def NoPanic (p : Prog α) (m : PageMap) : Prop := (p.run m).1 ≠ .panic

namespace NoPanic

theorem of_run {p : Prog α} {a : α} {m' : PageMap} (h : p.run m = (.ok a, m')) : p.NoPanic m := by
  unfold NoPanic
  rw [h]
  exact fun h => nomatch h

theorem pure (a : α) : (Pure.pure a : Prog α).NoPanic m := fun h => nomatch h

theorem throw (e : GraphError) : (Prog.throw e : Prog α).NoPanic m := fun h => nomatch h

theorem bind {p : Prog α} {f : α → Prog β} (hp : p.NoPanic m)
    (hf : ∀ a m', p.run m = (.ok a, m') → (f a).NoPanic m') : (p >>= f).NoPanic m := by
  unfold NoPanic at hp ⊢
  rw [run_bind]
  cases hr : p.run m with
  | mk r m' =>
    cases r with
    | ok a => exact hf a m' hr
    | err e => exact fun h => nomatch h
    | panic =>
      rw [hr] at hp
      exact absurd rfl hp

theorem write (q : UInt32) (d : PageData) : (Prog.write q d).NoPanic m := by
  unfold NoPanic Prog.write run PageMap.writePage
  split <;> exact fun h => nomatch h

end NoPanic

/-- The program only reads, and does not panic. -/
def Reads : Prog α → Prop
  | .pure _ => True
  | .throw _ => True
  | .panic => False
  | .readPage _ k => ∀ r, (k r).Reads
  | .writePage _ _ _ => False
  | .appendPage _ _ => False
  | .pageCount k => ∀ n, (k n).Reads
  | .header k => ∀ h, (k h).Reads
  | .writeHeader _ _ => False

namespace Reads

theorem bind {p : Prog α} {f : α → Prog β} (hp : p.Reads) (hf : ∀ a, (f a).Reads) : (p >>= f).Reads := by
  show (p.bind f).Reads
  induction p with
  | pure a => exact hf a
  | throw e => trivial
  | panic => exact hp.elim
  | readPage p k ih => exact fun r => ih r (hp r)
  | writePage p d k => exact hp.elim
  | appendPage d k => exact hp.elim
  | pageCount k ih => exact fun n => ih n (hp n)
  | header k ih => exact fun h => ih h (hp h)
  | writeHeader h k => exact hp.elim

theorem read (q : UInt32) : (Prog.read q).Reads := fun r => by cases r <;> trivial

theorem count : Prog.count.Reads := fun _ => trivial

theorem getHeader : Prog.getHeader.Reads := fun _ => trivial

theorem readOnly {p : Prog α} (hp : p.Reads) : p.ReadOnly := by
  induction p with
  | pure a => trivial
  | throw e => trivial
  | panic => trivial
  | readPage p k ih => exact fun r => ih r (hp r)
  | writePage p d k => exact hp.elim
  | appendPage d k => exact hp.elim
  | pageCount k ih => exact fun n => ih n (hp n)
  | header k ih => exact fun h => ih h (hp h)
  | writeHeader h k => exact hp.elim

theorem noPanic {p : Prog α} (hp : p.Reads) : p.NoPanic m := by
  induction p with
  | pure a => exact .pure a
  | throw e => exact .throw e
  | panic => exact hp.elim
  | readPage p k ih => exact ih _ (hp _)
  | writePage p d k => exact hp.elim
  | appendPage d k => exact hp.elim
  | pageCount k ih => exact ih _ (hp _)
  | header k ih => exact ih _ (hp _)
  | writeHeader h k => exact hp.elim

/-- What it yields, it returns on the same pages. -/
theorem run_ok {p : Prog α} (hp : p.Reads) {Q : α → PageMap → Prop} (h : p.Yields m Q) :
    ∃ a, p.run m = (.ok a, m) ∧ Q a m := by
  rcases h with ⟨m', hr, -⟩ | ⟨a, m', hr, hq⟩
  · exact absurd (by rw [hr]) (hp.noPanic (m := m))
  · have hm := hp.readOnly.run_snd m
    rw [hr] at hm
    obtain rfl : m' = m := hm
    exact ⟨a, hr, hq⟩

end Reads

/-- What a continuation leaves is left by the whole program. -/
theorem mem_runCuts_bind {p : Prog α} {f : α → Prog β} {a : α} {m' m'' : PageMap}
    (h : p.run m = (.ok a, m')) (hm : m'' ∈ (f a).runCuts m') : m'' ∈ (p >>= f).runCuts m := by
  rw [runCuts_bind, h]
  exact List.mem_append_right _ hm

/-- Reading first leaves nothing more. -/
theorem Reads.runCuts_bind {p : Prog α} (hp : p.Reads) {f : α → Prog β} {a : α} {m' : PageMap}
    (h : p.run m = (.ok a, m')) : (p >>= f).runCuts m = (f a).runCuts m' := by
  rw [Prog.runCuts_bind, hp.readOnly.runCuts, h]
  rfl

/-- The program does not panic, and every write is issued in a state that satisfies `C`. -/
structure Guarded (p : Prog α) (m : PageMap) (C : PageMap → Prop) : Prop where
  noPanic : p.NoPanic m
  cuts : p.Cuts m C

namespace Guarded

variable {p : Prog α} {f : α → Prog β} {C : PageMap → Prop}

theorem pure (a : α) : (Pure.pure a : Prog α).Guarded m C := ⟨.pure a, .pure a⟩

theorem of_reads (hp : p.Reads) : p.Guarded m C := ⟨hp.noPanic, .of_readOnly hp.readOnly⟩

theorem bind (hp : p.Guarded m C) (hf : ∀ a m', p.run m = (.ok a, m') → (f a).Guarded m' C) :
    (p >>= f).Guarded m C :=
  ⟨.bind hp.noPanic fun a m' hr => (hf a m' hr).noPanic, .bind hp.cuts fun a m' hr => (hf a m' hr).cuts⟩

theorem bind_run (hp : p.Guarded m C) {a : α} {m' : PageMap} (h : p.run m = (.ok a, m'))
    (hf : (f a).Guarded m' C) : (p >>= f).Guarded m C :=
  bind hp fun b m'' hr => by
    rw [h] at hr
    cases hr
    exact hf

theorem read {q : UInt32} {d : PageData} {f : PageData → Prog β} (h : m.pages q = some d)
    (hf : (f d).Guarded m C) : (Prog.read q >>= f).Guarded m C :=
  bind_run (of_reads (.read q)) (run_read h) hf

theorem of_write {q : UInt32} {d : PageData} (h : (m.pages q).isSome) (hc : C m) :
    (Prog.write q d).Guarded m C := ⟨.write q d, .of_write h hc⟩

theorem write {q : UInt32} {d : PageData} {f : Unit → Prog β} (h : (m.pages q).isSome) (hc : C m)
    (hf : (f ()).Guarded (m.set q d) C) : (Prog.write q d >>= f).Guarded m C :=
  bind_run (of_write h hc) (run_write h) hf

end Guarded

/-! ## Programs that append few pages -/

/-- The program appends at most `n` pages. -/
def Appends : Prog α → Nat → Prop
  | .pure _, _ => True
  | .throw _, _ => True
  | .panic, _ => True
  | .readPage _ k, n => ∀ r, (k r).Appends n
  | .writePage _ _ k, n => ∀ r, (k r).Appends n
  | .appendPage _ k, n => 0 < n ∧ ∀ p, (k p).Appends (n - 1)
  | .pageCount k, n => ∀ c, (k c).Appends n
  | .header k, n => ∀ h, (k h).Appends n
  | .writeHeader _ k, n => ∀ r, (k r).Appends n

namespace Appends

theorem count_le {p : Prog α} {n : Nat} (h : p.Appends n) (m : PageMap) :
    (p.run m).2.count.toNat ≤ m.count.toNat + n := by
  have hwrite : ∀ (m : PageMap) q d, (m.writePage q d).2.count = m.count := by
    intro m q d
    unfold PageMap.writePage
    split <;> rfl
  induction p generalizing m n with
  | pure a => exact Nat.le_add_right _ _
  | throw e => exact Nat.le_add_right _ _
  | panic => exact Nat.le_add_right _ _
  | readPage p k ih => exact ih _ (h _) m
  | writePage p d k ih =>
    have hk := ih _ (h (m.writePage p d).1) (m.writePage p d).2
    rwa [hwrite] at hk
  | appendPage d k ih =>
    obtain ⟨hpos, h⟩ := h
    unfold run
    cases ha : m.appendPage d with
    | none => exact Nat.le_add_right _ _
    | some r =>
      have hk := ih r.1 (h r.1) r.2
      rw [count_of_appendPage ha] at hk
      dsimp only
      omega
  | pageCount k ih => exact ih _ (h _) m
  | header k ih => exact ih _ (h _) m
  | writeHeader hd k ih =>
    have hk := ih _ (h ({ m with header := hd }.writePage 0 hd.serialize).1)
      ({ m with header := hd }.writePage 0 hd.serialize).2
    rwa [hwrite] at hk

theorem mono {p : Prog α} {n k : Nat} (hnk : n ≤ k) (h : p.Appends n) : p.Appends k := by
  induction p generalizing n k with
  | pure a => trivial
  | throw e => trivial
  | panic => trivial
  | readPage p c ih => exact fun r => ih r hnk (h r)
  | writePage p d c ih => exact fun r => ih r hnk (h r)
  | appendPage d c ih =>
    have hpos := h.1
    exact ⟨by omega, fun p => ih p (by omega) (h.2 p)⟩
  | pageCount c ih => exact fun r => ih r hnk (h r)
  | header c ih => exact fun r => ih r hnk (h r)
  | writeHeader hd c ih => exact fun r => ih r hnk (h r)

theorem bind {p : Prog α} {f : α → Prog β} {n k : Nat} (hp : p.Appends n) (hf : ∀ a, (f a).Appends k) :
    (p >>= f).Appends (n + k) := by
  show (p.bind f).Appends (n + k)
  induction p generalizing n with
  | pure a => exact mono (Nat.le_add_left _ _) (hf a)
  | throw e => trivial
  | panic => trivial
  | readPage p c ih => exact fun r => ih r (hp r)
  | writePage p d c ih => exact fun r => ih r (hp r)
  | appendPage d c ih =>
    refine ⟨Nat.lt_of_lt_of_le hp.1 (Nat.le_add_right _ _), fun p => ?_⟩
    have hk := ih p (hp.2 p)
    rwa [← Nat.sub_add_comm hp.1] at hk
  | pageCount c ih => exact fun r => ih r (hp r)
  | header c ih => exact fun r => ih r (hp r)
  | writeHeader hd c ih => exact fun r => ih r (hp r)

theorem bind_zero {p : Prog α} {f : α → Prog β} {k : Nat} (hp : p.Appends 0)
    (hf : ∀ a, (f a).Appends k) : (p >>= f).Appends k := by
  have h := bind hp hf
  rwa [Nat.zero_add] at h

theorem of_readOnly {p : Prog α} (hp : p.ReadOnly) : p.Appends 0 := by
  induction p with
  | pure a => trivial
  | throw e => trivial
  | panic => trivial
  | readPage p k ih => exact fun r => ih r (hp r)
  | writePage p d k => exact hp.elim
  | appendPage d k => exact hp.elim
  | pageCount k ih => exact fun r => ih r (hp r)
  | header k ih => exact fun r => ih r (hp r)
  | writeHeader h k => exact hp.elim

theorem ofExcept (r : Except GraphError α) : (Prog.ofExcept r).Appends 0 :=
  of_readOnly (readOnly_ofExcept r)

theorem read (q : UInt32) : (Prog.read q).Appends 0 := of_readOnly (readOnly_read q)

theorem write (q : UInt32) (d : PageData) : (Prog.write q d).Appends 0 := ofExcept

theorem append (d : PageData) : (Prog.append d).Appends 1 := ⟨Nat.one_pos, fun _ => trivial⟩

theorem putHeader (h : FileHeader) : (Prog.putHeader h).Appends 0 := ofExcept

end Appends

/-- The program itself never panics; an append to a full file may. -/
def Sober : Prog α → Prop
  | .pure _ => True
  | .throw _ => True
  | .panic => False
  | .readPage _ k => ∀ r, (k r).Sober
  | .writePage _ _ k => ∀ r, (k r).Sober
  | .appendPage _ k => ∀ p, (k p).Sober
  | .pageCount k => ∀ c, (k c).Sober
  | .header k => ∀ h, (k h).Sober
  | .writeHeader _ k => ∀ r, (k r).Sober

namespace Sober

theorem bind {p : Prog α} {f : α → Prog β} (hp : p.Sober) (hf : ∀ a, (f a).Sober) : (p >>= f).Sober := by
  show (p.bind f).Sober
  induction p with
  | pure a => exact hf a
  | throw e => trivial
  | panic => exact hp.elim
  | readPage p k ih => exact fun r => ih r (hp r)
  | writePage p d k ih => exact fun r => ih r (hp r)
  | appendPage d k ih => exact fun p => ih p (hp p)
  | pageCount k ih => exact fun n => ih n (hp n)
  | header k ih => exact fun h => ih h (hp h)
  | writeHeader h k ih => exact fun r => ih r (hp r)

theorem of_reads {p : Prog α} (hp : p.Reads) : p.Sober := by
  induction p with
  | pure a => trivial
  | throw e => trivial
  | panic => exact hp.elim
  | readPage p k ih => exact fun r => ih r (hp r)
  | writePage p d k => exact hp.elim
  | appendPage d k => exact hp.elim
  | pageCount k ih => exact fun n => ih n (hp n)
  | header k ih => exact fun h => ih h (hp h)
  | writeHeader h k => exact hp.elim

theorem ofExcept (r : Except GraphError α) : (Prog.ofExcept r).Sober := by cases r <;> trivial

theorem read (q : UInt32) : (Prog.read q).Sober := ofExcept

theorem write (q : UInt32) (d : PageData) : (Prog.write q d).Sober := ofExcept

theorem append (d : PageData) : (Prog.append d).Sober := fun _ => trivial

theorem putHeader (h : FileHeader) : (Prog.putHeader h).Sober := ofExcept

/-- **With room for its pages it returns.** -/
theorem noPanic {p : Prog α} {n : Nat} (hp : p.Sober) (ha : p.Appends n)
    (hroom : m.count.toNat + n < UInt32.size) : p.NoPanic m := by
  have hwrite : ∀ (m : PageMap) q d, (m.writePage q d).2.count = m.count := by
    intro m q d
    unfold PageMap.writePage
    split <;> rfl
  induction p generalizing m n with
  | pure a => exact .pure a
  | throw e => exact .throw e
  | panic => exact hp.elim
  | readPage p k ih => exact ih _ (hp _) (ha _) hroom
  | writePage p d k ih => exact ih _ (hp _) (ha _) (by rwa [hwrite])
  | appendPage d k ih =>
    cases hr : m.appendPage d with
    | none =>
      unfold PageMap.appendPage at hr
      split at hr
      · cases hr
      · exact absurd hroom (by have := ha.1; omega)
    | some r =>
      obtain ⟨q, m'⟩ := r
      have hcount := count_of_appendPage hr
      have hn := ha.1
      unfold NoPanic run
      rw [hr]
      exact ih q (hp q) (ha.2 q) (by omega)
  | pageCount k ih => exact ih _ (hp _) (ha _) hroom
  | header k ih => exact ih _ (hp _) (ha _) hroom
  | writeHeader hd k ih => exact ih _ (hp _) (ha _) (by rwa [hwrite])

end Sober

end Prog

end ChiffonDB
