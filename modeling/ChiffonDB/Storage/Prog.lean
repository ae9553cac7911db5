import ChiffonDB.Storage.Recovery

/-!
# Programs over a database file

Every layer above `DatabaseFile` is a program over its calls: it reads, writes and appends pages
and keeps its roots in the header (a header field is only ever set together with `write_header`).

* `Prog.exec` — the program on a database file; `Prog.run` — the same program on a page map.
* `Shows.exec` — **on a database file that shows a page map, both runs agree**.
* `Prog.run_bind` — how the runs of two programs compose.
-/

set_option autoImplicit false

namespace ChiffonDB

/-- What a call returns to its caller: a value, an error, or nothing (a panic). -/
inductive Outcome (α : Type) where
  | ok (a : α)
  | err (e : GraphError)
  | panic
  deriving DecidableEq

def Outcome.bind {α β : Type} : Outcome α → (α → Outcome β) → Outcome β
  | .ok a, f => f a
  | .err e, _ => .err e
  | .panic, _ => .panic

instance : Monad Outcome where
  pure := .ok
  bind := .bind

theorem Outcome.ok_bind {α β : Type} (a : α) (f : α → Outcome β) : (Outcome.ok a >>= f) = f a := rfl

theorem Outcome.bind_eq_ok {α β : Type} {x : Outcome α} {f : α → Outcome β} {b : β} :
    (x >>= f) = .ok b ↔ ∃ a, x = .ok a ∧ f a = .ok b := by
  show x.bind f = _ ↔ _
  cases x <;> simp [Outcome.bind]

/-- A program over the calls of `DatabaseFile`. -/
inductive Prog (α : Type) where
  | pure (a : α)
  | throw (e : GraphError)
  | panic
  | readPage (pageId : UInt32) (k : Except GraphError PageData → Prog α)
  | writePage (pageId : UInt32) (data : PageData) (k : Except GraphError Unit → Prog α)
  | appendPage (data : PageData) (k : UInt32 → Prog α)
  | pageCount (k : UInt32 → Prog α)
  | header (k : FileHeader → Prog α)
  /-- Set `db.header`, then `write_header`. -/
  | writeHeader (header : FileHeader) (k : Except GraphError Unit → Prog α)

namespace Prog

variable {α β : Type}

def bind : Prog α → (α → Prog β) → Prog β
  | .pure a, f => f a
  | .throw e, _ => .throw e
  | .panic, _ => .panic
  | .readPage p k, f => .readPage p (fun r => (k r).bind f)
  | .writePage p d k, f => .writePage p d (fun r => (k r).bind f)
  | .appendPage d k, f => .appendPage d (fun r => (k r).bind f)
  | .pageCount k, f => .pageCount (fun r => (k r).bind f)
  | .header k, f => .header (fun r => (k r).bind f)
  | .writeHeader h k, f => .writeHeader h (fun r => (k r).bind f)

instance : Monad Prog where
  pure := .pure
  bind := .bind

/-- The result as a value, for a caller that looks at it. -/
def attempt : Prog α → Prog (Except GraphError α)
  | .pure a => .pure (.ok a)
  | .throw e => .pure (.error e)
  | .panic => .panic
  | .readPage p k => .readPage p (fun r => (k r).attempt)
  | .writePage p d k => .writePage p d (fun r => (k r).attempt)
  | .appendPage d k => .appendPage d (fun r => (k r).attempt)
  | .pageCount k => .pageCount (fun r => (k r).attempt)
  | .header k => .header (fun r => (k r).attempt)
  | .writeHeader h k => .writeHeader h (fun r => (k r).attempt)

/-- `?` on a result. -/
def ofExcept : Except GraphError α → Prog α
  | .ok a => .pure a
  | .error e => .throw e

/-- `db.read_page(id)?`. -/
def read (pageId : UInt32) : Prog PageData := .readPage pageId ofExcept

/-- `db.write_page(id, page)?`. -/
def write (pageId : UInt32) (data : PageData) : Prog Unit := .writePage pageId data ofExcept

/-- `db.append_page(page)?`. -/
def append (data : PageData) : Prog UInt32 := .appendPage data .pure

/-- `db.page_count()?`. -/
def count : Prog UInt32 := .pageCount .pure

/-- `db.header`. -/
def getHeader : Prog FileHeader := .header .pure

/-- `db.header = header; db.write_header()?`. -/
def putHeader (header : FileHeader) : Prog Unit := .writeHeader header ofExcept

/-! ## The two runs -/

def exec : Prog α → DatabaseFile → Outcome α × DatabaseFile
  | .pure a, db => (.ok a, db)
  | .throw e, db => (.err e, db)
  | .panic, db => (.panic, db)
  | .readPage p k, db => (k (db.readPage p).1).exec (db.readPage p).2
  | .writePage p d k, db => (k (db.writePage p d).1).exec (db.writePage p d).2
  | .appendPage d k, db =>
    match db.appendPage d with
    | none => (.panic, db)
    | some (p, db) => (k p).exec db
  | .pageCount k, db => (k db.pageCount).exec db
  | .header k, db => (k db.header).exec db
  | .writeHeader h k, db =>
    (k { db with header := h }.writeHeader.1).exec { db with header := h }.writeHeader.2

def run : Prog α → PageMap → Outcome α × PageMap
  | .pure a, m => (.ok a, m)
  | .throw e, m => (.err e, m)
  | .panic, m => (.panic, m)
  | .readPage p k, m => (k (m.readPage p)).run m
  | .writePage p d k, m => (k (m.writePage p d).1).run (m.writePage p d).2
  | .appendPage d k, m =>
    match m.appendPage d with
    | none => (.panic, m)
    | some (p, m) => (k p).run m
  | .pageCount k, m => (k m.count).run m
  | .header k, m => (k m.header).run m
  | .writeHeader h k, m =>
    (k ({ m with header := h }.writePage 0 h.serialize).1).run
      ({ m with header := h }.writePage 0 h.serialize).2

attribute [grind =] bind attempt exec run

end Prog

theorem appendPage_eq_some {m m' : PageMap} {p : UInt32} {d : PageData}
    (h : m.appendPage d = some (p, m')) : p = m.count ∧ m.count.toNat + 1 < UInt32.size ∧
      m' = { m.set m.count d with count := m.count + 1 } := by
  unfold PageMap.appendPage at h
  split at h
  · rename_i hc
    cases h
    exact ⟨rfl, hc, rfl⟩
  · cases h

namespace Shows

variable {db : DatabaseFile} {m : PageMap}

theorem putHeader (h : Shows db m) (hd : FileHeader) :
    ({ db with header := hd }.writeHeader).1 = ({ m with header := hd }.writePage 0 hd.serialize).1 ∧
      Shows ({ db with header := hd }.writeHeader).2
        ({ m with header := hd }.writePage 0 hd.serialize).2 :=
  (h.setHeader hd).writeHeader

/-- **A program cannot tell the database file from the page map it shows.** -/
theorem exec {α : Type} (h : Shows db m) (p : Prog α) :
    (p.exec db).1 = (p.run m).1 ∧ Shows (p.exec db).2 (p.run m).2 := by
  induction p generalizing db m with
  | pure a => exact ⟨rfl, h⟩
  | throw e => exact ⟨rfl, h⟩
  | panic => exact ⟨rfl, h⟩
  | readPage p k ih =>
    obtain ⟨hr, h'⟩ := h.readPage p
    rw [Prog.exec, Prog.run, hr]
    exact ih _ h'
  | writePage p d k ih =>
    obtain ⟨hr, h'⟩ := h.writePage p d
    rw [Prog.exec, Prog.run, hr]
    exact ih _ h'
  | appendPage d k ih =>
    rw [Prog.exec, Prog.run]
    rcases h.appendPage d with ⟨h1, h2⟩ | ⟨p, db', m', h1, h2, h'⟩
    · rw [h1, h2]
      exact ⟨rfl, h⟩
    · rw [h1, h2]
      exact ih _ h'
  | pageCount k ih =>
    rw [Prog.exec, Prog.run, h.pageCount]
    exact ih _ h
  | header k ih =>
    rw [Prog.exec, Prog.run, h.header]
    exact ih _ h
  | writeHeader hd k ih =>
    obtain ⟨hr, h'⟩ := h.putHeader hd
    rw [Prog.exec, Prog.run, hr]
    exact ih _ h'

end Shows

/-! ## Runs of compound programs -/

namespace Prog

variable {α β : Type}

/-- What follows a call: its continuation, unless it failed. -/
def andThen (r : Outcome α × PageMap) (f : α → Prog β) : Outcome β × PageMap :=
  match r with
  | (.ok a, m) => (f a).run m
  | (.err e, m) => (.err e, m)
  | (.panic, m) => (.panic, m)

@[simp] theorem andThen_ok (a : α) (m : PageMap) (f : α → Prog β) :
    andThen (.ok a, m) f = (f a).run m := rfl

@[simp] theorem andThen_err (e : GraphError) (m : PageMap) (f : α → Prog β) :
    andThen (.err e, m) f = (.err e, m) := rfl

@[simp] theorem andThen_panic (m : PageMap) (f : α → Prog β) :
    andThen (.panic, m) f = (.panic, m) := rfl

theorem run_bind (p : Prog α) (f : α → Prog β) (m : PageMap) :
    (p >>= f).run m = andThen (p.run m) f := by
  show (p.bind f).run m = _
  induction p generalizing m with
  | pure a => rfl
  | throw e => rfl
  | panic => rfl
  | readPage p k ih => exact ih _ _
  | writePage p d k ih => exact ih _ _
  | appendPage d k ih =>
    rw [Prog.bind, Prog.run, Prog.run]
    cases m.appendPage d with
    | none => rfl
    | some r => exact ih _ _
  | pageCount k ih => exact ih _ _
  | header k ih => exact ih _ _
  | writeHeader hd k ih => exact ih _ _

@[simp] theorem run_pure (a : α) (m : PageMap) : (Pure.pure a : Prog α).run m = (.ok a, m) := rfl

theorem run_attempt (p : Prog α) (m : PageMap) :
    p.attempt.run m = match p.run m with
      | (.ok a, m') => (.ok (.ok a), m')
      | (.err e, m') => (.ok (.error e), m')
      | (.panic, m') => (.panic, m') := by
  induction p generalizing m with
  | pure a => rfl
  | throw e => rfl
  | panic => rfl
  | readPage p k ih => exact ih _ _
  | writePage p d k ih => exact ih _ _
  | appendPage d k ih =>
    rw [Prog.attempt, Prog.run, Prog.run]
    cases m.appendPage d with
    | none => rfl
    | some r => exact ih _ _
  | pageCount k ih => exact ih _ _
  | header k ih => exact ih _ _
  | writeHeader hd k ih => exact ih _ _

theorem run_read {m : PageMap} {p : UInt32} {d : PageData} (h : m.pages p = some d) :
    (read p).run m = (.ok d, m) := by
  rw [read, run, PageMap.readPage, h]
  rfl

theorem run_read_none {m : PageMap} {p : UInt32} (h : m.pages p = none) :
    (read p).run m = (.err (m.missing p), m) := by
  rw [read, run, PageMap.readPage, h]
  rfl

theorem run_write {m : PageMap} {p : UInt32} {d : PageData} (h : (m.pages p).isSome) :
    (write p d).run m = (.ok (), m.set p d) := by
  rw [write, run, PageMap.writePage, if_pos (by rw [h, Bool.or_true])]
  rfl

theorem run_append {m : PageMap} {d : PageData} (h : m.count.toNat + 1 < UInt32.size) :
    (append d).run m = (.ok m.count, { m.set m.count d with count := m.count + 1 }) := by
  rw [append, run, PageMap.appendPage, if_pos h]
  rfl

@[simp] theorem run_count (m : PageMap) : count.run m = (.ok m.count, m) := rfl

@[simp] theorem run_getHeader (m : PageMap) : getHeader.run m = (.ok m.header, m) := rfl

theorem run_putHeader {m : PageMap} {hd : FileHeader} (h : (m.pages 0).isSome) :
    (putHeader hd).run m = (.ok (), { m.set 0 hd.serialize with header := hd }) := by
  rw [putHeader, run, PageMap.writePage]
  dsimp only
  rw [if_pos (by rw [h, Bool.or_true])]
  rfl

end Prog

theorem run_append_cases (m : PageMap) (d : PageData) :
    ((Prog.append d).run m = (.panic, m) ∧ UInt32.size ≤ m.count.toNat + 1) ∨
    ∃ m', (Prog.append d).run m = (.ok m.count, m') ∧ m.appendPage d = some (m.count, m') := by
  cases ha : m.appendPage d with
  | none =>
    refine .inl ⟨?_, ?_⟩
    · rw [Prog.append, Prog.run]
      rw [ha]
    · unfold PageMap.appendPage at ha
      split at ha
      · cases ha
      · omega
  | some r =>
    obtain ⟨p, m'⟩ := r
    obtain ⟨rfl, -, -⟩ := appendPage_eq_some ha
    refine .inr ⟨m', ?_, rfl⟩
    rw [Prog.append, Prog.run]
    rw [ha]
    rfl

theorem count_of_appendPage {m m' : PageMap} {p : UInt32} {d : PageData}
    (h : m.appendPage d = some (p, m')) : m'.count.toNat = m.count.toNat + 1 := by
  obtain ⟨-, hc, rfl⟩ := appendPage_eq_some h
  show (m.count + 1).toNat = _
  rw [UInt32.toNat_add]
  exact Nat.mod_eq_of_lt hc

/-! ## Programs that end well -/

namespace Prog

variable {α β : Type} {m : PageMap}

/-- The program returns a value, or it panics because the file is full. -/
def Yields (p : Prog α) (m : PageMap) (Q : α → PageMap → Prop) : Prop :=
  (∃ m', p.run m = (.panic, m') ∧ UInt32.size ≤ m'.count.toNat + 1) ∨
    ∃ a m', p.run m = (.ok a, m') ∧ Q a m'

namespace Yields

variable {p : Prog α} {f : α → Prog β} {Q Q' : α → PageMap → Prop} {R : β → PageMap → Prop}

theorem of_run {a : α} {m' : PageMap} (h : p.run m = (.ok a, m')) (hq : Q a m') : p.Yields m Q :=
  .inr ⟨a, m', h, hq⟩

theorem pure {a : α} (h : Q a m) : (Pure.pure a : Prog α).Yields m Q := of_run (run_pure a m) h

theorem mono (h : p.Yields m Q) (hq : ∀ a m', Q a m' → Q' a m') : p.Yields m Q' := by
  rcases h with hpanic | ⟨a, m', hr, ha⟩
  · exact .inl hpanic
  · exact .inr ⟨a, m', hr, hq a m' ha⟩

theorem bind (h : p.Yields m Q) (hf : ∀ a m', Q a m' → (f a).Yields m' R) : (p >>= f).Yields m R := by
  unfold Yields
  rw [run_bind]
  rcases h with ⟨m', hr, hfull⟩ | ⟨a, m', hr, ha⟩
  · exact .inl ⟨m', by rw [hr, andThen_panic], hfull⟩
  · rw [hr, andThen_ok]
    exact hf a m' ha

theorem bind_run {a : α} {m' : PageMap} (h : p.run m = (.ok a, m')) (hf : (f a).Yields m' R) :
    (p >>= f).Yields m R :=
  bind (Q := fun b m'' => b = a ∧ m'' = m') (of_run h ⟨rfl, rfl⟩) fun _ _ hb => by
    rw [hb.1, hb.2]
    exact hf

theorem read {q : UInt32} {d : PageData} {f : PageData → Prog β} (h : m.pages q = some d)
    (hf : (f d).Yields m R) : (Prog.read q >>= f).Yields m R := bind_run (run_read h) hf

theorem write {q : UInt32} {d : PageData} {f : Unit → Prog β} (h : (m.pages q).isSome)
    (hf : (f ()).Yields (m.set q d) R) : (Prog.write q d >>= f).Yields m R := bind_run (run_write h) hf

theorem count {f : UInt32 → Prog β} (hf : (f m.count).Yields m R) : (Prog.count >>= f).Yields m R :=
  bind_run (run_count m) hf

theorem getHeader {f : FileHeader → Prog β} (hf : (f m.header).Yields m R) :
    (Prog.getHeader >>= f).Yields m R := bind_run (run_getHeader m) hf

/-- The appended page comes behind the others. -/
theorem append {d : PageData} {f : UInt32 → Prog β} (hf : ∀ m', m'.pages m.count = some d →
    (∀ q, q ≠ m.count → m'.pages q = m.pages q) → m'.count.toNat = m.count.toNat + 1 →
    m'.header = m.header → (f m.count).Yields m' R) : (Prog.append d >>= f).Yields m R := by
  rcases run_append_cases m d with ⟨hr, hfull⟩ | ⟨m', hr, ha⟩
  · refine bind (.inl ⟨m, hr, hfull⟩) (Q := fun _ _ => False) fun _ _ h => h.elim
  · refine bind_run hr ?_
    have hcount := count_of_appendPage ha
    obtain ⟨-, -, rfl⟩ := appendPage_eq_some ha
    exact hf _ (m.set_pages_self _ _) (fun q hq => m.set_pages_of_ne hq _) hcount rfl

theorem putHeader {hd : FileHeader} {Q : Unit → PageMap → Prop} (h : (m.pages 0).isSome)
    (hq : ∀ m', (m'.pages 0).isSome → (∀ q, q ≠ 0 → m'.pages q = m.pages q) → m'.count = m.count →
      m'.header = hd → Q () m') : (Prog.putHeader hd).Yields m Q := by
  refine of_run (run_putHeader h) (hq _ ?_ (fun q hq => m.set_pages_of_ne hq _) rfl rfl)
  show ((m.set 0 _).pages 0).isSome
  rw [m.set_pages_self]
  rfl

end Yields

end Prog

end ChiffonDB
