import ChiffonDB.Database.Rollback

/-!
# Transactions of a connection

`begin_transaction`, `commit_transaction` and `rollback_transaction` of `api/mod.rs`, between them
any operations of the database.

* `Reachable` — the states of a connection: created on a file or in memory, then calls,
  transactions and reopens in any order.
* `Reachable.inv` — in each of them the database represents its state and an open transaction can
  still be taken back.
* `rollback_exact` — **a rollback restores the state at the begin of the transaction, whatever ran
  in between**.
-/

set_option autoImplicit false

namespace ChiffonDB

open Journal

variable {Ast Registry Fields : Type} (R : SchemaReader Ast Registry Fields)

structure Connection (Fields : Type) where
  db : Database Fields
  pendingSnapshot : Option FileSnapshot

namespace Connection

/-- `Connection::create_with_max_memory`; creating a database flushes it. -/
def create (order : HashOrder) (opts : OpenOptions) : Connection Fields where
  db := ⟨((DatabaseFile.create [] opts).flush order).2, none⟩
  pendingSnapshot := none

/-- `Connection::open_in_memory`. -/
def openInMemory : Connection Fields where
  db := ⟨DatabaseFile.createInMemory, none⟩
  pendingSnapshot := none

/-- Drop the connection and open the files it leaves. -/
def reopen (c : Connection Fields) (order : HashOrder) (opts : OpenOptions) :
    Option (Connection Fields) :=
  match c.db.file.disk with
  | none => none
  | some disk =>
    match DatabaseFile.openInner order opts disk with
    | .error _ => none
    | .ok file => some ⟨⟨file, none⟩, none⟩

/-- Any other method: an operation of the database. -/
def call {α : Type} (c : Connection Fields) (p : DbProg Fields α) : Outcome α × Connection Fields :=
  ((p.exec R c.db).1, { c with db := (p.exec R c.db).2 })

def beginTransaction (c : Connection Fields) : Except String Unit × Connection Fields :=
  match c.pendingSnapshot with
  | some _ => (.error "transaction already in progress", c)
  | none => (.ok (), { c with pendingSnapshot := some c.db.takeSnapshot })

def commitTransaction (order : HashOrder) (c : Connection Fields) :
    Except String Unit × Connection Fields :=
  match c.pendingSnapshot with
  | none => (.error "no transaction in progress", c)
  | some _ =>
    match c.db.file.flush order with
    | (.ok (), file) => (.ok (), ⟨{ c.db with file := file }, none⟩)
    | (.error e, file) => (.error e.text, ⟨{ c.db with file := file }, none⟩)

def rollbackTransaction (c : Connection Fields) : Except String Unit × Connection Fields :=
  match c.pendingSnapshot with
  | none => (.error "no transaction in progress", c)
  | some snap => (.ok (), ⟨c.db.restoreSnapshot snap, none⟩)

/-- Calls in sequence, whatever each of them returns. -/
def calls {α : Type} (c : Connection Fields) : List (DbProg Fields α) → Connection Fields
  | [] => c
  | p :: ps => calls (c.call R p).2 ps

end Connection

/-- A new database: a header page and no schema. -/
def DbState.new (durable : Bool) : DbState := ⟨{ PageMap.fresh with durable := durable }, []⟩

/-- The states of a connection, each with the state its database represents and, in a transaction,
    the state at its begin. -/
inductive Reachable : Connection Fields → DbState → Option DbState → Prop where
  | create (order : HashOrder) (opts : OpenOptions) :
      Reachable (.create order opts) (.new true) none
  | openInMemory : Reachable .openInMemory (.new false) none
  | call {c : Connection Fields} {s : DbState} {q : Option DbState} (h : Reachable c s q) {α : Type}
      {p : DbProg Fields α} (hp : p.Careful R s) (hrun : (p.run R s).1 ≠ .panic) :
      Reachable (c.call R p).2 (p.run R s).2 q
  | beginTransaction {c : Connection Fields} {s : DbState} (h : Reachable c s none) :
      Reachable c.beginTransaction.2 s (some s)
  | commitTransaction {c : Connection Fields} {s s₀ : DbState} (h : Reachable c s (some s₀))
      (order : HashOrder) : Reachable (c.commitTransaction order).2 s none
  | rollbackTransaction {c : Connection Fields} {s s₀ : DbState} (h : Reachable c s (some s₀)) :
      Reachable c.rollbackTransaction.2 s₀ none
  | reopen {c c' : Connection Fields} {s : DbState} {q : Option DbState} (h : Reachable c s q)
      {order : HashOrder} {opts : OpenOptions} (hopen : c.reopen order opts = some c') :
      Reachable c' s none

/-! ## Files of a database -/

theorem IsFile.durable {db : DatabaseFile} {m : PageMap} (h : IsFile db m) :
    IsFile db { m with durable := true } := by
  obtain ⟨main, wal, cache, es, hi⟩ := h
  exact ⟨main, wal, cache, es, hi.backend, hi.layers, hi.sized, hi.pages, hi.header, hi.count,
    hi.page0, hi.version⟩

theorem Sound.of_isFile {db : DatabaseFile} {m : PageMap} (h : IsFile db m) (hd : m.durable = true) :
    Sound db m := by
  obtain ⟨main, wal, cache, es, hi⟩ := id h
  refine ⟨?_, fun p => hi.exists_page, hi.page0, hi.version, fun _ => h⟩
  obtain ⟨b, hdr, cnt⟩ := db
  obtain rfl : b = .file main wal cache := hi.backend
  obtain ⟨du, pages, hdr', cnt'⟩ := m
  obtain rfl : du = true := hd
  obtain rfl : hdr = hdr' := hi.header
  obtain rfl : cnt = cnt' := hi.count
  obtain rfl : pages = _ := hi.pages
  exact .file hi.layers hdr cnt

theorem Sound.durable {db : DatabaseFile} {m : PageMap} (h : Sound db m) (hf : db.isInMemory = false) :
    m.durable = true := by
  cases h.pages with
  | file => rfl
  | memory => cases hf

theorem Sound.createInMemory : Sound DatabaseFile.createInMemory PageMap.fresh where
  pages := MemoryInv.create.pages
  exists_page := MemoryInv.create.exists_page
  page0 := by simp [PageMap.fresh]
  version := rfl
  file h := by cases h

/-- **Dropping a sound file without a flush loses nothing.** -/
theorem Sound.reopen {db : DatabaseFile} {m : PageMap} (h : Sound db m) {disk : Disk}
    (hd : db.disk = some disk) (order : HashOrder) (opts : OpenOptions) :
    ∃ db', DatabaseFile.openInner order opts disk = .ok db' ∧ Sound db' m := by
  have hf : db.isInMemory = false := by
    obtain ⟨b, hdr, cnt⟩ := db
    cases b with
    | file => rfl
    | memory => cases hd
  obtain ⟨main, wal, cache, es, hi⟩ := h.file hf
  obtain ⟨disk', db', hd', hopen, hi'⟩ := hi.reopen order opts
  rw [hd] at hd'
  cases hd'
  exact ⟨db', hopen, .of_isFile hi' (h.durable hf)⟩

theorem Sound.flush {db : DatabaseFile} {m : PageMap} (h : Sound db m) (order : HashOrder) :
    (db.flush order).1 = .ok () ∧ Sound (db.flush order).2 m := by
  obtain ⟨b, hdr, cnt⟩ := db
  cases b with
  | memory data => exact ⟨rfl, h⟩
  | file main wal cache =>
    obtain ⟨main', wal', cache', es, hi⟩ := h.file rfl
    obtain ⟨hr, hf⟩ := hi.flush order
    refine ⟨?_, .of_isFile hf (h.durable rfl)⟩
    cases hx : (DatabaseFile.flush ⟨.file main wal cache, hdr, cnt⟩ order).1 with
    | ok u => rfl
    | error e =>
      rw [hx] at hr
      cases hr

/-! ## The invariant of a connection -/

/-- The database represents `s`; in a transaction that began at `s₀`, restoring its snapshot gives
    a database that represents `s₀`. -/
def ConnectionInv (c : Connection Fields) (s : DbState) : Option DbState → Prop
  | none => Represents R c.db s ∧ c.pendingSnapshot = none
  | some s₀ => Represents R c.db s ∧ ∃ snap b, c.pendingSnapshot = some snap ∧
      Base.Under b c.db.file ∧
      ∀ D' : Database Fields, b.Under D'.file → Represents R (D'.restoreSnapshot snap) s₀

variable {R}

theorem ConnectionInv.represents {c : Connection Fields} {s : DbState} {q : Option DbState}
    (h : ConnectionInv R c s q) : Represents R c.db s := by
  cases q with
  | none => exact h.1
  | some s₀ => exact h.1

theorem Represents.new {db : DatabaseFile} {durable : Bool}
    (h : Sound db { PageMap.fresh with durable := durable }) :
    Represents R (⟨db, none⟩ : Database Fields) (.new durable) where
  sound := h
  stored := { schemas := by simp [DbState.new], current := .inl rfl }
  cache c hc := by cases hc

theorem ConnectionInv.beginTransaction {c : Connection Fields} {s : DbState}
    (h : ConnectionInv R c s none) : ConnectionInv R c.beginTransaction.2 s (some s) := by
  obtain ⟨hrep, hnone⟩ := h
  obtain ⟨b, hb, hrest⟩ := hrep.base
  unfold Connection.beginTransaction
  rw [hnone]
  exact ⟨hrep, _, b, rfl, hb, hrest⟩

theorem ConnectionInv.rollbackTransaction {c : Connection Fields} {s s₀ : DbState}
    (h : ConnectionInv R c s (some s₀)) : ConnectionInv R c.rollbackTransaction.2 s₀ none := by
  obtain ⟨-, snap, b, hsnap, hb, hrest⟩ := h
  unfold Connection.rollbackTransaction
  rw [hsnap]
  exact ⟨hrest _ hb, rfl⟩

theorem ConnectionInv.call {c : Connection Fields} {s : DbState} {q : Option DbState}
    (h : ConnectionInv R c s q) {α : Type} {p : DbProg Fields α} (hp : p.Careful R s)
    (hrun : (p.run R s).1 ≠ .panic) : ConnectionInv R (c.call R p).2 (p.run R s).2 q := by
  have hrep := (h.represents.exec hp).2 hrun
  cases q with
  | none => exact ⟨hrep, h.2⟩
  | some s₀ =>
    obtain ⟨-, snap, b, hsnap, hb, hrest⟩ := h
    exact ⟨hrep, snap, b, hsnap, hb.exec p, hrest⟩

theorem ConnectionInv.commitTransaction {c : Connection Fields} {s s₀ : DbState}
    (h : ConnectionInv R c s (some s₀)) (order : HashOrder) :
    ConnectionInv R (c.commitTransaction order).2 s none := by
  obtain ⟨hrep, snap, b, hsnap, -, -⟩ := h
  obtain ⟨hok, hs⟩ := hrep.sound.flush order
  unfold Connection.commitTransaction
  rw [hsnap]
  cases hx : c.db.file.flush order with
  | mk r file =>
    rw [hx] at hok hs
    obtain rfl : r = .ok () := hok
    exact ⟨⟨hs, hrep.stored, hrep.cache⟩, rfl⟩

theorem ConnectionInv.reopen {c c' : Connection Fields} {s : DbState} {q : Option DbState}
    (h : ConnectionInv R c s q) {order : HashOrder} {opts : OpenOptions}
    (hopen : c.reopen order opts = some c') : ConnectionInv R c' s none := by
  have hrep := h.represents
  unfold Connection.reopen at hopen
  cases hd : c.db.file.disk with
  | none => rw [hd] at hopen; cases hopen
  | some disk =>
    obtain ⟨db', ho, hs⟩ := hrep.sound.reopen hd order opts
    rw [hd] at hopen
    simp only [ho] at hopen
    cases hopen
    refine ⟨⟨hs, hrep.stored, ?_⟩, rfl⟩
    intro c hc
    cases hc

/-- **Every reachable state is sound, and every open transaction can be taken back.** -/
theorem Reachable.inv {c : Connection Fields} {s : DbState} {q : Option DbState}
    (h : Reachable R c s q) : ConnectionInv R c s q := by
  induction h with
  | create order opts =>
    have hf : Sound (DatabaseFile.create [] opts) { PageMap.fresh with durable := true } :=
      .of_isFile (IsFile.create opts).durable rfl
    exact ⟨.new (hf.flush order).2, rfl⟩
  | openInMemory => exact ⟨.new Sound.createInMemory, rfl⟩
  | call h hp hrun ih => exact ih.call hp hrun
  | beginTransaction h ih => exact ih.beginTransaction
  | commitTransaction h order ih => exact ih.commitTransaction order
  | rollbackTransaction h ih => exact ih.rollbackTransaction
  | reopen h hopen ih => exact ih.reopen hopen

/-! ## Rollback -/

variable (R)

/-- **`c'` is as `c` was**: the pages, the header and the page count, the result of every later
    operation, and what a reopen without a further flush recovers. -/
structure RolledBack (c c' : Connection Fields) (s : DbState) : Prop where
  pages : ∀ p, (c'.db.file.readPage p).1 = (c.db.file.readPage p).1
  header : c'.db.file.header = c.db.file.header
  pageCount : c'.db.file.pageCount = c.db.file.pageCount
  ended : c'.pendingSnapshot = none
  later : ∀ {α : Type} (p : DbProg Fields α), p.Careful R s →
    (c'.call R p).1 = (c.call R p).1
  reopened : ∀ disk, c'.db.file.disk = some disk → ∀ order opts, ∃ file,
    DatabaseFile.openInner order opts disk = .ok file ∧
      (∀ p, (file.readPage p).1 = (c.db.file.readPage p).1) ∧
      file.header = c.db.file.header ∧ file.pageCount = c.db.file.pageCount

variable {R}

theorem Represents.rolledBack {c c' : Connection Fields} {s : DbState} (h : Represents R c.db s)
    (h' : Represents R c'.db s) (hend : c'.pendingSnapshot = none) : RolledBack R c c' s where
  pages p := by rw [(h'.sound.readPage p).1, (h.sound.readPage p).1]
  header := by rw [h'.sound.pages.header, h.sound.pages.header]
  pageCount := by rw [h'.sound.pages.pageCount, h.sound.pages.pageCount]
  ended := hend
  later p hp := by
    unfold Connection.call
    rw [(h'.exec hp).1, (h.exec hp).1]
  reopened disk hd order opts := by
    obtain ⟨file, hopen, hs⟩ := h'.sound.reopen hd order opts
    refine ⟨file, hopen, fun p => ?_, ?_, ?_⟩
    · rw [(hs.readPage p).1, (h.sound.readPage p).1]
    · rw [hs.pages.header, h.sound.pages.header]
    · rw [hs.pages.pageCount, h.sound.pages.pageCount]

theorem Base.Under.calls {b : Base} {α : Type} {c : Connection Fields} (h : b.Under c.db.file)
    (ps : List (DbProg Fields α)) : b.Under (c.calls R ps).db.file := by
  induction ps generalizing c with
  | nil => exact h
  | cons p ps ih => exact ih (h.exec p)

theorem Connection.calls_pending {α : Type} (c : Connection Fields) (ps : List (DbProg Fields α)) :
    (c.calls R ps).pendingSnapshot = c.pendingSnapshot := by
  induction ps generalizing c with
  | nil => rfl
  | cons p ps ih => exact ih _

/-- **Rollback is exact**: from any reachable state on either backend, and whatever operations run
    in the transaction, including failed ones with snapshots of their own. -/
theorem rollback_exact {α : Type} {c : Connection Fields} {s : DbState} (h : Reachable R c s none)
    (ps : List (DbProg Fields α)) :
    c.beginTransaction.1 = .ok () ∧
    ((c.beginTransaction.2.calls R ps).rollbackTransaction).1 = .ok () ∧
    RolledBack R c ((c.beginTransaction.2.calls R ps).rollbackTransaction).2 s := by
  obtain ⟨hrep, hnone⟩ := h.inv
  obtain ⟨b, hb, hrest⟩ := hrep.base
  have hbegin : c.beginTransaction = (.ok (), { c with pendingSnapshot := some c.db.takeSnapshot }) := by
    unfold Connection.beginTransaction
    rw [hnone]
  have hunder : b.Under (c.beginTransaction.2.calls R ps).db.file := by
    rw [hbegin]
    exact Base.Under.calls (c := { c with pendingSnapshot := some c.db.takeSnapshot }) hb ps
  have hpend : (c.beginTransaction.2.calls R ps).pendingSnapshot = some c.db.takeSnapshot := by
    rw [Connection.calls_pending, hbegin]
  unfold Connection.rollbackTransaction
  rw [hpend]
  exact ⟨by rw [hbegin], rfl, hrep.rolledBack (hrest _ hunder) rfl⟩

/-- A reader that finds an empty schema in any bytes. -/
def SchemaReader.empty : SchemaReader Unit Unit Unit := ⟨fun _ => .ok (), fun _ => .ok (), fun _ _ => ()⟩

/-- A new file: an append that succeeds, then a block that writes the new page and fails. -/
theorem rollback_exact_append : RolledBack SchemaReader.empty (.create .id ⟨PAGE_SIZE⟩)
    (((Connection.create .id ⟨PAGE_SIZE⟩).beginTransaction.2.calls SchemaReader.empty
      [.file (Prog.append .zero) fun _ => .pure (),
       .attempt (.file (Prog.write 1 .zero) fun _ => (.throw .io : DbProg Unit Unit))
        fun _ => .pure ()]).rollbackTransaction).2 (.new true) :=
  (rollback_exact (.create .id ⟨PAGE_SIZE⟩) _).2.2

end ChiffonDB
