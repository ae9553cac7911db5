import ChiffonDB.Database.Program

/-!
# Snapshots of a database

What lies under an outstanding snapshot stays: no operation checkpoints the log, so the log only
grows behind the snapshot's length, and nested snapshots cut it back no further than to their own.

* `Base.Under.exec` — **every operation, whatever it does, leaves the base of a snapshot in place**.
* `Sound.base` — restoring the snapshot of a sound file gives a file that is sound for the same map.
* `Represents.exec` — a careful operation cannot tell a database from the state it represents.
-/

set_option autoImplicit false

namespace ChiffonDB

open Bytes Journal

/-! ## The base of a snapshot -/

/-- What a snapshot rests on: the main file and the entries logged before it, or, in memory,
    nothing but its own copy. -/
inductive Base where
  | file (main : ByteFile) (es : List WalEntry)
  | memory

/-- The file still has the base: the log extends it and the main file is untouched. -/
def Base.Under : Base → DatabaseFile → Prop
  | .file main es, db => ∃ wal cache fs rest, db.backend = .file main wal cache ∧
      FileShows main wal cache (es ++ fs) rest
  | .memory, db => ∃ data, db.backend = .memory data

namespace Base.Under

variable {b : Base} {db : DatabaseFile}

theorem readPage (h : b.Under db) (p : UInt32) : b.Under (db.readPage p).2 := by
  obtain ⟨bk, hdr, cnt⟩ := db
  cases b with
  | file main es =>
    obtain ⟨wal, cache, fs, rest, hb, hl⟩ := h
    obtain rfl : bk = .file main wal cache := hb
    obtain ⟨cache', hr, hl'⟩ := hl.readPage p
    refine ⟨wal, cache', fs, rest, ?_, hl'⟩
    unfold DatabaseFile.readPage
    rw [hr]
  | memory =>
    obtain ⟨data, hb⟩ := h
    obtain rfl : bk = .memory data := hb
    refine ⟨data, ?_⟩
    unfold DatabaseFile.readPage StorageBackend.readPage
    dsimp only
    split <;> rfl

theorem writePage (h : b.Under db) (p : UInt32) (d : PageData) : b.Under (db.writePage p d).2 := by
  obtain ⟨bk, hdr, cnt⟩ := db
  cases b with
  | file main es =>
    obtain ⟨wal, cache, fs, rest, hb, hl⟩ := h
    obtain rfl : bk = .file main wal cache := hb
    have hw := hl.writePage p d
    rw [List.append_assoc] at hw
    exact ⟨_, _, _, _, rfl, hw⟩
  | memory =>
    obtain ⟨data, hb⟩ := h
    obtain rfl : bk = .memory data := hb
    unfold DatabaseFile.writePage StorageBackend.writePage
    dsimp only
    split
    · exact ⟨_, rfl⟩
    · exact ⟨_, rfl⟩

theorem appendPage (h : b.Under db) {p : UInt32} {d : PageData} {db' : DatabaseFile}
    (ha : db.appendPage d = some (p, db')) : b.Under db' := by
  obtain ⟨bk, hdr, cnt⟩ := db
  unfold DatabaseFile.appendPage at ha
  dsimp only at ha
  split at ha
  swap
  · cases ha
  cases ha
  cases b with
  | file main es =>
    obtain ⟨wal, cache, fs, rest, hb, hl⟩ := h
    obtain rfl : bk = .file main wal cache := hb
    have hw := hl.writePage p d
    rw [List.append_assoc] at hw
    exact ⟨_, _, _, _, rfl, hw⟩
  | memory =>
    obtain ⟨data, hb⟩ := h
    obtain rfl : bk = .memory data := hb
    exact ⟨_, rfl⟩

theorem setHeader (h : b.Under db) (hd : FileHeader) : b.Under { db with header := hd } := by
  cases b with
  | file main es => exact h
  | memory => exact h

/-- **No page program reaches below the snapshot.** -/
theorem execProg {α : Type} (h : b.Under db) (p : Prog α) : b.Under (p.exec db).2 := by
  induction p generalizing db with
  | pure a => exact h
  | throw e => exact h
  | panic => exact h
  | readPage p k ih => exact ih _ (h.readPage p)
  | writePage p d k ih => exact ih _ (h.writePage p d)
  | appendPage d k ih =>
    unfold Prog.exec
    cases ha : db.appendPage d with
    | none => exact h
    | some r => exact ih _ (h.appendPage ha)
  | pageCount k ih => exact ih _ h
  | header k ih => exact ih _ h
  | writeHeader hd k ih => exact ih _ ((h.setHeader hd).writePage 0 _)

/-- A snapshot taken above the base is itself a base, and restoring it keeps the first one. -/
theorem nested (h : b.Under db) : ∃ b' : Base, b'.Under db ∧
    ∀ db', b'.Under db' → b.Under (db'.restore db.snapshot) := by
  obtain ⟨bk, hdr, cnt⟩ := db
  cases b with
  | file main es =>
    obtain ⟨wal, cache, fs, rest, hb, hl⟩ := h
    obtain rfl : bk = .file main wal cache := hb
    refine ⟨.file main (es ++ fs), ⟨wal, cache, [], rest, rfl, by rwa [List.append_nil]⟩, ?_⟩
    rintro ⟨bk', hdr', cnt'⟩ ⟨wal', cache', gs, rest', hb', hl'⟩
    obtain rfl : bk' = .file main wal' cache' := hb'
    refine ⟨wal'.truncateTo ((es ++ fs).length * WAL_ENTRY_SIZE), cache'.clear, fs, [], ?_, hl'.restore⟩
    show StorageBackend.file main (wal'.truncateTo wal.len) cache'.clear = _
    rw [hl.log.len]
  | memory =>
    obtain ⟨data, hb⟩ := h
    obtain rfl : bk = .memory data := hb
    refine ⟨.memory, ⟨data, rfl⟩, ?_⟩
    rintro ⟨bk', hdr', cnt'⟩ ⟨data', hb'⟩
    obtain rfl : bk' = .memory data' := hb'
    exact ⟨data, rfl⟩

variable {Ast Registry Fields : Type} {R : SchemaReader Ast Registry Fields}

theorem lookupDeclared {D : Database Fields} (h : b.Under D.file) :
    b.Under (D.lookupDeclared R).2.file := by
  unfold Database.lookupDeclared
  dsimp only
  split
  · exact h
  split
  · exact h
  · have hx := h.execProg (loadDeclared R)
    split
    all_goals
      rename_i heq
      rw [heq] at hx
      exact hx

/-- **No operation reaches below the snapshot.** -/
theorem exec {α : Type} {D : Database Fields} (h : b.Under D.file) (p : DbProg Fields α) :
    b.Under (p.exec R D).2.file := by
  induction p generalizing b D with
  | pure a => exact h
  | throw e => exact h
  | panic => exact h
  | file p k ih =>
    have hx := h.execProg p
    unfold DbProg.exec
    split
    all_goals
      rename_i heq
      rw [heq] at hx
    · exact ih _ hx
    · exact ih _ hx
    · exact hx
  | writeSchema bytes k ih =>
    have hx := h.execProg (writeSchemaBytes bytes)
    unfold DbProg.exec
    split
    all_goals
      rename_i heq
      rw [heq] at hx
    · exact ih _ hx
    · exact ih _ hx
    · exact hx
  | declaredFields k ih =>
    have hx := h.lookupDeclared (R := R)
    unfold DbProg.exec
    split
    all_goals
      rename_i heq
      rw [heq] at hx
    · exact ih _ hx
    · exact ih _ hx
    · exact hx
  | attempt body k ihb ihk =>
    unfold DbProg.exec
    split
    all_goals rename_i heq
    · have hx := ihb h
      rw [heq] at hx
      exact ihk _ hx
    · -- the body's snapshot rests on the base, too
      obtain ⟨b', hb', hrest⟩ := h.nested
      have hx := ihb hb'
      rw [heq] at hx
      exact ihk _ (hrest _ hx)
    · have hx := ihb h
      rw [heq] at hx
      exact hx

end Base.Under

/-- **Restoring the snapshot of a sound file gives back what the file showed.** -/
theorem Sound.base {db : DatabaseFile} {m : PageMap} (h : Sound db m) :
    ∃ b : Base, b.Under db ∧ ∀ db', b.Under db' → Sound (db'.restore db.snapshot) m := by
  obtain ⟨bk, hdr, cnt⟩ := db
  cases bk with
  | memory data =>
    refine ⟨.memory, ⟨data, rfl⟩, ?_⟩
    rintro ⟨bk', hdr', cnt'⟩ ⟨data', hb'⟩
    obtain rfl : bk' = .memory data' := hb'
    exact h
  | file main₀ wal₀ cache₀ =>
    obtain ⟨main, wal, cache, es, hi⟩ := h.file rfl
    obtain ⟨rfl, rfl, rfl⟩ : main₀ = main ∧ wal₀ = wal ∧ cache₀ = cache := by
      have := hi.backend
      injection this with h1 h2 h3
      exact ⟨h1, h2, h3⟩
    refine ⟨.file main₀ es, ⟨wal₀, cache₀, [], [], rfl, by rw [List.append_nil]; exact hi.layers⟩, ?_⟩
    rintro ⟨bk', hdr', cnt'⟩ ⟨wal', cache', fs, rest', hb', hl'⟩
    obtain rfl : bk' = .file main₀ wal' cache' := hb'
    have hback : (DatabaseFile.restore ⟨.file main₀ wal' cache', hdr', cnt'⟩
        (DatabaseFile.snapshot ⟨.file main₀ wal₀ cache₀, hdr, cnt⟩)) =
        ⟨.file main₀ (wal'.truncateTo (es.length * WAL_ENTRY_SIZE)) cache'.clear, hdr, cnt⟩ := by
      show DatabaseFile.mk (.file main₀ (wal'.truncateTo wal₀.len) cache'.clear) hdr cnt = _
      rw [hi.layers.log.len]
    have hr := hl'.restore
    have hm : m = ⟨true, overlay es (mainPages main₀), hdr, cnt⟩ := by
      have hp := hi.pages
      have hh := hi.header
      have hc := hi.count
      cases h.pages with
      | file => rw [← hp]
    rw [hback]
    refine ⟨?_, h.exists_page, h.page0, h.version, fun _ => ?_⟩
    · rw [hm]
      exact .file hr hdr cnt
    · exact ⟨_, _, _, es, rfl, hr, hi.sized, hi.pages, hi.header, hi.count, hi.page0, hi.version⟩

/-! ## What a database stands for -/

variable {Ast Registry Fields : Type} (R : SchemaReader Ast Registry Fields)

/-- The declared fields of a schema with this serialization. -/
def declaredOf (bytes : List UInt8) : Outcome (Option Fields) :=
  match R.ast bytes with
  | .error (.schemaError _) => .ok none
  | .error e => .err e
  | .ok ast =>
    match R.registry bytes with
    | .error e => .err e
    | .ok registry => .ok (some (R.declared ast registry))

theorem run_ofExcept {α : Type} (r : Except GraphError α) (m : PageMap) :
    (Prog.ofExcept r).run m = match r with
      | .ok a => (.ok a, m)
      | .error e => (.err e, m) := by
  cases r <;> rfl

/-- Loading the declared fields depends on the stored bytes alone. -/
theorem run_loadDeclared {m : PageMap} {bytes : List UInt8}
    (h : SchemaAt m m.header.schemaRoot bytes) :
    (loadDeclared R).run m = (declaredOf R bytes, m) := by
  have hload : (loadSchemaBytes >>= fun bytes => Prog.ofExcept (R.ast bytes)).run m =
      (Prog.ofExcept (R.ast bytes)).run m := by
    rw [Prog.run_bind, run_loadSchemaBytes h, Prog.andThen_ok]
  unfold loadDeclared declaredOf
  rw [Prog.run_bind, Prog.run_attempt, hload, run_ofExcept]
  cases R.ast bytes with
  | error e => cases e <;> rfl
  | ok ast =>
    dsimp only
    rw [Prog.andThen_ok, Prog.run_bind, run_loadSchemaBytes h, Prog.andThen_ok, Prog.run_bind,
      run_ofExcept]
    cases R.registry bytes <;> rfl

theorem readOnly_loadDeclared : (loadDeclared R).ReadOnly := by
  refine Prog.ReadOnly.bind (Prog.ReadOnly.attempt (readOnly_loadSchemaBytes.bind
    fun bytes => Prog.readOnly_ofExcept _)) fun r => ?_
  split
  · trivial
  · trivial
  · exact readOnly_loadSchemaBytes.bind fun bytes =>
      (Prog.readOnly_ofExcept _).bind fun registry => trivial

/-- The stored schemas are on their pages, and the header points at one of them. -/
structure DbState.Stored (s : DbState) : Prop where
  schemas : ∀ e ∈ s.schemas, SchemaAt s.map e.1 e.2
  current : s.map.header.schemaRoot = 0 ∨ ∃ e ∈ s.schemas, e.1 = s.map.header.schemaRoot

/-- `D` is a sound database with the pages of `s`, and its cache holds the fields of the stored
    schema it names. -/
structure Represents (D : Database Fields) (s : DbState) : Prop where
  sound : Sound D.file s.map
  stored : s.Stored
  cache : ∀ c, D.declaredFields = some c →
    ∃ e ∈ s.schemas, e.1 = c.schemaRoot ∧ declaredOf R e.2 = .ok (some c.fields)

namespace DbState.Stored

variable {s : DbState}

theorem frozen_of_on (h : s.Stored) {e : UInt32 × List UInt8} (he : e ∈ s.schemas) {p : UInt32}
    (hp : OnSchema e.1 e.2 p) : p ≠ 0 ∧ p < s.map.count := by
  have hs := h.schemas e he
  have hfits := hs.fits
  have hr : e.1.toNat ≠ 0 := fun he => hs.root_ne (UInt32.toNat_inj.1 he)
  obtain ⟨h1, h2⟩ := hp
  refine ⟨?_, UInt32.lt_iff_toNat_lt.2 (by omega)⟩
  rintro rfl
  exact hr (Nat.le_zero.1 h1)

/-- A careful page program keeps the stored schemas. -/
theorem kept (h : s.Stored) {m : PageMap} (hk : Kept s.Frozen s.map m) :
    DbState.Stored { s with map := m } where
  schemas e he := (h.schemas e he).congr hk.count fun p hp => by
    obtain ⟨h0, hlt⟩ := h.frozen_of_on he hp
    exact hk.pages p ⟨e, he, hp⟩ h0 hlt
  current := by
    show m.header.schemaRoot = 0 ∨ ∃ e ∈ s.schemas, e.1 = m.header.schemaRoot
    rw [hk.schemaRoot]
    exact h.current

/-- A schema write adds a stored schema and makes it the current one. -/
theorem write (h : s.Stored) {m₁ : PageMap} {header : FileHeader} {bytes : List UInt8}
    (hpos : 0 < s.map.count) (ha : Appended s.map m₁ (writeBlobChain bytes))
    (hroot : header.schemaRoot = s.map.count) :
    DbState.Stored ⟨{ m₁.set 0 header.serialize with header := header },
      (s.map.count, bytes) :: s.schemas⟩ := by
  have hset : ∀ {root bytes}, SchemaAt m₁ root bytes →
      SchemaAt { m₁.set 0 header.serialize with header := header } root bytes := by
    intro root bytes hs
    refine hs.congr (Nat.le_refl _) fun p hp => m₁.set_pages_of_ne ?_ _
    rintro rfl
    exact hs.root_ne (UInt32.toNat_inj.1 (Nat.le_zero.1 hp.1))
  constructor
  · intro e he
    rcases List.mem_cons.1 he with rfl | he
    · exact hset (schemaAt_of_appended hpos ha)
    · refine hset ((h.schemas e he).congr (by rw [ha.count]; omega) fun p hp => ?_)
      exact ha.old p (.inl (UInt32.lt_iff_toNat_lt.1 (h.frozen_of_on he hp).2))
  · exact .inr ⟨_, List.mem_cons_self, hroot.symm⟩

theorem declared_eq (h : s.Stored) (hroot : s.map.header.schemaRoot ≠ 0) :
    ∃ e ∈ s.schemas, e.1 = s.map.header.schemaRoot ∧ s.declared R = declaredOf R e.2 ∧
      (loadDeclared R).run s.map = (declaredOf R e.2, s.map) := by
  rcases h.current with h0 | ⟨e, he, hr⟩
  · exact absurd h0 hroot
  have hs := h.schemas e he
  rw [hr] at hs
  have hrun := run_loadDeclared R hs
  refine ⟨e, he, hr, ?_, hrun⟩
  unfold DbState.declared
  rw [if_neg hroot, hrun]

/-- Two entries at one root are the same schema. -/
theorem unique (h : s.Stored) {e e' : UInt32 × List UInt8} (he : e ∈ s.schemas)
    (he' : e' ∈ s.schemas) (hr : e.1 = e'.1) : e.2 = e'.2 := by
  -- load both from one map whose header points at the common root
  let m : PageMap := { s.map with header := { s.map.header with schemaRoot := e.1 } }
  have hs : SchemaAt m m.header.schemaRoot e.2 :=
    (h.schemas e he).congr (Nat.le_refl _) fun _ _ => rfl
  have hs' : SchemaAt m m.header.schemaRoot e'.2 := by
    have := h.schemas e' he'
    rw [← hr] at this
    exact this.congr (Nat.le_refl _) fun _ _ => rfl
  have heq := (run_loadSchemaBytes hs).symm.trans (run_loadSchemaBytes hs')
  injection heq with heq _
  injection heq

end DbState.Stored

namespace Represents

variable {R} {D : Database Fields} {s : DbState}

/-- **A lookup answers from the cache what loading the stored schema gives.** -/
theorem lookupDeclared (h : Represents R D s) :
    (D.lookupDeclared R).1 = s.declared R ∧ Represents R (D.lookupDeclared R).2 s := by
  have hhdr : D.file.header = s.map.header := h.sound.pages.header
  unfold Database.lookupDeclared
  rw [hhdr]
  dsimp only
  by_cases h0 : s.map.header.schemaRoot = 0
  · rw [if_pos h0]
    refine ⟨?_, h⟩
    unfold DbState.declared
    rw [if_pos h0]
  rw [if_neg h0]
  obtain ⟨e, he, hr, hdecl, hrun⟩ := h.stored.declared_eq R h0
  split
  · rename_i c hc
    obtain ⟨hc, hmatch⟩ := Option.filter_eq_some_iff.1 hc
    obtain ⟨e', he', hr', hd⟩ := h.cache c hc
    have hroot : c.schemaRoot = s.map.header.schemaRoot := by
      simp only [Bool.and_eq_true, beq_iff_eq] at hmatch
      exact hmatch.2
    refine ⟨?_, h⟩
    rw [hdecl, h.stored.unique he he' (by rw [hr, hr', hroot]), hd]
  · obtain ⟨hres, hsound⟩ := h.sound.exec ((readOnly_loadDeclared R).within (fun _ => False)
      (fun _ _ => True) s.map)
    rw [hrun] at hres hsound
    split
    · rename_i fields file hx
      rw [hx] at hres hsound
      refine ⟨by rw [hdecl]; exact hres, hsound, h.stored, ?_⟩
      rintro c hc
      cases hc
      exact ⟨e, he, hr, hres.symm⟩
    · rename_i r file _ hx
      rw [hx] at hres hsound
      exact ⟨by rw [hdecl]; exact hres, hsound, h.stored, h.cache⟩

theorem file_ok (h : Represents R D s) {α : Type} {p : Prog α} (hp : p.Careful s.Frozen s.map) :
    (p.exec D.file).1 = (p.run s.map).1 ∧
      Represents R { D with file := (p.exec D.file).2 } { s with map := (p.run s.map).2 } := by
  obtain ⟨hr, hs⟩ := h.sound.exec hp
  exact ⟨hr, hs, h.stored.kept hp.kept, h.cache⟩

theorem writeSchema_ok (h : Represents R D s) (bytes : List UInt8) :
    ((writeSchemaBytes bytes).exec D.file).1 = ((writeSchemaBytes bytes).run s.map).1 ∧
      (((writeSchemaBytes bytes).run s.map).1 = .panic ∨
        ((writeSchemaBytes bytes).run s.map).1 = .ok () ∧
        Represents R { D with file := ((writeSchemaBytes bytes).exec D.file).2 }
          ⟨((writeSchemaBytes bytes).run s.map).2, (s.map.count, bytes) :: s.schemas⟩) := by
  obtain ⟨hr, hs⟩ := h.sound.exec (@within_writeSchemaBytes s.Frozen s.map h.sound.version bytes)
  refine ⟨hr, ?_⟩
  have h0 : (s.map.pages 0).isSome := by rw [h.sound.page0]; rfl
  rcases run_writeSchemaBytes h0 h.sound.pos bytes with ⟨hp, -⟩ | ⟨m₁, header, ha, hh, hrun⟩
  · exact .inl hp
  · rw [hrun] at hs ⊢
    refine .inr ⟨rfl, hs, h.stored.write h.sound.pos ha (by rw [hh]), ?_⟩
    intro c hc
    obtain ⟨e, he, hce⟩ := h.cache c hc
    exact ⟨e, List.mem_cons_of_mem _ he, hce⟩

/-- Restoring a snapshot of `D` over anything its operations left. -/
theorem base (h : Represents R D s) : ∃ b : Base, b.Under D.file ∧
    ∀ D' : Database Fields, b.Under D'.file → Represents R (D'.restoreSnapshot D.takeSnapshot) s := by
  obtain ⟨b, hb, hrest⟩ := h.sound.base
  refine ⟨b, hb, fun D' hD' => ⟨hrest _ hD', h.stored, ?_⟩⟩
  intro c hc
  cases hc

/-- **A careful operation cannot tell the database from the state it represents.** -/
theorem exec {α : Type} {p : DbProg Fields α} (h : Represents R D s) (hp : p.Careful R s) :
    (p.exec R D).1 = (p.run R s).1 ∧
      ((p.run R s).1 ≠ .panic → Represents R (p.exec R D).2 (p.run R s).2) := by
  induction p generalizing D s with
  | pure a => exact ⟨rfl, fun _ => h⟩
  | throw e => exact ⟨rfl, fun _ => h⟩
  | panic => exact ⟨rfl, fun hne => absurd rfl hne⟩
  | file p k ih =>
    unfold DbProg.Careful at hp
    obtain ⟨hp, hk⟩ := hp
    obtain ⟨hr, h'⟩ := h.file_ok hp
    unfold DbProg.exec DbProg.run
    cases hx : p.exec D.file with
    | mk r file =>
      cases hy : p.run s.map with
      | mk r' m =>
        rw [hx, hy] at hr h'
        rw [hy] at hk
        obtain rfl : r = r' := hr
        cases r with
        | ok a => exact ih _ h' hk
        | err e => exact ih _ h' hk
        | panic => exact ⟨rfl, fun hne => absurd rfl hne⟩
  | writeSchema bytes k ih =>
    obtain ⟨hr, h'⟩ := h.writeSchema_ok bytes
    unfold DbProg.exec DbProg.run
    unfold DbProg.Careful at hp
    cases hx : (writeSchemaBytes bytes).exec D.file with
    | mk r file =>
      cases hy : (writeSchemaBytes bytes).run s.map with
      | mk r' m =>
        rw [hx, hy] at hr h'
        rw [hy] at hp
        obtain rfl : r = r' := hr
        rcases h' with hpanic | ⟨hok, h'⟩
        · obtain rfl : r = .panic := hpanic
          exact ⟨rfl, fun hne => absurd rfl hne⟩
        · obtain rfl : r = .ok () := hok
          exact ih _ h' hp
  | declaredFields k ih =>
    obtain ⟨hr, h'⟩ := h.lookupDeclared
    unfold DbProg.exec DbProg.run
    unfold DbProg.Careful at hp
    cases hx : D.lookupDeclared R with
    | mk r D' =>
      rw [hx] at hr h'
      obtain rfl : r = s.declared R := hr
      cases hd : s.declared R with
      | ok fields => rw [hd] at hp; exact ih _ h' hp
      | err e => rw [hd] at hp; exact ih _ h' hp
      | panic => exact ⟨rfl, fun hne => absurd rfl hne⟩
  | attempt body k ihb ihk =>
    unfold DbProg.Careful at hp
    obtain ⟨hb, hk⟩ := hp
    obtain ⟨hr, h'⟩ := ihb h hb
    obtain ⟨b, hu, hrest⟩ := h.base
    have hu' := hu.exec (R := R) body
    unfold DbProg.exec DbProg.run
    cases hx : body.exec R D with
    | mk r D' =>
      cases hy : body.run R s with
      | mk r' s' =>
        rw [hx, hy] at hr h'
        rw [hx] at hu'
        rw [hy] at hk
        obtain rfl : r = r' := hr
        cases r with
        | ok a => exact ihk _ (h' (by simp)) hk
        | err e => exact ihk _ (hrest D' hu') hk
        | panic => exact ⟨rfl, fun hne => absurd rfl hne⟩

end Represents

end ChiffonDB
