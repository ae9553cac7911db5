import ChiffonDB.Api.Transaction
import ChiffonDB.Database.Vacuum

/-!
# The declared-fields cache

`declared_fields` of `db.rs` keeps the fields it computed, under the schema version and the schema
root it found.  A rollback brings both back, and a later schema write uses them again.

* `LookupsFresh` — at every lookup an operation reaches, in the state the database is in then, the
  lookup gives what a database with the same file and no cache computes.
* `Reached` — the states of a connection under calls, transactions, reopens and vacuums.
* `declaredFields_fresh` — **in every reached state the cache is not stale, nor is it at any lookup
  inside an operation or a vacuum**.
-/

set_option autoImplicit false

namespace ChiffonDB

variable {Ast Registry Fields : Type} (R : SchemaReader Ast Registry Fields)

/-! ## Lookups -/

/-- The declared fields recomputed from the schema stored in the file. -/
def Database.recomputeDeclared (D : Database Fields) : Outcome (Option Fields) :=
  if D.file.header.schemaRoot = 0 then .ok none else ((loadDeclared R).exec D.file).1

/-- Every lookup of the declared fields that the operation reaches gives the recomputed ones. -/
def DbProg.LookupsFresh {α : Type} : DbProg Fields α → Database Fields → Prop
  | .pure _, _ => True
  | .throw _, _ => True
  | .panic, _ => True
  | .file p k, D =>
    match p.exec D.file with
    | (.ok a, db) => (k (.ok a)).LookupsFresh { D with file := db }
    | (.err e, db) => (k (.error e)).LookupsFresh { D with file := db }
    | (.panic, _) => True
  | .writeSchema bytes k, D =>
    match (writeSchemaBytes bytes).exec D.file with
    | (.ok (), db) => (k (.ok ())).LookupsFresh { D with file := db }
    | (.err e, db) => (k (.error e)).LookupsFresh { D with file := db }
    | (.panic, _) => True
  | .declaredFields k, D => (D.lookupDeclared R).1 = D.recomputeDeclared R ∧
    match D.lookupDeclared R with
    | (.ok fields, D) => (k (.ok fields)).LookupsFresh D
    | (.err e, D) => (k (.error e)).LookupsFresh D
    | (.panic, _) => True
  | .attempt body k, D => body.LookupsFresh D ∧
    match body.exec R D with
    | (.ok a, D') => (k (.ok a)).LookupsFresh D'
    | (.err e, D') => (k (.error e)).LookupsFresh (D'.restoreSnapshot D.takeSnapshot)
    | (.panic, _) => True

/-- The lookups on both databases of a copy. -/
def CopyProg.LookupsFresh {α : Type} : CopyProg Fields α → Database Fields → Database Fields → Prop
  | .pure _, _, _ => True
  | .throw _, _, _ => True
  | .src p k, D, E => p.LookupsFresh R D ∧
    match p.exec R D with
    | (.ok a, D) => (k (.ok a)).LookupsFresh D E
    | (.err e, D) => (k (.error e)).LookupsFresh D E
    | (.panic, _) => True
  | .dst p k, D, E => p.LookupsFresh R E ∧
    match p.exec R E with
    | (.ok a, E) => (k (.ok a)).LookupsFresh D E
    | (.err e, E) => (k (.error e)).LookupsFresh D E
    | (.panic, _) => True

/-- `get_node_properties` and `get_edge_properties`: `record` reads the record and, unless it has
    none, its stored properties; `retain` drops those the type does not declare. -/
def getProperties {Props : Type} (record : Prog (Option (UInt16 × Props))) (empty : Props)
    (retain : Fields → UInt16 → Props → Props) : DbProg Fields Props :=
  .file record fun
    | .error e => .throw e
    | .ok none => .pure empty
    | .ok (some (typeId, props)) => .declaredFields fun
      | .error e => .throw e
      | .ok none => .pure props
      | .ok (some declared) => .pure (retain declared typeId props)

namespace Represents

variable {R} {D E : Database Fields} {s t : DbState}

/-- Without its cache the database represents the same state. -/
theorem dropCache (h : Represents R D s) : Represents R ⟨D.file, none⟩ s where
  sound := h.sound
  stored := h.stored
  cache c hc := by cases hc

theorem lookup_fresh (h : Represents R D s) :
    (D.lookupDeclared R).1 = D.recomputeDeclared R := by
  have hhdr : D.file.header = s.map.header := h.sound.pages.header
  rw [h.lookupDeclared.1]
  unfold DbState.declared Database.recomputeDeclared
  rw [hhdr]
  by_cases h0 : s.map.header.schemaRoot = 0
  · rw [if_pos h0, if_pos h0]
  · rw [if_neg h0, if_neg h0]
    exact (h.sound.exec ((readOnly_loadDeclared R).within (fun _ => False)
      (fun _ _ => True) s.map)).1.symm

/-- **A careful operation never sees a stale cache**, by induction on what it still has to do. -/
theorem lookupsFresh {α : Type} {p : DbProg Fields α} (h : Represents R D s)
    (hp : p.Careful R s) : p.LookupsFresh R D := by
  induction p generalizing D s with
  | pure a => trivial
  | throw e => trivial
  | panic => trivial
  | file p k ih =>
    unfold DbProg.Careful at hp
    obtain ⟨hp, hk⟩ := hp
    obtain ⟨hr, h'⟩ := h.file_ok hp
    unfold DbProg.LookupsFresh
    cases hx : p.exec D.file with
    | mk r file =>
      cases hy : p.run s.map with
      | mk r' m =>
        rw [hx, hy] at hr h'
        rw [hy] at hk
        obtain rfl : r = r' := hr
        cases r with
        | ok a => exact ih _ h' hk
        | err e => exact ih _ h' hk
        | panic => trivial
  | writeSchema bytes k ih =>
    obtain ⟨hr, h'⟩ := h.writeSchema_ok bytes
    unfold DbProg.Careful at hp
    unfold DbProg.LookupsFresh
    cases hx : (writeSchemaBytes bytes).exec D.file with
    | mk r file =>
      cases hy : (writeSchemaBytes bytes).run s.map with
      | mk r' m =>
        rw [hx, hy] at hr h'
        rw [hy] at hp
        obtain rfl : r = r' := hr
        rcases h' with hpanic | ⟨hok, h'⟩
        · obtain rfl : r = .panic := hpanic
          trivial
        · obtain rfl : r = .ok () := hok
          exact ih _ h' hp
  | declaredFields k ih =>
    have hfresh := h.lookup_fresh
    obtain ⟨hr, h'⟩ := h.lookupDeclared
    unfold DbProg.Careful at hp
    unfold DbProg.LookupsFresh
    refine ⟨hfresh, ?_⟩
    cases hx : D.lookupDeclared R with
    | mk r D' =>
      rw [hx] at hr h'
      obtain rfl : r = s.declared R := hr
      cases hd : s.declared R with
      | ok fields => rw [hd] at hp; exact ih _ h' hp
      | err e => rw [hd] at hp; exact ih _ h' hp
      | panic => trivial
  | attempt body k ihb ihk =>
    unfold DbProg.Careful at hp
    obtain ⟨hb, hk⟩ := hp
    obtain ⟨hr, h'⟩ := h.exec hb
    obtain ⟨b, hu, hrest⟩ := h.base
    have hu' := hu.exec (R := R) body
    unfold DbProg.LookupsFresh
    refine ⟨ihb h hb, ?_⟩
    cases hx : body.exec R D with
    | mk r D' =>
      cases hy : body.run R s with
      | mk r' s' =>
        rw [hx, hy] at hr h'
        rw [hx] at hu'
        rw [hy] at hk
        obtain rfl : r = r' := hr
        cases r with
        | ok a => exact ihk _ (h' (by simp)) hk
        | err e => exact ihk _ (hrest D' hu') hk
        | panic => trivial

end Represents

variable {R} in
theorem CopyProg.lookupsFresh {α : Type} {p : CopyProg Fields α} {D E : Database Fields}
    {s t : DbState} (hD : Represents R D s) (hE : Represents R E t) (hp : p.Careful R s t) :
    p.LookupsFresh R D E := by
  induction p generalizing D E s t with
  | pure a => trivial
  | throw e => trivial
  | src p k ih =>
    unfold CopyProg.Careful at hp
    obtain ⟨hp, hk⟩ := hp
    obtain ⟨hr, h'⟩ := hD.exec hp
    unfold CopyProg.LookupsFresh
    refine ⟨hD.lookupsFresh hp, ?_⟩
    cases hx : p.exec R D with
    | mk r D' =>
      cases hy : p.run R s with
      | mk r' s' =>
        rw [hx, hy] at hr h'
        rw [hy] at hk
        obtain rfl : r = r' := hr
        cases r with
        | ok a => exact ih _ (h' (by simp)) hE hk
        | err e => exact ih _ (h' (by simp)) hE hk
        | panic => trivial
  | dst p k ih =>
    unfold CopyProg.Careful at hp
    obtain ⟨hp, hk⟩ := hp
    obtain ⟨hr, h'⟩ := hE.exec hp
    unfold CopyProg.LookupsFresh
    refine ⟨hE.lookupsFresh hp, ?_⟩
    cases hx : p.exec R E with
    | mk r E' =>
      cases hy : p.run R t with
      | mk r' t' =>
        rw [hx, hy] at hr h'
        rw [hy] at hk
        obtain rfl : r = r' := hr
        cases r with
        | ok a => exact ih _ hD (h' (by simp)) hk
        | err e => exact ih _ hD (h' (by simp)) hk
        | panic => trivial

/-! ## Runs with vacuum -/

/-- `Connection::vacuum`; it does not look at the open transaction. -/
def Connection.vacuum (copy : CopyProg Fields Unit) (c : Connection Fields) :
    Outcome Unit × Connection Fields :=
  ((c.db.vacuum R copy).1, { c with db := (c.db.vacuum R copy).2 })

/-- The state behind a vacuum that does not panic. -/
def DbState.vacuum (copy : CopyProg Fields Unit) (s : DbState) : DbState :=
  if s.map.durable then s
  else
    match copy.run R s (.new false) with
    | (.ok (), _, t) => t
    | (.err _, s, _) => s
    | (.panic, s, _) => s

/-- The states of a connection under all of its methods, each with the state its database
    represents and, in a transaction, the state at its begin. -/
inductive Reached : Connection Fields → DbState → Option DbState → Prop where
  | create (order : HashOrder) (opts : OpenOptions) : Reached (.create order opts) (.new true) none
  | openInMemory : Reached .openInMemory (.new false) none
  | call {c : Connection Fields} {s : DbState} {q : Option DbState} (h : Reached c s q) {α : Type}
      {p : DbProg Fields α} (hp : p.Careful R s) (hrun : (p.run R s).1 ≠ .panic) :
      Reached (c.call R p).2 (p.run R s).2 q
  | vacuum {c : Connection Fields} {s : DbState} {q : Option DbState} (h : Reached c s q)
      {copy : CopyProg Fields Unit} (hp : copy.Careful R s (.new false))
      (hrun : (copy.run R s (.new false)).1 ≠ .panic) :
      Reached (c.vacuum R copy).2 (s.vacuum R copy) q
  | beginTransaction {c : Connection Fields} {s : DbState} (h : Reached c s none) :
      Reached c.beginTransaction.2 s (some s)
  | commitTransaction {c : Connection Fields} {s s₀ : DbState} (h : Reached c s (some s₀))
      (order : HashOrder) : Reached (c.commitTransaction order).2 s none
  | rollbackTransaction {c : Connection Fields} {s s₀ : DbState} (h : Reached c s (some s₀)) :
      Reached c.rollbackTransaction.2 s₀ none
  | reopen {c c' : Connection Fields} {s : DbState} {q : Option DbState} (h : Reached c s q)
      {order : HashOrder} {opts : OpenOptions} (hopen : c.reopen order opts = some c') :
      Reached c' s none

variable {R}

theorem Sound.memory {db : DatabaseFile} {m : PageMap} (h : Sound db m)
    (hm : db.isInMemory = true) : m.durable = false := by
  cases h.pages with
  | file => cases hm
  | memory => rfl

/-- Under a memory database lies nothing that a vacuum could lose. -/
theorem Base.Under.eq_memory {b : Base} {db : DatabaseFile} (h : b.Under db)
    (hm : db.isInMemory = true) : b = .memory := by
  cases b with
  | memory => rfl
  | file main es =>
    obtain ⟨wal, cache, fs, rest, hb, -⟩ := h
    unfold DatabaseFile.isInMemory at hm
    rw [hb] at hm
    cases hm

/-- Vacuum leaves a database that represents its own final state, above the same base. -/
theorem Represents.vacuum {D : Database Fields} {s : DbState} (h : Represents R D s)
    {copy : CopyProg Fields Unit} (hp : copy.Careful R s (.new false))
    (hrun : (copy.run R s (.new false)).1 ≠ .panic) :
    Represents R (D.vacuum R copy).2 (s.vacuum R copy) ∧
      ∀ b : Base, b.Under D.file → b.Under (D.vacuum R copy).2.file := by
  have hnew : Represents R ⟨DatabaseFile.createInMemory, none⟩ (.new false) :=
    .new Sound.createInMemory
  have hmem : Base.memory.Under DatabaseFile.createInMemory := ⟨_, rfl⟩
  unfold Database.vacuum DbState.vacuum
  generalize DatabaseFile.createInMemory = file at hnew hmem ⊢
  obtain ⟨hr, hreps⟩ := CopyProg.exec_sound h hnew hp
  obtain ⟨hs, ht⟩ := hreps hrun
  cases hm : D.file.isInMemory with
  | false =>
    rw [h.sound.durable hm]
    exact ⟨h, fun b hb => hb⟩
  | true =>
    rw [h.sound.memory hm]
    have hunder : ∀ b : Base, b.Under D.file →
        b.Under (copy.exec R D ⟨file, none⟩).2.1.file ∧
        b.Under (copy.exec R D ⟨file, none⟩).2.2.file := by
      intro b hb
      obtain rfl := hb.eq_memory hm
      exact copy.under hb hmem
    cases hx : copy.exec R D ⟨file, none⟩ with
    | mk r DE =>
      cases hy : copy.run R s (.new false) with
      | mk r' st =>
        rw [hx, hy] at hr hreps
        rw [hy] at hs ht hrun
        rw [hx] at hs ht hunder
        obtain rfl : r = r' := hr
        cases r with
        | ok u => exact ⟨ht, fun b hb => (hunder b hb).2⟩
        | err e => exact ⟨hs, fun b hb => (hunder b hb).1⟩
        | panic => exact absurd rfl hrun

theorem ConnectionInv.vacuum {c : Connection Fields} {s : DbState} {q : Option DbState}
    (h : ConnectionInv R c s q) {copy : CopyProg Fields Unit} (hp : copy.Careful R s (.new false))
    (hrun : (copy.run R s (.new false)).1 ≠ .panic) :
    ConnectionInv R (c.vacuum R copy).2 (s.vacuum R copy) q := by
  obtain ⟨hrep, hunder⟩ := h.represents.vacuum hp hrun
  cases q with
  | none => exact ⟨hrep, h.2⟩
  | some s₀ =>
    obtain ⟨-, snap, b, hsnap, hb, hrest⟩ := h
    exact ⟨hrep, snap, b, hsnap, hunder b hb, hrest⟩

/-- In every reached state the database represents its state. -/
theorem Reached.inv {c : Connection Fields} {s : DbState} {q : Option DbState}
    (h : Reached R c s q) : ConnectionInv R c s q := by
  induction h with
  | create order opts => exact (Reachable.create order opts).inv
  | openInMemory => exact Reachable.openInMemory.inv
  | call h hp hrun ih => exact ih.call hp hrun
  | vacuum h hp hrun ih => exact ih.vacuum hp hrun
  | beginTransaction h ih => exact ih.beginTransaction
  | commitTransaction h order ih => exact ih.commitTransaction order
  | rollbackTransaction h ih => exact ih.rollbackTransaction
  | reopen h hopen ih => exact ih.reopen hopen

/-! ## The cache is never stale -/

theorem careful_getProperties {Props : Type} {record : Prog (Option (UInt16 × Props))}
    (hro : record.ReadOnly) (empty : Props) (retain : Fields → UInt16 → Props → Props)
    (s : DbState) : (getProperties record empty retain).Careful R s := by
  unfold getProperties DbProg.Careful
  refine ⟨hro.within _ _ _, ?_⟩
  cases hx : record.run s.map with
  | mk r m =>
    cases r with
    | err e => trivial
    | panic => trivial
    | ok a =>
      cases a with
      | none => trivial
      | some v =>
        show DbProg.Careful R (.declaredFields _) _
        unfold DbProg.Careful
        cases DbState.declared R { s with map := m } with
        | ok fields => cases fields <;> trivial
        | err e => trivial
        | panic => trivial

/-- **The cache is never stale**: in every state of a connection, whatever schema writes, reads,
    rollbacks and vacuums led there, a lookup of the declared fields gives what recomputing them
    from the file gives; so does every lookup inside any operation that runs next, at the moment it
    is made, and every lookup inside a vacuum; and reading the properties of a record gives what it
    gives on the same file with no cache. -/
theorem declaredFields_fresh {c : Connection Fields} {s : DbState} {q : Option DbState}
    (h : Reached R c s q) :
    (c.db.lookupDeclared R).1 = c.db.recomputeDeclared R ∧
    (∀ {α : Type} (p : DbProg Fields α), p.Careful R s → p.LookupsFresh R c.db) ∧
    (∀ copy : CopyProg Fields Unit, copy.Careful R s (.new false) →
      copy.LookupsFresh R c.db ⟨DatabaseFile.createInMemory, none⟩) ∧
    ∀ {Props : Type} (record : Prog (Option (UInt16 × Props))), record.ReadOnly →
      ∀ (empty : Props) (retain : Fields → UInt16 → Props → Props),
        ((getProperties record empty retain).exec R c.db).1 =
          ((getProperties record empty retain).exec R ⟨c.db.file, none⟩).1 := by
  have hrep := h.inv.represents
  refine ⟨hrep.lookup_fresh, fun p hp => hrep.lookupsFresh hp, fun copy hp => ?_, ?_⟩
  · exact CopyProg.lookupsFresh hrep (.new Sound.createInMemory) hp
  · intro Props record hro empty retain
    have hp := careful_getProperties (R := R) hro empty retain s
    rw [(hrep.exec hp).1, (hrep.dropCache.exec hp).1]

/-- A reader whose declared fields are the stored bytes. -/
def SchemaReader.raw : SchemaReader (List UInt8) (List UInt8) (List UInt8) :=
  ⟨.ok, .ok, fun ast _ => ast⟩

/-- A schema write, and a lookup, each as an operation of its own. -/
def writeOnly (bytes : List UInt8) : DbProg (List UInt8) Unit := .writeSchema bytes fun _ => .pure ()

def lookupOnly : DbProg (List UInt8) Unit := .declaredFields fun _ => .pure ()

theorem careful_writeOnly (bytes : List UInt8) (s : DbState) :
    (writeOnly bytes).Careful SchemaReader.raw s := by
  unfold writeOnly DbProg.Careful
  split <;> trivial

theorem careful_lookupOnly (s : DbState) : lookupOnly.Careful SchemaReader.raw s := by
  unfold lookupOnly DbProg.Careful
  split <;> trivial

theorem run_writeOnly_new : ((writeOnly []).run SchemaReader.raw (.new false)).1 ≠ .panic := by
  have h0 : ((DbState.new false).map.pages 0).isSome := by simp [DbState.new, PageMap.fresh]
  have hrun := run_writeSchemaBytes h0 (show (0 : UInt32) < 1 by decide) []
  unfold writeOnly DbProg.run
  rcases hrun with ⟨-, hfull | hfull⟩ | ⟨m₁, header, -, -, hrun⟩
  · exact absurd hfull (by decide)
  · exact absurd hfull (by decide)
  · rw [hrun]
    rintro ⟨⟩

theorem run_lookupOnly {s : DbState} (h : s.Stored) :
    (lookupOnly.run SchemaReader.raw s).1 ≠ .panic := by
  unfold lookupOnly DbProg.run
  by_cases h0 : s.map.header.schemaRoot = 0
  · unfold DbState.declared
    rw [if_pos h0]
    rintro ⟨⟩
  · obtain ⟨e, -, -, hdecl, -⟩ := h.declared_eq SchemaReader.raw h0
    rw [hdecl]
    rintro ⟨⟩

/-- A transaction writes a schema, fills the cache and is rolled back; then a schema is written
    again, under the version number and the root that the cache had seen. -/
def rewritten : Connection (List UInt8) :=
  let begun := Connection.openInMemory.beginTransaction.2
  let filled := ((begun.call SchemaReader.raw (writeOnly [])).2.call SchemaReader.raw lookupOnly).2
  (filled.rollbackTransaction.2.call SchemaReader.raw (writeOnly [])).2

theorem declaredFields_fresh_rewritten :
    (rewritten.db.lookupDeclared SchemaReader.raw).1 =
      rewritten.db.recomputeDeclared SchemaReader.raw := by
  have hbegun := Reached.beginTransaction (R := SchemaReader.raw) .openInMemory
  have hwritten := hbegun.call (careful_writeOnly [] _) run_writeOnly_new
  have hfilled := hwritten.call (careful_lookupOnly _)
    (run_lookupOnly hwritten.inv.represents.stored)
  exact (declaredFields_fresh (hfilled.rollbackTransaction.call (careful_writeOnly [] _)
    run_writeOnly_new)).1

end ChiffonDB
