import ChiffonDB.Schema.Dto

/-!
# Storing a schema and loading it

`write_schema_dto` and `load_schema_dto` of `schema/store.rs` on a database file, with what happens to the file between
them.

* `HeaderPage` — a database whose header page is there; `HeaderPage.new`, `HeaderPage.of_sound`, `HeaderPage.exec` — every
  database, at any time.
* `PageStep.Leaves` — an append, or a write of another page.
* `schema_round_trip` — **what has been written is loaded, now and after such steps**, and the write changes no page but
  the header page.
-/

set_option autoImplicit false

namespace ChiffonDB

/-! ## Databases -/

/-- A database file that has its header page. -/
def HeaderPage (db : DatabaseFile) : Prop := ∃ m, Shows db m ∧ (m.pages 0).isSome ∧ 0 < m.count

/-- A new database has it. -/
theorem HeaderPage.new {db : DatabaseFile} (h : NewFile db) : HeaderPage db := by
  obtain ⟨m, hshows, hcount, -, h0⟩ := newFile_shows h
  exact ⟨m, hshows, h0, by rw [hcount]; decide⟩

/-- So has one that was opened, and every file that a sound run leaves. -/
theorem HeaderPage.of_sound {db : DatabaseFile} {m : PageMap} (h : Sound db m) : HeaderPage db :=
  ⟨m, h.pages, by rw [h.page0]; rfl, h.pos⟩

/-- Pages stay and their number does not fall, whatever a program does. -/
theorem Prog.run_keeps_pages {α : Type} (q : Prog α) (m : PageMap) :
    (∀ p, (m.pages p).isSome → ((q.run m).2.pages p).isSome) ∧ m.count.toNat ≤ (q.run m).2.count.toNat := by
  have hset : ∀ (m : PageMap) (p q : UInt32) (d : PageData), (m.pages p).isSome → ((m.set q d).pages p).isSome := by
    intro m p q d hp
    by_cases hpq : p = q
    · rw [hpq, PageMap.set_pages_self]
      rfl
    · rwa [PageMap.set_pages_of_ne m hpq]
  have hwrite : ∀ (m : PageMap) (q : UInt32) (d : PageData),
      (∀ p, (m.pages p).isSome → ((m.writePage q d).2.pages p).isSome) ∧ m.count.toNat ≤ (m.writePage q d).2.count.toNat := by
    intro m q d
    unfold PageMap.writePage
    split
    · exact ⟨fun p hp => hset m p q d hp, Nat.le_refl _⟩
    · exact ⟨fun _ hp => hp, Nat.le_refl _⟩
  induction q generalizing m with
  | pure a => exact ⟨fun _ hp => hp, Nat.le_refl _⟩
  | throw e => exact ⟨fun _ hp => hp, Nat.le_refl _⟩
  | panic => exact ⟨fun _ hp => hp, Nat.le_refl _⟩
  | readPage p k ih => exact ih _ m
  | pageCount k ih => exact ih _ m
  | header k ih => exact ih _ m
  | writePage p d k ih =>
    obtain ⟨hpages, hcount⟩ := hwrite m p d
    have hk := ih (m.writePage p d).1 (m.writePage p d).2
    exact ⟨fun q hq => hk.1 q (hpages q hq), hcount.trans hk.2⟩
  | writeHeader h k ih =>
    obtain ⟨hpages, hcount⟩ := hwrite { m with header := h } 0 h.serialize
    have hk := ih ({ m with header := h }.writePage 0 h.serialize).1 ({ m with header := h }.writePage 0 h.serialize).2
    exact ⟨fun q hq => hk.1 q (hpages q hq), hcount.trans hk.2⟩
  | appendPage d k ih =>
    rw [Prog.run]
    cases happ : m.appendPage d with
    | none => exact ⟨fun _ hp => hp, Nat.le_refl _⟩
    | some r =>
      obtain ⟨p, m'⟩ := r
      obtain ⟨rfl, hc, rfl⟩ := appendPage_eq_some happ
      have hk := ih m.count { m.set m.count d with count := m.count + 1 }
      have hsucc : (m.count + 1).toNat = m.count.toNat + 1 := by
        rw [UInt32.toNat_add]
        exact Nat.mod_eq_of_lt hc
      exact ⟨fun q hq => hk.1 q (hset m q m.count d hq), Nat.le_trans (by rw [hsucc]; omega) hk.2⟩

/-- **A database keeps its header page.** -/
theorem HeaderPage.exec {α : Type} {db : DatabaseFile} (h : HeaderPage db) (q : Prog α) : HeaderPage (q.exec db).2 := by
  obtain ⟨m, hshows, h0, hpos⟩ := h
  obtain ⟨hpages, hcount⟩ := q.run_keeps_pages m
  refine ⟨_, (hshows.exec q).2, hpages 0 h0, ?_⟩
  exact UInt32.lt_iff_toNat_lt.2 (Nat.lt_of_lt_of_le (UInt32.lt_iff_toNat_lt.1 hpos) hcount)

/-! ## What happens to the file afterwards -/

/-- A call on the file. -/
inductive PageStep where
  | read (p : UInt32)
  | append (page : PageData)
  | write (p : UInt32) (page : PageData)
  | setHeader (header : FileHeader)

def PageStep.prog : PageStep → Prog Unit
  | .read p => do
    let _ ← Prog.read p
    pure ()
  | .append page => do
    let _ ← Prog.append page
    pure ()
  | .write p page => Prog.write p page
  | .setHeader header => Prog.putHeader header

/-- The calls, one behind the other; each may fail. -/
def runPageSteps (steps : List PageStep) (db : DatabaseFile) : DatabaseFile :=
  steps.foldl (fun db step => (step.prog.exec db).2) db

/-- An append, a write of a page that is not one of the schema, or a header that points at the same schema. -/
def PageStep.Leaves (root : UInt32) (bytes : List UInt8) : PageStep → Prop
  | .write p _ => ¬ OnSchema root bytes p
  | .setHeader header => header.schemaRoot = root
  | _ => True

/-- The header points at a schema that is on the pages. -/
def HoldsSchema (bytes : List UInt8) (root : UInt32) (m : PageMap) : Prop :=
  m.header.schemaRoot = root ∧ SchemaAt m root bytes

theorem HoldsSchema.write {bytes : List UInt8} {root : UInt32} {m : PageMap} (h : HoldsSchema bytes root m) {p : UInt32}
    (hp : ¬ OnSchema root bytes p) (page : PageData) : HoldsSchema bytes root (m.writePage p page).2 := by
  unfold PageMap.writePage
  split
  · refine ⟨h.1, h.2.congr (Nat.le_refl _) fun q hq => m.set_pages_of_ne ?_ page⟩
    rintro rfl
    exact hp hq
  · exact h

/-- **A step leaves the stored schema alone.** -/
theorem HoldsSchema.step {bytes : List UInt8} {root : UInt32} {m : PageMap} (h : HoldsSchema bytes root m) {step : PageStep}
    (hstep : step.Leaves root bytes) : HoldsSchema bytes root (step.prog.run m).2 := by
  cases step with
  | read p =>
    have hsame : ((PageStep.read p).prog.run m).2 = m :=
      Prog.ReadOnly.run_snd (p := (PageStep.read p).prog) ((Prog.readOnly_read p).bind fun _ => trivial) m
    rwa [hsame]
  | append page =>
    unfold PageStep.prog
    rw [Prog.run_bind]
    rcases run_append_cases m page with ⟨hp, -⟩ | ⟨m', hp, happ⟩
    · rw [hp]
      exact h
    · rw [hp, Prog.andThen_ok]
      obtain ⟨-, hc, rfl⟩ := appendPage_eq_some happ
      have hsucc : (m.count + 1).toNat = m.count.toNat + 1 := by
        rw [UInt32.toNat_add]
        exact Nat.mod_eq_of_lt hc
      have hgrows : m.count.toNat ≤ (m.count + 1).toNat := by omega
      refine ⟨h.1, h.2.congr hgrows fun q hq => m.set_pages_of_ne ?_ page⟩
      rintro rfl
      have hfits := h.2.fits
      have hlt := hq.2
      omega
  | write p page =>
    have hrun : ((PageStep.write p page).prog.run m).2 = (m.writePage p page).2 := (Prog.readOnly_ofExcept _).run_snd _
    rw [hrun]
    exact h.write hstep page
  | setHeader header =>
    have hrun : ((PageStep.setHeader header).prog.run m).2 = ({ m with header := header }.writePage 0 header.serialize).2 :=
      (Prog.readOnly_ofExcept _).run_snd _
    rw [hrun]
    have hheader : HoldsSchema bytes root { m with header := header } := ⟨hstep, h.2.congr (Nat.le_refl _) fun _ _ => rfl⟩
    refine hheader.write (fun hon => h.2.root_ne ?_) header.serialize
    exact UInt32.toNat_inj.1 (Nat.le_zero.1 hon.1)

/-- A database that holds a stored schema. -/
def HoldsSchemaFile (bytes : List UInt8) (root : UInt32) (db : DatabaseFile) : Prop :=
  ∃ m, Shows db m ∧ HoldsSchema bytes root m

/-- **Nor do many steps.** -/
theorem HoldsSchemaFile.steps {bytes : List UInt8} {root : UInt32} {steps : List PageStep} {db : DatabaseFile}
    (h : HoldsSchemaFile bytes root db) (hsteps : ∀ step ∈ steps, step.Leaves root bytes) :
    HoldsSchemaFile bytes root (runPageSteps steps db) := by
  induction steps generalizing db with
  | nil => exact h
  | cons step steps ih =>
    obtain ⟨m, hshows, hholds⟩ := h
    show HoldsSchemaFile bytes root (runPageSteps steps (step.prog.exec db).2)
    refine ih ⟨_, (hshows.exec step.prog).2, hholds.step ?_⟩ fun s hs => ?_
    · exact hsteps step List.mem_cons_self
    · exact hsteps s (List.mem_cons_of_mem step hs)

/-- **The stored schema is loaded.** -/
theorem HoldsSchemaFile.load {C : SchemaCodec} {dto : SchemaDto} {root : UInt32} {db : DatabaseFile}
    (h : HoldsSchemaFile (C.toVec dto) root db) (hC : C.fromSlice (C.toVec dto) = .ok dto) :
    ((loadSchemaDto C).exec db).1 = .ok dto := by
  obtain ⟨m, hshows, rfl, hat⟩ := h
  rw [(hshows.exec _).1]
  unfold loadSchemaDto
  rw [Prog.run_bind, run_loadSchemaBytes hat, Prog.andThen_ok, hC]
  rfl

/-- What a schema write leaves: the schema on new pages, and every other page but the header page as it was. -/
theorem HeaderPage.writeSchema {db : DatabaseFile} (h : HeaderPage db) (C : SchemaCodec) (dto : SchemaDto) :
    (((writeSchemaDto C dto).exec db).1 = .panic ∧ SchemaFull db.pageCount db.header (C.toVec dto)) ∨
    ((writeSchemaDto C dto).exec db).1 = .ok () ∧
      HoldsSchemaFile (C.toVec dto) db.pageCount ((writeSchemaDto C dto).exec db).2 ∧
      ∀ p < db.pageCount, p ≠ 0 → (((writeSchemaDto C dto).exec db).2.readPage p).1 = (db.readPage p).1 := by
  obtain ⟨m, hshows, h0, hpos⟩ := h
  obtain ⟨hresult, hstate⟩ := hshows.exec (writeSchemaDto C dto)
  rw [hshows.pageCount, hshows.header, hresult]
  rcases run_writeSchemaBytes h0 hpos (C.toVec dto) with hpanic | ⟨m₁, header, happ, rfl, hrun⟩
  · exact .inl hpanic
  · have hrun : (writeSchemaDto C dto).run m = _ := hrun
    rw [hrun] at hstate
    rw [hrun]
    have hat := schemaAt_of_appended hpos happ
    have hset : ∀ p, p ≠ 0 → ∀ d : PageData, (m₁.set 0 d).pages p = m₁.pages p := fun p hp d => m₁.set_pages_of_ne hp d
    refine .inr ⟨rfl, ⟨_, hstate, rfl, hat.congr (Nat.le_refl _) fun p hp => hset p ?_ _⟩, fun p hlt hp => ?_⟩
    · rintro rfl
      exact hat.root_ne (UInt32.toNat_inj.1 (Nat.le_zero.1 hp.1))
    · rw [(hstate.readPage p).1, (hshows.readPage p).1]
      have hold := happ.old p (.inl (UInt32.lt_iff_toNat_lt.1 hlt))
      unfold PageMap.readPage PageMap.missing
      dsimp only
      rw [hset p hp, hold, show (m₁.set 0 _).durable = m.durable from happ.durable]

/-- **Storing a schema and loading it is a round trip** for every syntax tree, assignments of ids and counters whose
    stored form the serializer reads back: unless there is no room (a panic), the write succeeds, what is loaded is what
    was written, at once and after any calls that leave its pages alone, and the write changes no page that was there
    but the header page. -/
theorem schema_round_trip (J : DtoCodec) (ast : SchemaAst) (nodeTypeIds edgeTypeIds : List (String × UInt16))
    (nextNodeId nextEdgeId : UInt16) {dto : SchemaDto}
    (hdto : dto = ⟨ast.definitions, nodeTypeIds, edgeTypeIds, nextNodeId, nextEdgeId⟩)
    (hJ : J.fromSlice (J.toVec dto.toStored) = .ok dto.toStored) {db : DatabaseFile} (hdb : HeaderPage db) :
    (((writeSchemaDto J.schemaCodec dto).exec db).1 = .panic ∧
      SchemaFull db.pageCount db.header (J.toVec dto.toStored)) ∨
    ((writeSchemaDto J.schemaCodec dto).exec db).1 = .ok () ∧
      (∀ steps : List PageStep, (∀ step ∈ steps, step.Leaves db.pageCount (J.toVec dto.toStored)) →
        ∃ loaded, ((loadSchemaDto J.schemaCodec).exec
            (runPageSteps steps ((writeSchemaDto J.schemaCodec dto).exec db).2)).1 = .ok loaded ∧
          dtoToAst loaded = ast ∧ loaded.nodeTypeIds = nodeTypeIds ∧ loaded.edgeTypeIds = edgeTypeIds ∧
          loaded.nextNodeId = nextNodeId ∧ loaded.nextEdgeId = nextEdgeId) ∧
      ∀ p < db.pageCount, p ≠ 0 →
        (((writeSchemaDto J.schemaCodec dto).exec db).2.readPage p).1 = (db.readPage p).1 := by
  rcases hdb.writeSchema J.schemaCodec dto with hpanic | ⟨hok, hholds, hpages⟩
  · exact .inl hpanic
  · refine .inr ⟨hok, fun steps hsteps => ⟨dto, ?_, ?_⟩, hpages⟩
    · exact (hholds.steps hsteps).load (DtoCodec.fromSlice_toVec hJ)
    · subst hdto
      exact ⟨rfl, rfl, rfl, rfl, rfl⟩

/-- A serializer that knows the stored form of one schema. -/
def userDtoCodec : DtoCodec where
  toVec _ := userJson
  fromSlice bytes := if bytes = userJson then .ok userDto.toStored else .error (.schemaError "invalid")

/-- `node User {}` in a new database, loaded after another page has been appended and page 0 has been overwritten. -/
theorem schema_round_trip_user : ∃ loaded, ((loadSchemaDto userDtoCodec.schemaCodec).exec
      (runPageSteps [.append PageData.zero, .write 0 PageData.zero]
        ((writeSchemaDto userDtoCodec.schemaCodec userDto).exec DatabaseFile.createInMemory).2)).1 = .ok loaded ∧
    dtoToAst loaded = userSchema ∧ loaded.nodeTypeIds = [("User", 1)] := by
  have hnew : NewFile DatabaseFile.createInMemory := .inr rfl
  have hcodec : userDtoCodec.fromSlice (userDtoCodec.toVec userDto.toStored) = .ok userDto.toStored := by
    unfold userDtoCodec
    dsimp only
    rw [if_pos rfl]
  have huser : userDto = ⟨userSchema.definitions, [("User", 1)], [], 2, 1⟩ := by unfold userDto; rfl
  rcases schema_round_trip userDtoCodec userSchema [("User", 1)] [] 2 1 huser hcodec (.new hnew) with
    ⟨-, hfull⟩ | ⟨-, hload, -⟩
  · obtain ⟨m, hshows, hcount, hheader, -⟩ := newFile_shows hnew
    rw [hshows.pageCount, hcount, hshows.header, hheader] at hfull
    have hbytes : userDtoCodec.toVec userDto.toStored = userJson := by unfold userDtoCodec; dsimp only
    rcases hfull with hfull | hfull
    · rw [hbytes, length_userJson] at hfull
      exact absurd hfull (by decide)
    · exact absurd hfull (by decide)
  · obtain ⟨loaded, hrun, hast, hids, -⟩ := hload [.append PageData.zero, .write 0 PageData.zero] (by
      intro step hstep
      rcases List.mem_cons.1 hstep with rfl | hstep
      · exact trivial
      · cases List.mem_singleton.1 hstep
        intro hon
        have hroot : (1 : UInt32).toNat ≤ (0 : UInt32).toNat := hon.1
        exact absurd hroot (by decide))
    exact ⟨loaded, hrun, hast, hids⟩

end ChiffonDB
