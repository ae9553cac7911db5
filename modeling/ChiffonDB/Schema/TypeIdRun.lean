import ChiffonDB.Schema.TypeIds
import ChiffonDB.Storage.StoreRun
import Mathlib.Data.Countable.Basic
import Mathlib.Logic.Equiv.List
import Mathlib.Tactic.DeriveCountable

/-!
# Runs of schema saves and registrations

`save_schema`, `save_schema_unchecked` and `register_dynamic_type` of `schema/store.rs` on a database
file, in any order.

* `SchemaCodec.Faithful` — what the store relies on in the serializer.
* `SchemaHeld.call` — what one call does to the stored schema.
* `typeIds_stable` — **type ids are stable, injective and never recycled along every run whose saves
  find enough ids and whose types the deserializer can read back.**
* `typeIds_exhausted` — a schema with as many new types as there are ids panics.
-/

set_option autoImplicit false

namespace ChiffonDB

open AssocList

/-! ## The serialized schema -/

/-- `serde_json::to_vec` and `serde_json::from_slice` at the stored schema. -/
structure SchemaCodec where
  toVec : SchemaDto → List UInt8
  fromSlice : List UInt8 → Except GraphError SchemaDto

/-- The deserializer gives up at this depth of nested arrays and objects. -/
def RECURSION_LIMIT : Nat := 128

/-- The nesting of the JSON object `{"t": …, "v": …}` of a type. -/
def TypeExpr.jsonDepth : TypeExpr → Nat
  | .list elem => elem.jsonDepth + 1
  | .map key value => max key.jsonDepth value.jsonDepth + 2
  | _ => 1

def deepest {α : Type} (depth : α → Nat) (l : List α) : Nat := (l.map depth).foldr max 0

/-- The array of the fields. -/
def fieldsJsonDepth (fields : List FieldDef) : Nat :=
  deepest (fun f => f.typeExpr.jsonDepth + 1) fields + 1

def Definition.jsonDepth : Definition → Nat
  | .node n => fieldsJsonDepth n.fields + 1
  | .edge e => max (max e.fromType.jsonDepth e.toType.jsonDepth)
      (max (fieldsJsonDepth e.props) (deepest (fun _ => 1) e.genericParams + 1)) + 1

/-- The nesting of a stored schema; the lists of ids are arrays of arrays. -/
def definitionsJsonDepth (definitions : List Definition) : Nat :=
  max 3 (deepest Definition.jsonDepth definitions + 2)

/-- What is read back is what was written, unless it is nested too deeply. -/
structure SchemaCodec.Faithful (C : SchemaCodec) : Prop where
  fromSlice_toVec : ∀ dto, definitionsJsonDepth dto.definitions < RECURSION_LIMIT →
    C.fromSlice (C.toVec dto) = .ok dto

variable (C : SchemaCodec)

/-- `write_schema_dto`. -/
def writeSchemaDto (dto : SchemaDto) : Prog Unit := writeSchemaBytes (C.toVec dto)

/-- `load_schema_dto`. -/
def loadSchemaDto : Prog SchemaDto := do
  let bytes ← loadSchemaBytes
  Prog.ofExcept (C.fromSlice bytes)

/-- The schema that a save inherits from; one that cannot be loaded counts as none. -/
def previousSchema (ast : SchemaAst) (checkMigration : Bool) : Prog (Option SchemaDto) := do
  let header ← Prog.getHeader
  if header.schemaRoot ≠ 0 then do
    let loaded ← (loadSchemaDto C).attempt
    match loaded with
    | .ok old => do
      Prog.ofExcept (if checkMigration then validateMigration (dtoToAst old) ast else .ok ())
      pure (some old)
    | .error _ => pure none
  else pure none

/-- `save_schema_with`. -/
def saveSchemaWith (ast : SchemaAst) (checkMigration : Bool) : Prog Unit := do
  let previous ← previousSchema C ast checkMigration
  match assignTypeIds (astToDto ast) previous with
  | some dto => writeSchemaDto C dto
  | none => .panic

def saveSchema (ast : SchemaAst) : Prog Unit := saveSchemaWith C ast true

def saveSchemaUnchecked (ast : SchemaAst) : Prog Unit := saveSchemaWith C ast false

/-- `register_dynamic_type`. -/
def registerDynamicType (kind : DynamicTypeKind) (name : String) : Prog (UInt16 × Bool) := do
  let dto ← loadSchemaDto C
  match dto.register kind name with
  | .error e => .throw e
  | .ok (id, none) => pure (id, false)
  | .ok (id, some dto) => do
    writeSchemaDto C dto
    pure (id, true)

/-- `load_type_assignments`, then `SchemaRegistry::from_assignments`. -/
def loadSchemaRegistry : Prog SchemaRegistry := do
  let dto ← loadSchemaDto C
  pure ⟨dto.nodeTypeIds, dto.edgeTypeIds⟩

/-! ## Calls and runs -/

inductive SchemaCall where
  /-- The saving part of `apply_schema`, behind the parser. -/
  | applySchema (ast : SchemaAst)
  | saveUnchecked (ast : SchemaAst)
  | register (kind : DynamicTypeKind) (name : String)

/-- A call; a registration returns the id. -/
def SchemaCall.prog : SchemaCall → Prog (Option UInt16)
  | .applySchema ast => do
    Prog.ofExcept (validate ast)
    saveSchema C ast
    pure none
  | .saveUnchecked ast => do
    saveSchemaUnchecked C ast
    pure none
  | .register kind name => do
    let (id, _) ← registerDynamicType C kind name
    pure (some id)

/-- One call, also where it returns an error; none where it panics. -/
def SchemaCall.step (db : DatabaseFile) (c : SchemaCall) : Option DatabaseFile :=
  match (c.prog C).exec db with
  | (.panic, _) => none
  | (_, db) => some db

def runSchemaCalls (db : DatabaseFile) : List SchemaCall → Option DatabaseFile
  | [] => some db
  | c :: calls => (c.step C db).bind fun db => runSchemaCalls db calls

/-- The stored schema, if there is one that can be loaded. -/
def storedSchema (db : DatabaseFile) : Option SchemaDto :=
  match ((loadSchemaDto C).exec db).1 with
  | .ok dto => some dto
  | _ => none

/-- The assignments that the registry is built from. -/
def assignments (db : DatabaseFile) (kind : DynamicTypeKind) : List (String × UInt16) :=
  match ((loadSchemaRegistry C).exec db).1 with
  | .ok r =>
    match kind with
    | .node => r.nodeAssignments
    | .edge => r.edgeAssignments
  | _ => []

/-- The id of a name in the registry. -/
def typeId (db : DatabaseFile) (kind : DynamicTypeKind) (name : String) : Option UInt16 :=
  match ((loadSchemaRegistry C).exec db).1 with
  | .ok r =>
    match kind with
    | .node => r.nodeTypeId name
    | .edge => r.edgeTypeId name
  | _ => none

/-- A save finds ids for its new names, and nests its types no deeper than can be read back. -/
def SchemaCall.Fits (stored : Option SchemaDto) : SchemaCall → Prop
  | .applySchema ast | .saveUnchecked ast =>
    definitionsJsonDepth ast.definitions < RECURSION_LIMIT ∧
      ∀ kind, (max (idsOf stored kind).next 1).toNat +
        newNames (idsOf stored kind).ids (ast.typeNames kind) < UInt16.size
  | .register _ _ => True

/-- Every call of the run fits in the state before it. -/
def RunFits : DatabaseFile → List SchemaCall → Prop
  | _, [] => True
  | db, c :: calls => c.Fits (storedSchema C db) ∧ ∀ db', c.step C db = some db' → RunFits db' calls

/-- The names a save or a registration makes known. -/
def SchemaCall.names : SchemaCall → DynamicTypeKind → List String
  | .applySchema ast, kind | .saveUnchecked ast, kind => ast.typeNames kind
  | .register kind name, kind' => if kind' = kind then [name] else []

/-- The schema that a call writes. -/
def SchemaCall.writes (stored : Option SchemaDto) : SchemaCall → Option SchemaDto
  | .applySchema ast | .saveUnchecked ast => assignTypeIds (astToDto ast) stored
  | .register kind name =>
    stored.bind fun dto =>
      match dto.register kind name with
      | .ok (_, dto) => dto
      | .error _ => none

/-- What the ids of `later` keep of those of `earlier`. -/
structure IdsKept (earlier later : DatabaseFile) : Prop where
  stable : ∀ {kind name id}, typeId C earlier kind name = some id → typeId C later kind name = some id
  injective : ∀ {kind name name' id}, (name, id) ∈ assignments C earlier kind →
    (name', id) ∈ assignments C later kind → name = name'
  nonzero : ∀ {kind name id}, (name, id) ∈ assignments C later kind → id ≠ 0

/-- What the call `c` reports: the names are registered, the id that is returned belongs to the
    name, and the end of the id space is an error; only a full file makes it panic. -/
structure Reports (db : DatabaseFile) (c : SchemaCall) : Prop where
  registered : ∀ {r}, ((c.prog C).exec db).1 = .ok r → ∀ kind, ∀ name ∈ c.names kind,
    (typeId C ((c.prog C).exec db).2 kind name).isSome
  returned : ∀ {kind name id}, c = .register kind name → ((c.prog C).exec db).1 = .ok (some id) →
    (name, id) ∈ assignments C ((c.prog C).exec db).2 kind
  exhausted : ∀ {kind name}, c = .register kind name →
    (max (idsOf (storedSchema C db) kind).next 1).toNat + 1 = UInt16.size →
    (∀ p ∈ (idsOf (storedSchema C db) kind).ids, p.1 ≠ name) →
    ∃ e, ((c.prog C).exec db).1 = .err e
  panics : ((c.prog C).exec db).1 = .panic →
    ∃ dto, c.writes (storedSchema C db) = some dto ∧
      SchemaFull db.pageCount db.header (C.toVec dto)

/-! ## The stored schema along a run -/

/-- The page map holds the stored schema, in a form that can be read back. -/
structure SchemaHeld (m : PageMap) (stored : Option SchemaDto) : Prop where
  page0 : (m.pages 0).isSome
  pos : 0 < m.count
  held : (stored = none ∧ m.header.schemaRoot = 0) ∨ ∃ dto, stored = some dto ∧
    SchemaAt m m.header.schemaRoot (C.toVec dto) ∧
    definitionsJsonDepth dto.definitions < RECURSION_LIMIT

namespace SchemaHeld

variable {C} {m : PageMap} {stored : Option SchemaDto}

theorem run_load (h : SchemaHeld C m stored) (hC : C.Faithful) :
    (loadSchemaDto C).run m = match stored with
      | some dto => (.ok dto, m)
      | none => (.err (.schemaError "no schema stored"), m) := by
  unfold loadSchemaDto
  rw [Prog.run_bind]
  rcases h.held with ⟨rfl, hroot⟩ | ⟨dto, rfl, hat, hdepth⟩
  · have hrun : loadSchemaBytes.run m = (.err (.schemaError "no schema stored"), m) := by
      unfold loadSchemaBytes
      rw [Prog.run_bind, Prog.run_getHeader, Prog.andThen_ok, if_pos hroot]
      rfl
    rw [hrun]
    rfl
  · rw [run_loadSchemaBytes hat, Prog.andThen_ok, hC.fromSlice_toVec dto hdepth]
    rfl

/-- A save inherits from the stored schema, unless the migration check rejects the new one. -/
theorem run_previous (h : SchemaHeld C m stored) (hC : C.Faithful) (ast : SchemaAst) (check : Bool) :
    (previousSchema C ast check).run m = (.ok stored, m) ∨
      ∃ e, (previousSchema C ast check).run m = (.err e, m) := by
  unfold previousSchema
  rw [Prog.run_bind, Prog.run_getHeader, Prog.andThen_ok]
  have hload := h.run_load hC
  rcases h.held with ⟨rfl, hroot⟩ | ⟨dto, rfl, hat, -⟩
  · rw [if_neg (by simpa using hroot)]
    exact .inl rfl
  · rw [if_pos hat.root_ne, Prog.run_bind, Prog.run_attempt, hload]
    dsimp only
    rw [Prog.andThen_ok, Prog.run_bind]
    cases (if check = true then validateMigration (dtoToAst dto) ast else .ok ()) with
    | ok u => exact .inl rfl
    | error e => exact .inr ⟨e, rfl⟩

/-- Writing a schema that can be read back. -/
theorem run_write (h : SchemaHeld C m stored) {dto : SchemaDto}
    (hdepth : definitionsJsonDepth dto.definitions < RECURSION_LIMIT) :
    (((writeSchemaDto C dto).run m).1 = .panic ∧ SchemaFull m.count m.header (C.toVec dto)) ∨
      ∃ m', (writeSchemaDto C dto).run m = (.ok (), m') ∧ SchemaHeld C m' (some dto) := by
  rcases run_writeSchemaBytes h.page0 h.pos (C.toVec dto) with hpanic | ⟨m₁, header, ha, rfl, hrun⟩
  · exact .inl hpanic
  · refine .inr ⟨_, hrun, ?_, ?_, .inr ⟨dto, rfl, ?_, hdepth⟩⟩
    · show ((m₁.set 0 _).pages 0).isSome
      rw [PageMap.set_pages_self]
      rfl
    · have hpos := UInt32.lt_iff_toNat_lt.1 h.pos
      have hcount := ha.count
      refine UInt32.lt_iff_toNat_lt.2 ?_
      show (0 : UInt32).toNat < m₁.count.toNat
      omega
    · have hat := schemaAt_of_appended h.pos ha
      refine hat.congr (Nat.le_refl _) fun p hp => m₁.set_pages_of_ne ?_ _
      rintro rfl
      exact hat.root_ne (UInt32.toNat_inj.1 (Nat.le_zero.1 hp.1))

end SchemaHeld

/-- What a call leaves behind: the schema it writes, or the one that was there. -/
inductive CallResult (m : PageMap) (stored : Option SchemaDto) (c : SchemaCall) : Prop where
  | panic {dto : SchemaDto} (run : ((c.prog C).run m).1 = .panic) (writes : c.writes stored = some dto)
      (full : SchemaFull m.count m.header (C.toVec dto))
  | err {e : GraphError} (run : (c.prog C).run m = (.err e, m))
  | same {kind : DynamicTypeKind} {name : String} {id : UInt16} {dto : SchemaDto}
      (eq : c = .register kind name) (run : (c.prog C).run m = (.ok (some id), m))
      (stored_eq : stored = some dto) (mem : (name, id) ∈ (dto.typeIds kind).ids)
  | wrote {r : Option UInt16} {dto : SchemaDto} {m' : PageMap} (run : (c.prog C).run m = (.ok r, m'))
      (writes : c.writes stored = some dto) (held : SchemaHeld C m' (some dto))
      (depth : definitionsJsonDepth dto.definitions < RECURSION_LIMIT)
      (returned : ∀ kind name id, c = .register kind name → r = some id →
        (name, id) ∈ (dto.typeIds kind).ids)

theorem assignTypeIds_of_fits {stored : Option SchemaDto} {ast : SchemaAst}
    (h : ∀ kind, (max (idsOf stored kind).next 1).toNat +
      newNames (idsOf stored kind).ids (ast.typeNames kind) < UInt16.size) :
    ∃ dto, assignTypeIds (astToDto ast) stored = some dto := by
  have hsome : ∀ kind, ∃ t, (idsOf stored kind).save (ast.typeNames kind) = some t := by
    intro kind
    refine Option.ne_none_iff_exists'.1 fun hnone => ?_
    have := TypeIds.save_eq_none.1 hnone
    have := h kind
    omega
  obtain ⟨nodes, hnodes⟩ := hsome .node
  obtain ⟨edges, hedges⟩ := hsome .edge
  refine ⟨⟨ast.definitions, nodes.ids, edges.ids, nodes.next, edges.next⟩,
    assignTypeIds_eq_some.2 ⟨rfl, fun kind => ?_⟩⟩
  cases kind with
  | node => exact hnodes
  | edge => exact hedges

section Calls

variable {C} {m : PageMap} {stored : Option SchemaDto}

theorem SchemaHeld.run_save (h : SchemaHeld C m stored) (hC : C.Faithful) {ast : SchemaAst}
    (check : Bool) {dto : SchemaDto} (hdto : assignTypeIds (astToDto ast) stored = some dto)
    (hdepth : definitionsJsonDepth ast.definitions < RECURSION_LIMIT) :
    (((saveSchemaWith C ast check).run m).1 = .panic ∧ SchemaFull m.count m.header (C.toVec dto)) ∨
      (∃ e, (saveSchemaWith C ast check).run m = (.err e, m)) ∨
      ∃ m', (saveSchemaWith C ast check).run m = (.ok (), m') ∧ SchemaHeld C m' (some dto) := by
  unfold saveSchemaWith
  rw [Prog.run_bind]
  rcases h.run_previous hC ast check with hrun | ⟨e, hrun⟩
  · rw [hrun, Prog.andThen_ok, hdto]
    rw [← (assignTypeIds_eq_some.1 hdto).1] at hdepth
    rcases h.run_write hdepth with hpanic | hok
    · exact .inl hpanic
    · exact .inr (.inr hok)
  · rw [hrun]
    exact .inr (.inl ⟨e, rfl⟩)

/-- A save as a call, behind checks that leave the pages alone. -/
theorem SchemaHeld.saveCall (h : SchemaHeld C m stored) (hC : C.Faithful) (ast : SchemaAst)
    (check : Bool) {c : SchemaCall}
    (hrun : (c.prog C).run m =
      Prog.andThen ((saveSchemaWith C ast check).run m) fun _ => pure none)
    (hwrites : c.writes stored = assignTypeIds (astToDto ast) stored)
    (hne : ∀ kind name, c ≠ .register kind name)
    (hdepth : definitionsJsonDepth ast.definitions < RECURSION_LIMIT)
    (hids : ∀ kind, (max (idsOf stored kind).next 1).toNat +
      newNames (idsOf stored kind).ids (ast.typeNames kind) < UInt16.size) : CallResult C m stored c := by
  obtain ⟨dto, hdto⟩ := assignTypeIds_of_fits hids
  rcases h.run_save hC check hdto hdepth with ⟨hpanic, hfull⟩ | ⟨e, herr⟩ | ⟨m', hok, hheld⟩
  · refine .panic ?_ (hwrites.trans hdto) hfull
    rw [hrun]
    cases hs : (saveSchemaWith C ast check).run m with
    | mk r m' =>
      rw [hs] at hpanic
      cases hpanic
      rfl
  · rw [herr] at hrun
    exact .err hrun
  · rw [hok] at hrun
    refine .wrote hrun (hwrites.trans hdto) hheld ?_ fun kind name id heq => absurd heq (hne kind name)
    rw [(assignTypeIds_eq_some.1 hdto).1]
    exact hdepth

theorem register_definitions {dto dto' : SchemaDto} {kind : DynamicTypeKind} {name : String} {id : UInt16}
    (h : dto.register kind name = .ok (id, some dto')) :
    (dto.typeIds kind).ids.find? (fun p => p.1 = name) = none ∧ id = max (dto.typeIds kind).next 1 ∧
      id.toNat + 1 < UInt16.size ∧
      dto' = dto.setTypeIds kind ⟨(dto.typeIds kind).ids ++ [(name, id)], id + 1⟩ := by
  unfold SchemaDto.register at h
  dsimp only at h
  split at h
  · simp at h
  · rename_i hnew
    split at h
    case isFalse => simp at h
    case isTrue hlt =>
      simp only [Except.ok.injEq, Prod.mk.injEq, Option.some.injEq] at h
      obtain ⟨rfl, rfl⟩ := h
      exact ⟨hnew, rfl, hlt, rfl⟩

@[simp] theorem definitions_setTypeIds (dto : SchemaDto) (kind : DynamicTypeKind) (t : TypeIds) :
    (dto.setTypeIds kind t).definitions = dto.definitions := by
  cases kind <;> rfl

@[simp] theorem typeIds_setTypeIds_self (dto : SchemaDto) (kind : DynamicTypeKind) (t : TypeIds) :
    (dto.setTypeIds kind t).typeIds kind = t := by
  cases kind <;> rfl

theorem typeIds_setTypeIds_ne (dto : SchemaDto) {kind kind' : DynamicTypeKind} (h : kind' ≠ kind)
    (t : TypeIds) : (dto.setTypeIds kind t).typeIds kind' = dto.typeIds kind' := by
  cases kind <;> cases kind' <;> first | rfl | exact absurd rfl h

theorem SchemaHeld.registerCall (h : SchemaHeld C m stored) (hC : C.Faithful) (kind : DynamicTypeKind)
    (name : String) : CallResult C m stored (.register kind name) := by
  have hload := h.run_load hC
  have hrun : (SchemaCall.prog C (.register kind name)).run m =
      Prog.andThen ((registerDynamicType C kind name).run m) fun r => pure (some r.1) := by
    rw [SchemaCall.prog, Prog.run_bind]
  unfold registerDynamicType at hrun
  rw [Prog.run_bind, hload] at hrun
  rcases h.held with ⟨rfl, -⟩ | ⟨dto, rfl, -, hdepth⟩
  · exact .err hrun
  rw [Prog.andThen_ok] at hrun
  cases hreg : dto.register kind name with
  | error e =>
    rw [hreg] at hrun
    exact .err hrun
  | ok r =>
    obtain ⟨id, w⟩ := r
    rw [hreg] at hrun
    cases w with
    | none =>
      refine .same rfl hrun rfl ?_
      unfold SchemaDto.register at hreg
      dsimp only at hreg
      split at hreg
      · rename_i p hp
        simp only [Except.ok.injEq, Prod.mk.injEq, and_true] at hreg
        have hname : p.1 = name := by simpa using List.find?_some hp
        rw [← hreg, ← hname]
        exact List.mem_of_find?_eq_some hp
      · split at hreg <;> simp at hreg
    | some dto' =>
      obtain ⟨-, -, -, hdto'⟩ := register_definitions hreg
      have hwrites : SchemaCall.writes (some dto) (.register kind name) = some dto' := by
        simp [SchemaCall.writes, hreg]
      have hdepth' : definitionsJsonDepth dto'.definitions < RECURSION_LIMIT := by
        rwa [hdto', definitions_setTypeIds]
      dsimp only at hrun
      rw [Prog.run_bind] at hrun
      rcases h.run_write hdepth' with ⟨hpanic, hfull⟩ | ⟨m', hok, hheld⟩
      · refine .panic ?_ hwrites hfull
        rw [hrun]
        cases hs : (writeSchemaDto C dto').run m with
        | mk r m' =>
          rw [hs] at hpanic
          cases hpanic
          rfl
      · rw [hok, Prog.andThen_ok] at hrun
        refine .wrote hrun hwrites hheld hdepth' fun kind' name' id' heq hid => ?_
        cases heq
        cases hid
        rw [hdto', typeIds_setTypeIds_self]
        simp

/-- **What one call does to the stored schema.** -/
theorem SchemaHeld.call (h : SchemaHeld C m stored) (hC : C.Faithful) {c : SchemaCall}
    (hfits : c.Fits stored) : CallResult C m stored c := by
  cases c with
  | applySchema ast =>
    cases hv : validate ast with
    | error e =>
      refine .err (e := e) ?_
      rw [SchemaCall.prog, hv]
      rfl
    | ok u =>
      refine h.saveCall hC ast true ?_ rfl (by simp) hfits.1 hfits.2
      rw [SchemaCall.prog, hv]
      exact Prog.run_bind (saveSchema C ast) _ m
  | saveUnchecked ast =>
    exact h.saveCall hC ast false (Prog.run_bind _ _ _) rfl (by simp) hfits.1 hfits.2
  | register kind name => exact h.registerCall hC kind name

end Calls

/-- **A written schema keeps the ids, and has one for every name of the call.** -/
theorem SchemaCall.writes_sound {stored : Option SchemaDto} {c : SchemaCall} {dto : SchemaDto}
    (h : c.writes stored = some dto) {kind : DynamicTypeKind} {given : List (String × UInt16)}
    (hs : (idsOf stored kind).Sound given) :
    (dto.typeIds kind).Sound (given ++ (dto.typeIds kind).ids) ∧
      (∀ name id, lastOf (idsOf stored kind).ids name = some id →
        lastOf (dto.typeIds kind).ids name = some id) ∧
      ∀ name ∈ c.names kind, (lastOf (dto.typeIds kind).ids name).isSome := by
  have hsave : ∀ ast, assignTypeIds (astToDto ast) stored = some dto →
      c.names kind = ast.typeNames kind → _ := fun ast hast hnames => by
    have := hs.save ((assignTypeIds_eq_some.1 hast).2 kind)
    rw [← hnames] at this
    exact this
  cases c with
  | applySchema ast => exact hsave ast h rfl
  | saveUnchecked ast => exact hsave ast h rfl
  | register kind' name =>
    obtain ⟨old, rfl, hreg⟩ := Option.bind_eq_some_iff.1 h
    cases hr : old.register kind' name with
    | error e =>
      rw [hr] at hreg
      cases hreg
    | ok r =>
      obtain ⟨id, w⟩ := r
      rw [hr] at hreg
      cases hreg
      obtain ⟨hnew, rfl, hlt, rfl⟩ := register_definitions hr
      by_cases hk : kind = kind'
      · subst hk
        obtain ⟨hsound, hstable⟩ := hs.register hnew hlt
        rw [typeIds_setTypeIds_self]
        refine ⟨hsound, hstable, fun name' hmem => ?_⟩
        have hname : name' = name := by simpa [SchemaCall.names] using hmem
        rw [hname]
        exact lastOf_isSome.2 ⟨_, List.mem_append_right _ (List.mem_singleton_self _), rfl⟩
      · rw [typeIds_setTypeIds_ne _ hk]
        refine ⟨⟨hs.issued.subset ?_, fun p hp => List.mem_append_right _ hp, ?_⟩, fun _ _ hid => hid, ?_⟩
        · intro p hp
          exact (List.mem_append.1 hp).elim id (hs.known p)
        · intro p hp
          rcases List.mem_append.1 hp with hp | hp
          · exact hs.kept p hp
          · exact hs.kept p (hs.known p hp)
        · intro name' hmem
          simp [SchemaCall.names, hk] at hmem

/-! ## The ids of a database file -/

/-- The file holds the stored schema, whose tables list ids of `given`. -/
structure SchemaInv (db : DatabaseFile) (stored : Option SchemaDto)
    (given : DynamicTypeKind → List (String × UInt16)) : Prop where
  held : ∃ m, Shows db m ∧ SchemaHeld C m stored
  sound : ∀ kind, (idsOf stored kind).Sound (given kind)

namespace SchemaInv

variable {C} {db db' : DatabaseFile} {stored : Option SchemaDto}
  {given : DynamicTypeKind → List (String × UInt16)}

theorem new {db : DatabaseFile} (h : NewFile db) : SchemaInv C db none fun _ => [] := by
  obtain ⟨m, hd, hcount, hheader, h0⟩ := newFile_shows h
  refine ⟨⟨m, hd, h0, ?_, .inl ⟨rfl, ?_⟩⟩, fun kind => ⟨Issued.nil, by simp [idsOf], by simp⟩⟩
  · rw [hcount]
    decide
  · rw [hheader]
    rfl

theorem storedSchema_eq (h : SchemaInv C db stored given) (hC : C.Faithful) :
    storedSchema C db = stored := by
  obtain ⟨m, hd, hheld⟩ := h.held
  unfold storedSchema
  rw [(hd.exec _).1, hheld.run_load hC]
  cases stored <;> rfl

theorem run_registry (h : SchemaInv C db stored given) (hC : C.Faithful) :
    ((loadSchemaRegistry C).exec db).1 = match stored with
      | some dto => .ok ⟨dto.nodeTypeIds, dto.edgeTypeIds⟩
      | none => .err (.schemaError "no schema stored") := by
  obtain ⟨m, hd, hheld⟩ := h.held
  rw [(hd.exec _).1]
  unfold loadSchemaRegistry
  rw [Prog.run_bind, hheld.run_load hC]
  cases stored <;> rfl

theorem assignments_eq (h : SchemaInv C db stored given) (hC : C.Faithful) (kind : DynamicTypeKind) :
    assignments C db kind = (idsOf stored kind).ids := by
  unfold assignments
  rw [h.run_registry hC]
  cases stored <;> cases kind <;> rfl

theorem typeId_eq (h : SchemaInv C db stored given) (hC : C.Faithful) (kind : DynamicTypeKind)
    (name : String) : typeId C db kind name = lastOf (idsOf stored kind).ids name := by
  unfold typeId
  rw [h.run_registry hC]
  cases stored <;> cases kind <;> rfl

/-- **One call that fits.** -/
theorem call (h : SchemaInv C db stored given) (hC : C.Faithful) {c : SchemaCall}
    (hfits : c.Fits stored) (hok : ((c.prog C).exec db).1 ≠ .panic) :
    SchemaInv C ((c.prog C).exec db).2 stored given ∨
      ∃ dto, c.writes stored = some dto ∧
        SchemaInv C ((c.prog C).exec db).2 (some dto) fun kind => given kind ++ (dto.typeIds kind).ids := by
  obtain ⟨m, hd, hheld⟩ := h.held
  obtain ⟨h1, h2⟩ := hd.exec (c.prog C)
  rw [h1] at hok
  cases hheld.call hC hfits with
  | panic hrun => exact absurd hrun hok
  | err hrun =>
    rw [hrun] at h2
    exact .inl ⟨⟨m, h2, hheld⟩, h.sound⟩
  | same heq hrun =>
    rw [hrun] at h2
    exact .inl ⟨⟨m, h2, hheld⟩, h.sound⟩
  | wrote hrun hwrites hheld' =>
    rw [hrun] at h2
    exact .inr ⟨_, hwrites, ⟨_, h2, hheld'⟩, fun kind => (c.writes_sound hwrites (h.sound kind)).1⟩

theorem step (h : SchemaInv C db stored given) (hC : C.Faithful) {c : SchemaCall}
    (hfits : c.Fits stored) (hstep : c.step C db = some db') : ∃ stored' given',
    SchemaInv C db' stored' given' ∧ (∀ kind, ∀ p ∈ given kind, p ∈ given' kind) ∧
      ∀ kind name id, lastOf (idsOf stored kind).ids name = some id →
        lastOf (idsOf stored' kind).ids name = some id := by
  have hnext : ((c.prog C).exec db).1 ≠ .panic ∧ ((c.prog C).exec db).2 = db' := by
    unfold SchemaCall.step at hstep
    generalize (c.prog C).exec db = r at hstep ⊢
    obtain ⟨r, db₁⟩ := r
    cases r <;> simp_all
  obtain ⟨hok, rfl⟩ := hnext
  rcases h.call hC hfits hok with hinv | ⟨dto, hwrites, hinv⟩
  · exact ⟨stored, given, hinv, fun _ _ hp => hp, fun _ _ _ hid => hid⟩
  · exact ⟨_, _, hinv, fun _ _ hp => List.mem_append_left _ hp,
      fun kind => (c.writes_sound hwrites (h.sound kind)).2.1⟩

/-- **… and a run of calls that fit.** -/
theorem run (h : SchemaInv C db stored given) (hC : C.Faithful) {calls : List SchemaCall}
    (hfits : RunFits C db calls) (hrun : runSchemaCalls C db calls = some db') : ∃ stored' given',
    SchemaInv C db' stored' given' ∧ (∀ kind, ∀ p ∈ given kind, p ∈ given' kind) ∧
      ∀ kind name id, lastOf (idsOf stored kind).ids name = some id →
        lastOf (idsOf stored' kind).ids name = some id := by
  induction calls generalizing db stored given with
  | nil =>
    cases hrun
    exact ⟨stored, given, h, fun _ _ hp => hp, fun _ _ _ hid => hid⟩
  | cons c calls ih =>
    obtain ⟨hfit, hrest⟩ := hfits
    obtain ⟨db₁, hstep, hrun⟩ := Option.bind_eq_some_iff.1 hrun
    rw [h.storedSchema_eq hC] at hfit
    obtain ⟨stored₁, given₁, h₁, hgiven₁, hids₁⟩ := h.step hC hfit hstep
    obtain ⟨stored₂, given₂, h₂, hgiven₂, hids₂⟩ := ih h₁ (hrest _ hstep) hrun
    exact ⟨stored₂, given₂, h₂, fun kind p hp => hgiven₂ kind p (hgiven₁ kind p hp),
      fun kind name id hid => hids₂ kind name id (hids₁ kind name id hid)⟩

/-- At the end of the id space a new name is not written. -/
theorem writes_exhausted {kind : DynamicTypeKind} {name : String}
    (hnext : (max (idsOf stored kind).next 1).toNat + 1 = UInt16.size)
    (hnew : ∀ p ∈ (idsOf stored kind).ids, p.1 ≠ name) :
    SchemaCall.writes stored (.register kind name) = none := by
  cases stored with
  | none => rfl
  | some dto =>
    have hfind : (dto.typeIds kind).ids.find? (fun p => p.1 = name) = none := by
      rw [List.find?_eq_none]
      exact fun p hp => by simpa using hnew p hp
    have hlt : ¬ (max (dto.typeIds kind).next 1).toNat + 1 < UInt16.size := by
      intro hlt
      exact absurd hnext (Nat.ne_of_lt hlt)
    simp [SchemaCall.writes, SchemaDto.register, hfind, hlt]

/-- **What a call that fits reports.** -/
theorem reports (h : SchemaInv C db stored given) (hC : C.Faithful) {c : SchemaCall}
    (hfits : c.Fits stored) : Reports C db c := by
  obtain ⟨m, hd, hheld⟩ := h.held
  have hstored := h.storedSchema_eq hC
  obtain ⟨h1, h2⟩ := hd.exec (c.prog C)
  cases hheld.call hC hfits with
  | panic hrun hwrites hfull =>
    rw [hrun] at h1
    refine ⟨fun hok => ?_, fun _ hok => ?_, fun heq hnext hnew => ?_, fun _ => ⟨_, by rwa [hstored], ?_⟩⟩
    · rw [h1] at hok
      cases hok
    · rw [h1] at hok
      cases hok
    · rw [hstored] at hnext hnew
      rw [heq, writes_exhausted hnext hnew] at hwrites
      cases hwrites
    · rwa [hd.pageCount, hd.header]
  | err hrun =>
    rw [hrun] at h1
    refine ⟨fun hok => ?_, fun _ hok => ?_, fun _ _ _ => ⟨_, h1⟩, fun hpanic => ?_⟩
    · rw [h1] at hok
      cases hok
    · rw [h1] at hok
      cases hok
    · rw [h1] at hpanic
      cases hpanic
  | @same kind name id dto heq hrun hsome hmem =>
    rw [hrun] at h1 h2
    have hinv : SchemaInv C ((c.prog C).exec db).2 stored given := ⟨⟨m, h2, hheld⟩, h.sound⟩
    subst hsome
    refine ⟨fun _ kind' name' hname => ?_, fun heq' hok => ?_, fun heq' _ hnew => ?_, fun hpanic => ?_⟩
    · rw [hinv.typeId_eq hC]
      subst heq
      by_cases hk : kind' = kind
      · subst hk
        have hname' : name' = name := by simpa [SchemaCall.names] using hname
        rw [hname']
        exact lastOf_isSome.2 ⟨_, hmem, rfl⟩
      · simp [SchemaCall.names, hk] at hname
    · rw [hinv.assignments_eq hC]
      rw [h1] at hok
      cases heq.symm.trans heq'
      cases hok
      exact hmem
    · rw [hstored] at hnew
      cases heq.symm.trans heq'
      exact absurd rfl (hnew _ hmem)
    · rw [h1] at hpanic
      cases hpanic
  | wrote hrun hwrites hheld' hdepth hreturned =>
    rw [hrun] at h1 h2
    have hsound := fun kind => c.writes_sound hwrites (h.sound kind)
    have hinv := SchemaInv.mk ⟨_, h2, hheld'⟩ fun kind => (hsound kind).1
    refine ⟨fun _ kind' name' hname => ?_, fun heq' hok => ?_, fun heq' hnext hnew => ?_, fun hpanic => ?_⟩
    · rw [hinv.typeId_eq hC]
      exact (hsound kind').2.2 name' hname
    · rw [hinv.assignments_eq hC]
      rw [h1] at hok
      cases hok
      exact hreturned _ _ _ heq' rfl
    · rw [hstored] at hnext hnew
      rw [heq', writes_exhausted hnext hnew] at hwrites
      cases hwrites
    · rw [h1] at hpanic
      cases hpanic

end SchemaInv

/-- **Type ids are stable, injective and never recycled** along every run whose saves find enough
    ids for their new names and nest their types no deeper than can be read back; the end of the
    id space is an error. -/
theorem typeIds_stable {C : SchemaCodec} (hC : C.Faithful) {db db₁ db₂ : DatabaseFile} (h : NewFile db)
    {before after : List SchemaCall} (h₁ : runSchemaCalls C db before = some db₁)
    (h₂ : runSchemaCalls C db₁ after = some db₂) (hbefore : RunFits C db before)
    (hafter : RunFits C db₁ after) :
    IdsKept C db₁ db₂ ∧ ∀ c : SchemaCall, c.Fits (storedSchema C db₂) → Reports C db₂ c := by
  obtain ⟨stored₁, given₁, hinv₁, -, -⟩ := (SchemaInv.new h).run hC hbefore h₁
  obtain ⟨stored₂, given₂, hinv₂, hgiven, hids⟩ := hinv₁.run hC hafter h₂
  refine ⟨⟨?_, ?_, ?_⟩, ?_⟩
  · intro kind name id hid
    rw [hinv₁.typeId_eq hC] at hid
    rw [hinv₂.typeId_eq hC]
    exact hids kind name id hid
  · intro kind name name' id hname hname'
    rw [hinv₁.assignments_eq hC] at hname
    rw [hinv₂.assignments_eq hC] at hname'
    have hsound := hinv₂.sound kind
    exact hsound.issued.unique (name, id) (hgiven kind _ ((hinv₁.sound kind).known _ hname))
      (name', id) (hsound.known _ hname') rfl
  · intro kind name id hname
    rw [hinv₂.assignments_eq hC] at hname
    have hsound := hinv₂.sound kind
    exact (hsound.issued.range _ (hsound.known _ hname)).1
  · intro c hfits
    rw [hinv₂.storedSchema_eq hC] at hfits
    exact hinv₂.reports hC hfits

/-! ## A serializer -/

instance countableUInt16 : Countable UInt16 :=
  Function.Injective.countable (f := UInt16.toNat) fun _ _ => UInt16.toNat_inj.1

instance countableUInt32 : Countable UInt32 :=
  Function.Injective.countable (f := UInt32.toNat) fun _ _ => UInt32.toNat_inj.1

instance countableChar : Countable Char := Function.Injective.countable (f := Char.val) fun _ _ => Char.ext

instance countableString : Countable String :=
  Function.Injective.countable (f := String.toList) fun _ _ h => String.toList_injective h

deriving instance Countable for TypeExpr
deriving instance Countable for FieldDef
deriving instance Countable for NodeDef
deriving instance Countable for BoundParam
deriving instance Countable for EdgeDef
deriving instance Countable for Definition
deriving instance Countable for SchemaDto

/-- `node User {}` -/
def userSchema : SchemaAst where
  definitions := [.node ⟨"User", [], none, []⟩]

def userDto : SchemaDto where
  definitions := userSchema.definitions
  nodeTypeIds := [("User", 1)]
  edgeTypeIds := []
  nextNodeId := 2
  nextEdgeId := 1

def userJson : List UInt8 :=
  ("\x7b\"definitions\":[\x7b\"kind\":\"Node\",\"name\":\"User\",\"type_params\":[]," ++
    "\"extends\":null,\"fields\":[]\x7d],\"node_type_ids\":[[\"User\",1]]," ++
    "\"edge_type_ids\":[],\"next_node_id\":2,\"next_edge_id\":1\x7d").toList.map fun c =>
      UInt8.ofNat c.toNat

/-- Any number for each schema, different ones for different schemas. -/
noncomputable def schemaNumber : SchemaDto → Nat := (exists_injective_nat SchemaDto).choose

open Classical in
/-- The JSON text of `userDto`, and some other encoding of every other schema. -/
noncomputable def userCodec : SchemaCodec where
  toVec dto := if dto = userDto then userJson else List.replicate (schemaNumber dto) 0
  fromSlice bytes :=
    if bytes = userJson then .ok userDto
    else if h : ∃ dto, List.replicate (schemaNumber dto) 0 = bytes then .ok h.choose
    else .error (.schemaError "invalid")

theorem length_userJson : userJson.length = 173 := by decide +kernel

theorem head_userJson : userJson.head? = some 123 := by decide +kernel

theorem userJson_ne (n : Nat) : List.replicate n 0 ≠ userJson := by
  intro he
  have hhead : (List.replicate n (0 : UInt8)).head? = some 123 := by rw [he, head_userJson]
  rw [List.head?_replicate] at hhead
  split at hhead
  · cases hhead
  · exact absurd (Option.some.inj hhead) (by decide)

theorem userCodec_faithful : userCodec.Faithful where
  fromSlice_toVec dto _ := by
    by_cases h : dto = userDto
    · simp [userCodec, h]
    · have hex : ∃ d, List.replicate (schemaNumber d) (0 : UInt8) = List.replicate (schemaNumber dto) 0 :=
        ⟨dto, rfl⟩
      have hchoose : hex.choose = dto := by
        have hlen := congrArg List.length hex.choose_spec
        rw [List.length_replicate, List.length_replicate] at hlen
        exact (exists_injective_nat SchemaDto).choose_spec hlen
      simp only [userCodec, if_neg h, if_neg (userJson_ne _), dif_pos hex, hchoose]

/-- A call on a file with room does not panic. -/
theorem SchemaInv.step_of_room {C : SchemaCodec} {db : DatabaseFile} {stored : Option SchemaDto}
    {given : DynamicTypeKind → List (String × UInt16)} (h : SchemaInv C db stored given)
    (hC : C.Faithful) {c : SchemaCall} (hfits : c.Fits stored)
    (hroom : ∀ dto, c.writes stored = some dto → ¬ SchemaFull db.pageCount db.header (C.toVec dto)) :
    c.step C db = some ((c.prog C).exec db).2 ∧ ((c.prog C).exec db).1 ≠ .panic := by
  have hok : ((c.prog C).exec db).1 ≠ .panic := by
    intro hpanic
    obtain ⟨dto, hwrites, hfull⟩ := (h.reports hC hfits).panics hpanic
    rw [h.storedSchema_eq hC] at hwrites
    exact hroom dto hwrites hfull
  refine ⟨?_, hok⟩
  unfold SchemaCall.step
  generalize (c.prog C).exec db = r at hok ⊢
  obtain ⟨r, db'⟩ := r
  cases r <;> simp_all

theorem fits_userSchema : (SchemaCall.applySchema userSchema).Fits none := by
  refine ⟨by decide, fun kind => ?_⟩
  cases kind <;> decide

theorem writes_userSchema : (SchemaCall.applySchema userSchema).writes none = some userDto := by
  decide

/-- `apply_schema` on a new database, then the registration of a name it declares. -/
theorem typeIds_stable_userSchema : ∃ db₁ db₂,
    runSchemaCalls userCodec DatabaseFile.createInMemory [.applySchema userSchema] = some db₁ ∧
      runSchemaCalls userCodec db₁ [.register .node "User"] = some db₂ ∧
      IdsKept userCodec db₁ db₂ ∧
        ∀ c : SchemaCall, c.Fits (storedSchema userCodec db₂) → Reports userCodec db₂ c := by
  have hnew : NewFile DatabaseFile.createInMemory := .inr rfl
  have hC := userCodec_faithful
  have hinv := SchemaInv.new (C := userCodec) hnew
  have hroom : ∀ dto, (SchemaCall.applySchema userSchema).writes none = some dto →
      ¬ SchemaFull DatabaseFile.createInMemory.pageCount DatabaseFile.createInMemory.header
        (userCodec.toVec dto) := by
    intro dto hdto
    rw [writes_userSchema] at hdto
    cases hdto
    have hbytes : userCodec.toVec userDto = userJson := by simp [userCodec]
    obtain ⟨m, hd, hcount, hheader, -⟩ := newFile_shows hnew
    rw [hbytes, hd.pageCount, hcount, hd.header, hheader]
    rintro (hfull | hfull)
    · rw [length_userJson] at hfull
      exact absurd hfull (by decide)
    · exact absurd hfull (by decide)
  obtain ⟨hstep, hok⟩ := hinv.step_of_room hC fits_userSchema hroom
  have hcall := hinv.call hC fits_userSchema hok
  generalize hdb : ((SchemaCall.prog userCodec (.applySchema userSchema)).exec
    DatabaseFile.createInMemory).2 = db₁ at hstep hcall
  -- the name is declared, so the registration writes nothing
  have hinv₁ : ∃ stored given, SchemaInv userCodec db₁ stored given ∧
      SchemaCall.writes stored (.register .node "User") = none := by
    rcases hcall with hinv₁ | ⟨dto, hdto, hinv₁⟩
    · exact ⟨_, _, hinv₁, rfl⟩
    · rw [writes_userSchema] at hdto
      cases hdto
      exact ⟨_, _, hinv₁, by decide⟩
  obtain ⟨stored, given, hinv₁, hwrites⟩ := hinv₁
  obtain ⟨hstep₂, -⟩ := hinv₁.step_of_room hC (c := .register .node "User") trivial
    (by simp [hwrites])
  have hrun₁ : runSchemaCalls userCodec DatabaseFile.createInMemory [.applySchema userSchema] =
      some db₁ := by
    rw [runSchemaCalls, hstep, Option.bind_some, runSchemaCalls]
  have hrun₂ : ∃ db₂, runSchemaCalls userCodec db₁ [.register .node "User"] = some db₂ := by
    rw [runSchemaCalls, hstep₂, Option.bind_some, runSchemaCalls]
    exact ⟨_, rfl⟩
  obtain ⟨db₂, hrun₂⟩ := hrun₂
  refine ⟨db₁, db₂, hrun₁, hrun₂, typeIds_stable hC hnew hrun₁ hrun₂ ⟨?_, fun _ _ => trivial⟩
    ⟨trivial, fun _ _ => trivial⟩⟩
  rw [hinv.storedSchema_eq hC]
  exact fits_userSchema

/-! ## More types than ids -/

/-- `node T0 {} node T1 {} …` -/
def nodeTypes (n : Nat) : SchemaAst where
  definitions := (List.range n).map fun i => .node ⟨"T" ++ toString i, [], none, []⟩

theorem validate_nodeTypes (n : Nat) : validate (nodeTypes n) = .ok () := by
  unfold validate nodeTypes
  dsimp only
  generalize List.map NodeDef.name _ = nodeNames
  induction List.range n with
  | nil => rfl
  | cons i l ih =>
    rw [List.map_cons, List.forM]
    exact ih

theorem length_typeNames_nodeTypes (n : Nat) : ((nodeTypes n).typeNames .node).length = n := by
  unfold nodeTypes SchemaAst.typeNames SchemaAst.nodes
  rw [List.filterMap_map]
  simp [Function.comp_def, Definition.node?]

theorem assignTypeIds_nodeTypes {n : Nat} (hn : UInt16.size ≤ n + 1) :
    assignTypeIds (astToDto (nodeTypes n)) none = none := by
  rw [Option.eq_none_iff_forall_ne_some]
  intro dto hdto
  have hsave := (assignTypeIds_eq_some.1 hdto).2 .node
  have hnone : (idsOf none .node).save ((nodeTypes n).typeNames .node) = none := by
    refine TypeIds.save_eq_none.2 ?_
    have hnew : newNames (idsOf none .node).ids ((nodeTypes n).typeNames .node) = n := by
      unfold newNames idsOf
      rw [List.countP_eq_length.2 (by simp), length_typeNames_nodeTypes]
    have hmax : (max (idsOf none .node).next 1).toNat = 1 := by decide
    rw [hnew, hmax]
    omega
  rw [hnone] at hsave
  cases hsave

/-- **A schema with as many new types as there are ids panics**, and not because the file is full. -/
theorem typeIds_exhausted : NewFile DatabaseFile.createInMemory ∧ validate (nodeTypes 65535) = .ok () ∧
    ((SchemaCall.prog userCodec (.applySchema (nodeTypes 65535))).exec DatabaseFile.createInMemory).1 = .panic ∧
      ¬ Reports userCodec DatabaseFile.createInMemory (.applySchema (nodeTypes 65535)) := by
  have hnew : NewFile DatabaseFile.createInMemory := .inr rfl
  have hinv := SchemaInv.new (C := userCodec) hnew
  have hvalid : validate (nodeTypes 65535) = .ok () := validate_nodeTypes _
  have hpanic : ((SchemaCall.prog userCodec (.applySchema (nodeTypes 65535))).exec
      DatabaseFile.createInMemory).1 = .panic := by
    obtain ⟨m, hd, hheld⟩ := hinv.held
    rw [(hd.exec _).1]
    have hroot : m.header.schemaRoot = 0 := by
      rcases hheld.held with ⟨-, hroot⟩ | ⟨dto, hdto, -⟩
      · exact hroot
      · cases hdto
    have hprevious : (previousSchema userCodec (nodeTypes 65535) true).run m = (.ok none, m) := by
      unfold previousSchema
      rw [Prog.run_bind, Prog.run_getHeader, Prog.andThen_ok, if_neg (by simpa using hroot)]
      rfl
    rw [SchemaCall.prog, hvalid]
    show ((saveSchema userCodec (nodeTypes 65535) >>= fun _ => pure none : Prog (Option UInt16)).run m).1 = _
    rw [Prog.run_bind]
    unfold saveSchema saveSchemaWith
    rw [Prog.run_bind, hprevious, Prog.andThen_ok, assignTypeIds_nodeTypes (by decide)]
    rfl
  refine ⟨hnew, hvalid, hpanic, fun h => ?_⟩
  obtain ⟨dto, hwrites, -⟩ := h.panics hpanic
  rw [hinv.storedSchema_eq userCodec_faithful] at hwrites
  rw [SchemaCall.writes, assignTypeIds_nodeTypes (by decide)] at hwrites
  cases hwrites

end ChiffonDB
