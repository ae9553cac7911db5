import ChiffonDB.Graph.Action
import ChiffonDB.Schema.TypeIdRun
import ChiffonDB.Storage.LabelIndex
import ChiffonDB.Storage.PropertyIndex

/-!
# Behind the records

What the operations of a database call behind its record tables: the property store, the two indexes and the
stored schema.

* `Backing` — the calls; the lookups among them change nothing.
* `Backing PageMap` — the page programs.
-/

set_option autoImplicit false

namespace ChiffonDB

class Backing (M : Type) where
  /-- A new file. -/
  fresh : M
  allocTopologyPage : TopologyKind → PageData → Action M Nat
  /-- `PropertyStore::read_raw`, `write_raw` and `free`. -/
  readBytes : RecordId → M → Outcome (List UInt8)
  writeBytes : List UInt8 → Action M RecordId
  freeBytes : RecordId → Action M Unit
  /-- `LabelIndex::add_new`, `remove` and `get`. -/
  addLabel : UInt16 → RecordId → Action M Unit
  removeLabel : UInt16 → RecordId → Action M Unit
  labelled : UInt16 → M → Outcome (List RecordId)
  /-- `PropertyIndex::add`, `remove` and `candidates`. -/
  addEntry : PropertyIndex.IndexKey → RecordId → Action M Unit
  removeEntry : PropertyIndex.IndexKey → RecordId → Action M Unit
  candidates : PropertyIndex.IndexKey → M → Outcome (List RecordId)
  /-- `schema_root` is set. -/
  hasSchema : M → Bool
  /-- `load_schema_dto` and `write_schema_dto`, without the serializer. -/
  loadSchemaBytes : M → Outcome (List UInt8)
  writeSchemaBytes : List UInt8 → Action M Unit

/-! ## Page programs -/

namespace Prog

variable {α β : Type}

/-- A program as a call on page maps. -/
def act (p : Prog α) : Action PageMap α := p.run

theorem act_bind (p : Prog α) (f : α → Prog β) : (p >>= f).act = (do
    let a ← p.act
    (f a).act) := by
  funext m
  show (p >>= f).run m = Action.andThen (p.run m) fun a => (f a).act
  rw [run_bind]
  obtain ⟨r | e | _, m'⟩ := p.run m <;> rfl

theorem act_attempt (p : Prog α) : p.attempt.act = Action.attempt p.act := by
  funext m
  show p.attempt.run m = _
  rw [run_attempt]
  unfold Action.attempt act
  obtain ⟨r | e | _, m'⟩ := p.run m <;> rfl

theorem act_ofExcept (r : Except GraphError α) : (ofExcept r).act = Action.ofExcept r := by
  cases r <;> rfl

end Prog

instance : Backing PageMap where
  fresh := .fresh
  allocTopologyPage kind page := (allocTopologyPage kind page).act
  readBytes rid m := ((readPropertyBytes rid).run m).1
  writeBytes bytes := (writePropertyBytes bytes).act
  freeBytes rid := (freePropertyBytes rid).act
  addLabel typeId rid := (LabelIndex.addNew typeId rid).act
  removeLabel typeId rid := (LabelIndex.remove typeId rid).act
  labelled typeId m := ((LabelIndex.get typeId).run m).1
  addEntry key rid := (PropertyIndex.add key rid).act
  removeEntry key rid := (PropertyIndex.remove key rid).act
  candidates key m := ((PropertyIndex.candidates key).run m).1
  hasSchema m := m.header.schemaRoot ≠ 0
  loadSchemaBytes m := (loadSchemaBytes.run m).1
  writeSchemaBytes bytes := (writeSchemaBytes bytes).act

end ChiffonDB
