import Mathlib.Data.Multiset.AddSub
import Mathlib.Data.Set.Insert
import Mathlib.Logic.Function.Basic
import ChiffonDB.Graph.Backing

/-!
# Faithful backings

What the operations rely on behind the records.

* `Behind` — a map from record ids to byte strings, a multiset of record ids for each label, a set of index
  entries, and the bytes of a schema.
* `FaithfulBacking` — a backing that behaves as one.
* `Parts` — a backing in memory that does.
-/

set_option autoImplicit false

namespace ChiffonDB

open Action PropertyIndex

/-- What is behind the records, as the operations see it. -/
structure Behind where
  values : RecordId → Option (List UInt8)
  labelled : UInt16 → Multiset RecordId
  entries : Set (IndexKey × RecordId)
  schema : Option (List UInt8)

namespace Behind

def empty : Behind := ⟨fun _ => none, fun _ => 0, ∅, none⟩

def setValue (b : Behind) (rid : RecordId) (bytes : Option (List UInt8)) : Behind :=
  { b with values := Function.update b.values rid bytes }

def setLabelled (b : Behind) (typeId : UInt16) (rids : Multiset RecordId) : Behind :=
  { b with labelled := Function.update b.labelled typeId rids }

end Behind

/-- A property store that is a map, indexes that are sets of entries, and a schema that is the one written last.
    A call on them may panic where there is no room left. -/
class FaithfulBacking (M : Type) extends Backing M where
  behind : M → Behind
  /-- The byte strings that the property store takes. -/
  takes : List UInt8 → Bool
  behind_fresh : behind fresh = .empty
  allocates (kind : TopologyKind) (page : PageData) (b : Behind) :
    Meets (fun m => behind m = b) (allocTopologyPage kind page) (fun _ m => behind m = b) fun _ => False
  reads {rid : RecordId} {bytes : List UInt8} {m : M} (h : (behind m).values rid = some bytes) :
    readBytes rid m = .ok bytes
  writes (bytes : List UInt8) (b : Behind) :
    Meets (fun m => behind m = b) (writeBytes bytes)
      (fun rid m => takes bytes = true ∧ b.values rid = none ∧ behind m = b.setValue rid (some bytes))
      fun m => takes bytes = false ∧ behind m = b
  frees {rid : RecordId} {b : Behind} (h : (b.values rid).isSome) :
    Meets (fun m => behind m = b) (freeBytes rid) (fun _ m => behind m = b.setValue rid none) fun _ => False
  addsLabel (typeId : UInt16) (rid : RecordId) (b : Behind) :
    Meets (fun m => behind m = b) (addLabel typeId rid)
      (fun _ m => behind m = b.setLabelled typeId (rid ::ₘ b.labelled typeId)) fun _ => False
  removesLabel (typeId : UInt16) (rid : RecordId) (b : Behind) :
    Meets (fun m => behind m = b) (removeLabel typeId rid)
      (fun _ m => behind m = b.setLabelled typeId ((b.labelled typeId).erase rid)) fun _ => False
  labelled_eq (typeId : UInt16) (m : M) :
    ∃ rids : List RecordId, labelled typeId m = .ok rids ∧ (rids : Multiset RecordId) = (behind m).labelled typeId
  addsEntry (key : IndexKey) (rid : RecordId) (b : Behind) :
    Meets (fun m => behind m = b) (addEntry key rid)
      (fun _ m => behind m = { b with entries := insert (key, rid) b.entries }) fun _ => False
  removesEntry (key : IndexKey) (rid : RecordId) (b : Behind) :
    Meets (fun m => behind m = b) (removeEntry key rid)
      (fun _ m => behind m = { b with entries := b.entries \ {(key, rid)} }) fun _ => False
  candidates_eq (key : IndexKey) (m : M) :
    ∃ rids, candidates key m = .ok rids ∧ ∀ rid, rid ∈ rids ↔ (key, rid) ∈ (behind m).entries
  hasSchema_eq (m : M) : hasSchema m = (behind m).schema.isSome
  loadSchemaBytes_eq (m : M) : loadSchemaBytes m = match (behind m).schema with
    | some bytes => .ok bytes
    | none => .err (.schemaError "no schema stored")
  writesSchema (bytes : List UInt8) (b : Behind) :
    Meets (fun m => behind m = b) (writeSchemaBytes bytes) (fun _ m => behind m = { b with schema := some bytes })
      fun _ => False

/-! ## In memory -/

/-- The parts of a database in memory; `next` numbers the values. -/
structure Parts where
  values : RecordId → Option (List UInt8)
  next : Nat
  labelled : UInt16 → List RecordId
  entries : List (IndexKey × RecordId)
  schema : Option (List UInt8)

namespace Parts

def empty : Parts := ⟨fun _ => none, 0, fun _ => [], [], none⟩

def behind (p : Parts) : Behind where
  values := p.values
  labelled typeId := p.labelled typeId
  entries := { e | e ∈ p.entries }
  schema := p.schema

/-- The record id of a value. -/
def ridOf (n : Nat) : RecordId := ⟨UInt32.ofNat (n / UInt16.size), UInt16.ofNat n⟩

instance : Backing Parts where
  fresh := empty
  allocTopologyPage _ _ p := (.ok 0, p)
  readBytes rid p :=
    match p.values rid with
    | some bytes => .ok bytes
    | none => .err (.propertySlotFreed)
  writeBytes bytes p :=
    match p.values (ridOf p.next) with
    | some _ => (.panic, p)
    | none => (.ok (ridOf p.next), { p with
        values := Function.update p.values (ridOf p.next) (some bytes)
        next := p.next + 1 })
  freeBytes rid p := (.ok (), { p with values := Function.update p.values rid none })
  addLabel typeId rid p := (.ok (), { p with
    labelled := Function.update p.labelled typeId (rid :: p.labelled typeId) })
  removeLabel typeId rid p := (.ok (), { p with
    labelled := Function.update p.labelled typeId ((p.labelled typeId).erase rid) })
  labelled typeId p := .ok (p.labelled typeId)
  addEntry key rid p := (.ok (), if (key, rid) ∈ p.entries then p else { p with entries := (key, rid) :: p.entries })
  removeEntry key rid p := (.ok (), { p with entries := p.entries.filter (· ≠ (key, rid)) })
  candidates key p := .ok ((p.entries.filter fun e => e.1 = key).map Prod.snd)
  hasSchema p := p.schema.isSome
  loadSchemaBytes p :=
    match p.schema with
    | some bytes => .ok bytes
    | none => .err (.schemaError "no schema stored")
  writeSchemaBytes bytes p := (.ok (), { p with schema := some bytes })

theorem behind_setLabelled (p : Parts) (typeId : UInt16) (rids : List RecordId) :
    ({ p with labelled := Function.update p.labelled typeId rids } : Parts).behind = p.behind.setLabelled typeId rids := by
  refine congrArg (fun l => ({ p.behind with labelled := l } : Behind)) (funext fun id => ?_)
  by_cases h : id = typeId
  · rw [h]
    simp
  · simp [Function.update_of_ne h, behind]

theorem behind_entries (p : Parts) {l : List (IndexKey × RecordId)} {e : Set (IndexKey × RecordId)}
    (h : ∀ x, x ∈ l ↔ x ∈ e) : ({ p with entries := l } : Parts).behind = { p.behind with entries := e } :=
  congrArg (fun e => ({ p.behind with entries := e } : Behind)) (Set.ext h)

instance : FaithfulBacking Parts where
  behind := behind
  takes _ := true
  behind_fresh := congrArg (fun e => (⟨_, _, e, _⟩ : Behind)) (Set.ext fun _ => by simp [empty, Backing.fresh])
  allocates _ _ b _ h := h
  reads {rid bytes m} h := by
    show (match m.values rid with | some bytes => Outcome.ok bytes | none => .err .propertySlotFreed) = _
    rw [show m.values rid = some bytes from h]
  writes bytes b := by
    rintro p rfl
    show Post _ _ (match p.values (ridOf p.next) with | some _ => _ | none => _)
    cases hp : p.values (ridOf p.next) with
    | some old => trivial
    | none => exact ⟨rfl, hp, rfl⟩
  frees {rid b} _ := by
    rintro p rfl
    rfl
  addsLabel typeId rid b := by
    rintro p rfl
    exact p.behind_setLabelled typeId (rid :: p.labelled typeId)
  removesLabel typeId rid b := by
    rintro p rfl
    exact p.behind_setLabelled typeId ((p.labelled typeId).erase rid)
  labelled_eq typeId p := ⟨p.labelled typeId, rfl, rfl⟩
  addsEntry key rid b := by
    rintro p rfl
    show behind (if (key, rid) ∈ p.entries then p else _) = _
    split
    · rename_i h
      exact p.behind_entries fun x => by
        show x ∈ p.entries ↔ x = (key, rid) ∨ x ∈ p.entries
        refine ⟨.inr, ?_⟩
        rintro (rfl | hx)
        · exact h
        · exact hx
    · exact p.behind_entries fun x => List.mem_cons
  removesEntry key rid b := by
    rintro p rfl
    exact p.behind_entries fun x => by simp [behind]
  candidates_eq key p := ⟨_, rfl, fun rid => by simp [behind]⟩
  hasSchema_eq p := rfl
  loadSchemaBytes_eq p := rfl
  writesSchema bytes b := by
    rintro p rfl
    rfl

end Parts

end ChiffonDB
