import ChiffonDB.Graph.PurgeEffects
import ChiffonDB.Graph.VacuumEffects

/-!
# Steps

Everything that happens to the contents of a database: single records change, and the schema with all of them.

* `Contents.Step` — one change; `Contents.Steps` — runs of them.
* `Contents.Step.sound`, `Contents.Steps.sound` — **one change and a whole run keep the contents sound**.
* `Contents.Steps.keepsIds` — no name ever loses its id.
-/

set_option autoImplicit false

set_option linter.unusedSectionVars false

namespace ChiffonDB

open PropertyIndex

variable {F : Type} [F64 F] [F64Text F]

/-- What the calls of a run keep to. -/
structure Rules (F : Type) [F64 F] where
  /-- New records are checked against the schema. -/
  checked : Prop
  /-- The names that a field may be given. -/
  names : Set String
  /-- The schemas that may be applied. -/
  applies : Contents F → SchemaAst → Prop

/-- No rules. -/
def Rules.free : Rules F := ⟨False, Set.univ, fun _ _ => True⟩

namespace Contents

/-- A change of one record, of the schema with all records, or of all record ids. -/
inductive Step (C : Codecs F) (X : Pest) (R : Rules F) (c : Contents F) : Contents F → Prop
  | edit {c' : Contents F} (h : Edit C R.checked c c') : Step C X R c c'
  | renamed {kind : RecordKind} {typeName oldName newName : String} {c' : Contents F} (hname : newName ∈ R.names)
      (h : Graph.Renamed C kind typeName oldName newName c c') : Step C X R c c'
  | converted {kind : RecordKind} {typeName fieldName newType : String} {onFailure : OnConversionFailure} {c' : Contents F}
      {change : FieldTypeChange} (h : Graph.Converted C kind typeName fieldName newType onFailure c c' change) :
      Step C X R c c'
  | applied {source : String} {c' : Contents F} (happlies : ∀ ast, parse X source = .ok ast → R.applies c ast)
      (h : Graph.SchemaApplied C X source c c') : Step C X R c c'
  | rebuilt {c' : Contents F} (h : Rebuilt C c c') : Step C X R c c'

/-- Changes, one after the other. -/
abbrev Steps (C : Codecs F) (X : Pest) (R : Rules F) : Contents F → Contents F → Prop :=
  Relation.ReflTransGen (Step C X R)

variable {C : Codecs F} {X : Pest} {R : Rules F} {c c' : Contents F}

/-! ## What every step keeps -/

/-- A schema that is saved. -/
theorem Sound.save (h : c.Sound) {ast : SchemaAst} {check : Bool} {dto : SchemaDto} (hsaves : c.Saves ast check dto) :
    (c.withSchema (some dto)).Sound := by
  refine ⟨fun dto' hdto => ?_, h.labels.withSchema _, h.edges.sameEdges (fun _ hn => hn) rfl⟩
  cases hdto
  exact (hsaves.sound h.schema).1

theorem KeepsIds.save (h : c.Sound) {ast : SchemaAst} {check : Bool} {dto : SchemaDto} (hsaves : c.Saves ast check dto) :
    c.KeepsIds (c.withSchema (some dto)) :=
  fun old hold => ⟨dto, rfl, (hsaves.sound h.schema).2 old hold⟩

/-- Properties that are rewritten. -/
theorem Sound.rewrite (h : c.Sound) (plan : Plan F) : (c.rewrite plan).Sound := by
  refine ⟨h.schema.congr rfl, h.labels.rewrite plan, h.edges.congr (fun rid hn => ?_) fun eid row hr => ?_⟩
  · rw [rewrite_nodes, Option.isSome_map]
    exact hn
  · obtain ⟨old, hold, rfl⟩ := Option.map_eq_some_iff.1 (rewrite_edges plan eid ▸ hr)
    exact ⟨old, hold, rfl, rfl, rfl, rfl⟩

theorem Sound.purgeNodes (h : c.Sound) (purges : List FieldPurge) : (c.purgeNodes C purges).Sound := by
  induction purges generalizing c with
  | nil => exact h
  | cons purge purges ih => exact ih (h.rewrite _)

theorem schema_purgeNodes (purges : List FieldPurge) : (c.purgeNodes C purges).schema = c.schema := by
  induction purges generalizing c with
  | nil => rfl
  | cons purge purges ih => exact ih

/-- A database that only has a schema. -/
theorem Sound.onlySchema (h : c.Sound) : ((Contents.empty : Contents F).withSchema c.schema).Sound where
  schema := h.schema.congr rfl
  labels := labelsExact_empty (fun _ => rfl) fun _ => rfl
  edges := ⟨fun _ _ hr => (by cases hr), fun _ _ hr => (by cases hr), fun _ _ hr => (by cases hr)⟩

theorem sound_empty : (Contents.empty : Contents F).Sound where
  schema := fun _ hs => by cases hs
  labels := labelsExact_empty (fun _ => rfl) fun _ => rfl
  edges := ⟨fun _ _ hr => (by cases hr), fun _ _ hr => (by cases hr), fun _ _ hr => (by cases hr)⟩

/-- **One step.** -/
theorem Step.sound (h : Step C X R c c') (hc : c.Sound) : c'.Sound := by
  cases h with
  | edit h => exact h.sound hc
  | renamed hname h =>
    obtain ⟨dto, -, p, ⟨-, rfl⟩ | ⟨-, dto', hsaves, rfl⟩⟩ := h
    · exact hc
    · exact (hc.save hsaves).rewrite _
  | converted h =>
    obtain rfl | ⟨target, -, dto, -, p, -, dto', hsaves, rfl⟩ := h.changed
    · exact hc
    · exact (hc.save hsaves).rewrite _
  | applied happlies h =>
    obtain ⟨ast, dto, -, hsaves, rfl⟩ := h
    exact ((hc.save hsaves).purgeNodes _).rewrite _
  | rebuilt h =>
    obtain ⟨f, g, h⟩ := h
    exact h.edits.sound hc.onlySchema

/-- **No name loses its id.** -/
theorem Step.keepsIds (h : Step C X R c c') (hc : c.Sound) : c.KeepsIds c' := by
  cases h with
  | edit h => exact h.keepsIds hc
  | renamed hname h =>
    obtain ⟨dto, -, p, ⟨-, rfl⟩ | ⟨-, dto', hsaves, rfl⟩⟩ := h
    · exact .refl _
    · exact KeepsIds.save hc hsaves
  | converted h =>
    obtain rfl | ⟨target, -, dto, -, p, -, dto', hsaves, rfl⟩ := h.changed
    · exact .refl _
    · exact KeepsIds.save hc hsaves
  | applied happlies h =>
    obtain ⟨ast, dto, -, hsaves, rfl⟩ := h
    refine (KeepsIds.save hc hsaves).trans (.of_schema ?_)
    exact schema_purgeNodes _
  | rebuilt h =>
    obtain ⟨f, g, h⟩ := h
    exact .of_schema h.schema

/-- **What every step keeps a run keeps.** -/
theorem Steps.induction {P : Contents F → Prop} (h : Steps C X R c c') (hc : c.Sound) (hP : P c)
    (hstep : ∀ {c c'}, c.Sound → Step C X R c c' → P c → P c') : c'.Sound ∧ P c' := by
  induction h with
  | refl => exact ⟨hc, hP⟩
  | tail _ hedit ih => exact ⟨hedit.sound ih.1, hstep ih.1 hedit ih.2⟩

theorem Steps.sound (h : Steps C X R c c') (hc : c.Sound) : c'.Sound :=
  (h.induction (P := fun _ => True) hc trivial fun _ _ _ => trivial).1

theorem Steps.keepsIds (h : Steps C X R c c') (hc : c.Sound) : c.KeepsIds c' :=
  (h.induction hc (.refl c) fun hs hedit hk => hk.trans (hedit.keepsIds hs)).2

theorem Edits.steps (h : Edits C R.checked c c') : Steps C X R c c' :=
  Relation.ReflTransGen.mono (fun _ _ hedit => Step.edit hedit) _ _ h

end Contents

end ChiffonDB
