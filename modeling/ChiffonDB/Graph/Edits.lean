import Mathlib.Logic.Relation
import ChiffonDB.Graph.Fields

/-!
# Edits

The changes of a database that the schema stays as it is for, one record at a time, and what all of them keep.

* `Contents.Edit` — the changes; `Contents.Edits` — runs of them.
* `Contents.Sound` — the label index is exact, edges join live nodes, and the schema is sound.
* `Contents.Edit.sound`, `Contents.Edits.sound` — **one change and a whole run keep it**.
-/

set_option autoImplicit false

set_option linter.unusedSectionVars false

namespace ChiffonDB

open PropertyIndex

variable {F : Type} [F64 F] [F64Text F]

namespace Contents

/-- A change of one record, or a name that is registered.  Where changes are checked, the schema has let a new record
    in. -/
inductive Edit (C : Codecs F) (checked : Prop) (c : Contents F) : Contents F → Prop
  | insertNode {rid : RecordId} {typeId : UInt16} {props : Props F} (hfresh : c.nodes rid = none)
      (hadmits : c.Admits C typeId props none) (haccepts : checked → c.Accepts .node typeId props) :
      Edit C checked c (c.insertNode C rid typeId props)
  | updateNode {rid : RecordId} {row : NodeRow F} {props : Props F} (hrow : c.nodes rid = some row)
      (hvalid : c.validate .node row.typeId props = .ok ()) (hadmits : c.Admits C row.typeId props (some rid)) :
      Edit C checked c (c.updateNode C rid row props)
  | deleteNode {rid : RecordId} {row : NodeRow F} (hrow : c.nodes rid = some row) :
      Edit C checked c (c.deleteNode C rid row)
  | relabel {rid : RecordId} {row : NodeRow F} {labels : List UInt16} (hrow : c.nodes rid = some row)
      (hnd : (row.typeId :: labels).Nodup) : Edit C checked c (c.relabel rid row labels)
  | insertEdge {eid : RecordId} {typeId : UInt16} {fromNode toNode : RecordId} {props : Props F}
      (hfresh : c.edges eid = none) (hfrom : (c.nodes fromNode).isSome) (hto : (c.nodes toNode).isSome)
      (haccepts : checked → c.Accepts .edge typeId props) :
      Edit C checked c (c.setEdge eid (some ⟨typeId, fromNode, toNode, props, []⟩))
  | updateEdge {eid : RecordId} {row : EdgeRow F} {props : Props F} (hrow : c.edges eid = some row)
      (hvalid : c.validate .edge row.typeId props = .ok ()) :
      Edit C checked c (c.setEdge eid (some { row with props := props }))
  | deleteEdge {eid : RecordId} (hlive : (c.edges eid).isSome) : Edit C checked c (c.setEdge eid none)
  | relabelEdge {eid : RecordId} {row : EdgeRow F} {labels : List UInt16} (hrow : c.edges eid = some row)
      (hnd : (row.typeId :: labels).Nodup) : Edit C checked c (c.relabelEdge eid row labels)
  | register {dto dto' : SchemaDto} {k : DynamicTypeKind} {name : String} {id : UInt16} (hs : c.schema = some dto)
      (hr : dto.resolve k name = .ok (id, dto')) : Edit C checked c (c.withSchema (some dto'))

/-- Changes, one after the other. -/
abbrev Edits (C : Codecs F) (checked : Prop) : Contents F → Contents F → Prop := Relation.ReflTransGen (Edit C checked)

/-! ## What every change keeps -/

/-- Edges join live nodes, and each of their labels is there once. -/
structure EdgesSound (c : Contents F) : Prop where
  fromNode : ∀ eid row, c.edges eid = some row → (c.nodes row.fromNode).isSome
  toNode : ∀ eid row, c.edges eid = some row → (c.nodes row.toNode).isSome
  labels : ∀ eid row, c.edges eid = some row → (row.typeId :: row.labels).Nodup

structure Sound (c : Contents F) : Prop where
  schema : c.SchemaSound
  labels : c.LabelsExact
  edges : c.EdgesSound

variable {C : Codecs F} {checked : Prop} {c c' : Contents F}

namespace EdgesSound

/-- The nodes that are live stay live, and so do the edges. -/
theorem congr (h : c.EdgesSound) (hn : ∀ rid, (c.nodes rid).isSome → (c'.nodes rid).isSome)
    (he : ∀ eid row, c'.edges eid = some row → ∃ old, c.edges eid = some old ∧ old.fromNode = row.fromNode ∧
      old.toNode = row.toNode ∧ old.typeId = row.typeId ∧ old.labels = row.labels) : c'.EdgesSound := by
  refine ⟨fun eid row hr => ?_, fun eid row hr => ?_, fun eid row hr => ?_⟩
  · obtain ⟨old, hold, hfrom, -⟩ := he eid row hr
    rw [← hfrom]
    exact hn _ (h.fromNode eid old hold)
  · obtain ⟨old, hold, -, hto, -⟩ := he eid row hr
    rw [← hto]
    exact hn _ (h.toNode eid old hold)
  · obtain ⟨old, hold, -, -, htype, hlabels⟩ := he eid row hr
    rw [← htype, ← hlabels]
    exact h.labels eid old hold

/-- Only nodes change. -/
theorem sameEdges (h : c.EdgesSound) (hn : ∀ rid, (c.nodes rid).isSome → (c'.nodes rid).isSome)
    (he : c'.edges = c.edges) : c'.EdgesSound := by
  apply h.congr hn
  intro eid row hr
  rw [he] at hr
  exact ⟨row, hr, rfl, rfl, rfl, rfl⟩

/-- **An edge comes, or changes.** -/
theorem setEdge (h : c.EdgesSound) {eid : RecordId} {row : EdgeRow F} (hfrom : (c.nodes row.fromNode).isSome)
    (hto : (c.nodes row.toNode).isSome) (hnd : (row.typeId :: row.labels).Nodup) : (c.setEdge eid (some row)).EdgesSound := by
  have hrow : ∀ {d row'}, (c.setEdge eid (some row)).edges d = some row' → row' = row ∨ c.edges d = some row' := by
    intro d row' hd
    rcases update_eq_some hd with ⟨-, he⟩ | ⟨-, hold⟩
    · cases he
      exact .inl rfl
    · exact .inr hold
  refine ⟨fun d row' hd => ?_, fun d row' hd => ?_, fun d row' hd => ?_⟩
  · rcases hrow hd with rfl | hold
    · exact hfrom
    · exact h.fromNode d row' hold
  · rcases hrow hd with rfl | hold
    · exact hto
    · exact h.toNode d row' hold
  · rcases hrow hd with rfl | hold
    · exact hnd
    · exact h.labels d row' hold

/-- **An edge goes.** -/
theorem removeEdge (h : c.EdgesSound) (eid : RecordId) : (c.setEdge eid none).EdgesSound := by
  refine h.congr (fun _ hn => hn) fun d row hd => ?_
  rcases update_eq_some (show Function.update c.edges eid none d = some row from hd) with ⟨-, he⟩ | ⟨-, hold⟩
  · cases he
  · exact ⟨row, hold, rfl, rfl, rfl, rfl⟩

/-- **A node goes, and the edges at it.** -/
theorem deleteNode (h : c.EdgesSound) (C : Codecs F) (rid : RecordId) (row : NodeRow F) :
    (c.deleteNode C rid row).EdgesSound := by
  have hrow : ∀ {d erow}, (c.deleteNode C rid row).edges d = some erow → c.edges d = some erow ∧
      erow.fromNode ≠ rid ∧ erow.toNode ≠ rid := by
    intro d erow hd
    obtain ⟨hold, hapart⟩ := Option.filter_eq_some_iff.1 hd
    unfold apartFrom at hapart
    simp only [Bool.and_eq_true, decide_eq_true_eq] at hapart
    exact ⟨hold, hapart⟩
  have hlive : ∀ {x}, x ≠ rid → (c.nodes x).isSome → ((c.deleteNode C rid row).nodes x).isSome := by
    intro x hx hn
    show (Function.update c.nodes rid none x).isSome
    rw [Function.update_of_ne hx, hn]
  refine ⟨fun d erow hd => ?_, fun d erow hd => ?_, fun d erow hd => ?_⟩
  · obtain ⟨hold, hne, -⟩ := hrow hd
    exact hlive hne (h.fromNode d erow hold)
  · obtain ⟨hold, -, hne⟩ := hrow hd
    exact hlive hne (h.toNode d erow hold)
  · exact h.labels d erow (hrow hd).1

end EdgesSound

/-- A row that is written over another one. -/
theorem isSome_update {rid x : RecordId} {row : NodeRow F} (h : (c.nodes x).isSome) :
    (Function.update c.nodes rid (some row) x).isSome := by
  by_cases hx : x = rid
  · rw [hx, Function.update_self]
    rfl
  · rw [Function.update_of_ne hx, h]

/-- The schema is the same. -/
theorem SchemaSound.congr (h : c.SchemaSound) (hs : c'.schema = c.schema) : c'.SchemaSound := by
  intro dto hdto
  apply h
  rw [← hs, hdto]

theorem KeepsIds.of_schema (hs : c'.schema = c.schema) : c.KeepsIds c' := fun dto hdto => ⟨dto, hs.trans hdto, .refl dto⟩

/-- Other properties of a node. -/
theorem LabelsExact.updateNode (h : c.LabelsExact) (C : Codecs F) {rid : RecordId} {row : NodeRow F}
    (hrow : c.nodes rid = some row) (props : Props F) : (c.updateNode C rid row props).LabelsExact := by
  refine h.congr rfl fun x => ?_
  show (Function.update c.nodes rid _ x).map _ = _
  by_cases hx : x = rid
  · rw [hx, Function.update_self, hrow]
    rfl
  · rw [Function.update_of_ne hx]

/-- **One change.** -/
theorem Edit.sound (h : Edit C checked c c') (hc : c.Sound) : c'.Sound := by
  cases h with
  | insertNode hfresh hadmits haccepts =>
    exact ⟨hc.schema.congr rfl, hc.labels.insertNode C hfresh _ _, hc.edges.sameEdges (fun _ => isSome_update) rfl⟩
  | updateNode hrow hvalid hadmits =>
    exact ⟨hc.schema.congr rfl, hc.labels.updateNode C hrow _, hc.edges.sameEdges (fun _ => isSome_update) rfl⟩
  | deleteNode hrow => exact ⟨hc.schema.congr rfl, hc.labels.deleteNode C hrow, hc.edges.deleteNode C _ _⟩
  | relabel hrow hnd =>
    exact ⟨hc.schema.congr rfl, hc.labels.relabel hrow hnd, hc.edges.sameEdges (fun _ => isSome_update) rfl⟩
  | insertEdge hfresh hfrom hto haccepts =>
    exact ⟨hc.schema.congr rfl, hc.labels.congr rfl fun _ => rfl, hc.edges.setEdge hfrom hto (List.nodup_singleton _)⟩
  | @updateEdge eid row props hrow hvalid =>
    exact ⟨hc.schema.congr rfl, hc.labels.congr rfl fun _ => rfl,
      hc.edges.setEdge (hc.edges.fromNode eid row hrow) (hc.edges.toNode eid row hrow) (hc.edges.labels eid row hrow)⟩
  | deleteEdge hlive => exact ⟨hc.schema.congr rfl, hc.labels.congr rfl fun _ => rfl, hc.edges.removeEdge _⟩
  | @relabelEdge eid row labels hrow hnd =>
    exact ⟨hc.schema.congr rfl, hc.labels.congr rfl fun _ => rfl,
      hc.edges.setEdge (hc.edges.fromNode eid row hrow) (hc.edges.toNode eid row hrow) hnd⟩
  | register hs hr =>
    refine ⟨fun dto hdto => ?_, hc.labels.withSchema _, hc.edges.sameEdges (fun _ hn => hn) rfl⟩
    cases hdto
    exact ((hc.schema _ hs).resolve hr).1

/-- **No name loses its id.** -/
theorem Edit.keepsIds (h : Edit C checked c c') (hc : c.Sound) : c.KeepsIds c' := by
  cases h with
  | register hs hr =>
    intro dto hdto
    cases hs.symm.trans hdto
    exact ⟨_, rfl, ((hc.schema _ hs).resolve hr).2⟩
  | _ => exact .of_schema rfl

/-- **The types stay as they are.** -/
theorem Edit.sameTypes (h : Edit C checked c c') (hc : c.Sound) : c.SameTypes c' := by
  cases h with
  | register hs hr => exact sameTypes_resolve hs (hc.schema _ hs) hr
  | _ => exact .of_schema rfl

/-- **What every change keeps a run keeps.** -/
theorem Edits.induction {P : Contents F → Prop} (h : Edits C checked c c') (hc : c.Sound) (hP : P c)
    (hstep : ∀ {c c'}, c.Sound → Edit C checked c c' → P c → P c') : c'.Sound ∧ P c' := by
  induction h with
  | refl => exact ⟨hc, hP⟩
  | tail _ hedit ih => exact ⟨hedit.sound ih.1, hstep ih.1 hedit ih.2⟩

theorem Edits.sound (h : Edits C checked c c') (hc : c.Sound) : c'.Sound :=
  (h.induction (P := fun _ => True) hc trivial fun _ _ _ => trivial).1

theorem Edits.keepsIds (h : Edits C checked c c') (hc : c.Sound) : c.KeepsIds c' :=
  (h.induction hc (.refl c) fun hs hedit hk => hk.trans (hedit.keepsIds hs)).2

theorem Edits.sameTypes (h : Edits C checked c c') (hc : c.Sound) : c.SameTypes c' :=
  (h.induction hc (.refl c) fun hs hedit hk => hk.trans (hedit.sameTypes hs)).2

end Contents

end ChiffonDB
