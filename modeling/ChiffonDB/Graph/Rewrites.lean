import ChiffonDB.Graph.Operations

/-!
# Schema changes on a linked topology

The operations that rewrite the records of a type take its record ids from the label index, whatever it
holds.  A record of that type has been written, so that it is in its slot.

* `Graph.NoTypeZero` — the registry gives the reserved id 0 to no type.
* `Graph.meets_applySchema`, `Graph.meets_renameField`, `Graph.meets_changeFieldType` — **schema changes keep the
  topology linked**.
* `Graph.secures_vacuum` — so does a rebuild.
-/

set_option autoImplicit false

set_option linter.unusedSectionVars false

namespace ChiffonDB

open Action

variable {F : Type} [F64 F] [F64Text F] {M : Type} [Backing M]

theorem NodeRecord.nodeTypeId_blank : NodeRecord.blank.nodeTypeId = 0 := by decide

theorem EdgeRecord.edgeTypeId_blank : EdgeRecord.blank.edgeTypeId = 0 := by decide

namespace Graph

open Topo

variable (C : Codecs F) (X : Pest) {α : Type} {rid : RecordId}

/-! ## Records of a type -/

/-- A record of a registered type is in its slot. -/
theorem Named.hasNode {t : Topo} (hn : t.Named) (h : t.Linked) {r : NodeRecord} (hr : t.nodes.read rid = .ok r)
    (htype : r.nodeTypeId ≠ 0) : HasNode rid r t := by
  refine ⟨h, hr, (hn.nodes rid r hr).resolve_right ?_⟩
  rintro rfl
  exact htype NodeRecord.nodeTypeId_blank

theorem Named.hasEdge {t : Topo} (hn : t.Named) (h : t.Linked) {r : EdgeRecord} (hr : t.edges.read rid = .ok r)
    (htype : r.edgeTypeId ≠ 0) : HasEdge rid r t := by
  refine ⟨h, hr, (hn.edges rid r hr).resolve_right ?_⟩
  rintro rfl
  exact htype EdgeRecord.edgeTypeId_blank

/-! ## Purges -/

theorem secures_purgeNode (purge : FieldPurge) (hp : purge.typeId ≠ 0) (rid : RecordId) :
    Secures Linked (purgeNode C purge rid : Action (Graph M) _) fun _ => Linked := by
  refine .bind (secures_readNode (fun _ h => h) rid) fun node => ?_
  split
  · exact .pure fun _ h => h.1
  · rename_i htype
    refine Secures.mono (P := HasNode rid node) (Q := fun _ => Linked) ?_
      (fun t hn h => Named.hasNode hn h.1 h.2 (by rw [not_not.1 htype]; exact hp)) fun _ _ h => h
    split
    · exact .pure fun _ h => h.1
    · refine .behind (quiet_readProps C _) (fun _ h => h.1) fun props => ?_
      split
      · exact .pure fun _ h => h.1
      · refine .behind (.forEach fun _ => quiet_maintainPath C _ _ _ _ _) (fun _ h => h.1) fun _ => ?_
        refine .behind (quiet_writeProps C _) (fun _ h => h.1) fun pref => ?_
        refine .bind (secures_writeNodeProps pref) fun _ => ?_
        exact .quietly (quiet_freeRef _) (fun _ h => h.1) fun _ _ h => h.1

theorem secures_purgeEdge (purges : List FieldPurge) (hp : ∀ p ∈ purges, p.typeId ≠ 0) (rid : RecordId) :
    Secures Linked (purgeEdge C purges rid : Action (Graph M) _) fun _ => Linked := by
  refine .bind (secures_readEdge (fun _ h => h) rid) fun edge => ?_
  split
  · rename_i purge oldRef hfind hpref
    have htype : purge.typeId = edge.edgeTypeId := by simpa using List.find?_some hfind
    refine Secures.mono (P := HasEdge rid edge) (Q := fun _ => Linked) ?_
      (fun t hn h => Named.hasEdge hn h.1 h.2 (htype ▸ hp purge (List.mem_of_find?_eq_some hfind))) fun _ _ h => h
    refine .behind (quiet_readProps C _) (fun _ h => h.1) fun props => ?_
    split
    · exact .pure fun _ h => h.1
    · refine .behind (quiet_writeProps C _) (fun _ h => h.1) fun pref => ?_
      refine .bind (secures_writeEdgeProps pref) fun _ => ?_
      exact .quietly (quiet_freeRef _) (fun _ h => h.1) fun _ _ h => h.1
  · exact .pure fun _ h => h.1

/-- A loop over records. -/
theorem secures_forEach {β : Type} {as : List β} {body : β → Action (Graph M) Unit}
    (h : ∀ a ∈ as, Secures Linked (body a) fun _ => Linked) : Secures Linked (forEach as body) fun _ => Linked :=
  Keeps.forEach h

theorem secures_collect {β γ : Type} {as : List β} {body : β → Action (Graph M) (Option γ)}
    (h : ∀ a ∈ as, Secures Linked (body a) fun _ => Linked) : Secures Linked (collect as body) fun _ => Linked :=
  Keeps.collect h

theorem secures_saveSchemaAndPurge (ast : SchemaAst) {nodePurges edgePurges : List FieldPurge}
    (hn : ∀ p ∈ nodePurges, p.typeId ≠ 0) (he : ∀ p ∈ edgePurges, p.typeId ≠ 0) :
    Secures Linked (saveSchemaAndPurge C ast nodePurges edgePurges : Action (Graph M) _) fun _ => Linked := by
  refine .behind (quiet_saveSchemaWith C _ _) (fun _ h => h) fun _ => ?_
  refine .bind (secures_forEach fun purge hmem => .behind (.lookup _) (fun _ h => h) fun rids =>
    secures_forEach fun rid _ => secures_purgeNode C purge (hn purge hmem) rid) fun _ => ?_
  split
  · exact .pure fun _ h => h
  · exact .behind (.reads _) (fun _ h => h) fun rids => secures_forEach fun rid _ => secures_purgeEdge C _ he rid

/-- Behind an error the snapshot is back. -/
theorem secures_orRestore {p : Action (Graph M) α} (h : Secures Linked p fun _ => Linked) :
    Secures Linked (orRestore p : Action (Graph M) _) fun _ => Linked := by
  intro g hg
  have hp := h g hg
  unfold orRestore
  cases hr : p g with
  | mk r g' =>
    rw [hr] at hp
    cases r with
    | ok a => exact hp
    | err e => exact hg
    | panic => trivial

/-! ## The registry in use -/

/-- The registry gives the reserved id 0 to no type. -/
def NoTypeZero (g : Graph M) : Prop := ∀ r, (loadSchemaRegistry C g).1 = .ok r →
  (∀ name, r.nodeTypeId name ≠ some 0) ∧ ∀ name, r.edgeTypeId name ≠ some 0

theorem still_loadSchemaDto : Still (loadSchemaDto C : Action (Graph M) SchemaDto) :=
  (Still.reads _).bind fun _ => .ofExcept _

theorem still_loadSchema : Still (loadSchema C : Action (Graph M) SchemaAst) :=
  (still_loadSchemaDto C).bind fun _ => .pure _

theorem still_loadSchemaRegistry : Still (loadSchemaRegistry C : Action (Graph M) SchemaRegistry) :=
  (still_loadSchemaDto C).bind fun _ => .pure _

/-- Linked, and without a type 0. -/
def Ready (g : Graph M) : Prop := At Linked g ∧ NoTypeZero C g

theorem Ready.linked (g : Graph M) (h : Ready C g) : At Linked g := h.1

/-- The registry, read before anything is written. -/
theorem meets_loadSchemaRegistry : Meets (Ready C) (loadSchemaRegistry C : Action (Graph M) _)
    (fun r g => At Linked g ∧ (∀ name, r.nodeTypeId name ≠ some 0) ∧ ∀ name, r.edgeTypeId name ≠ some 0)
    (At Linked) := by
  intro g hg
  have hsame := still_loadSchemaRegistry C g
  cases hr : loadSchemaRegistry C g with
  | mk r g' =>
    rw [hr] at hsame
    obtain rfl : g' = g := hsame
    cases r with
    | ok r => exact ⟨hg.1, hg.2 r (by rw [hr])⟩
    | err e => exact hg.1
    | panic => trivial

theorem typeId_of_planPurge {new : SchemaAst} {kind : RecordKind} {name : String} {fields : List FieldDef}
    {typeId : Option UInt16} {purge : FieldPurge} (h : planPurge new kind name fields typeId = some purge) :
    typeId = some purge.typeId := by
  unfold planPurge at h
  obtain ⟨newFields, -, h⟩ := Option.bind_eq_some_iff.1 h
  dsimp only at h
  split at h
  · cases h
  · obtain ⟨id, hid, h⟩ := Option.bind_eq_some_iff.1 h
    cases h
    exact hid

theorem meets_purgesFor (ast : SchemaAst) : Meets (Ready C) (purgesFor C ast : Action (Graph M) _)
    (fun r g => At Linked g ∧ (∀ p ∈ r.1, p.typeId ≠ 0) ∧ ∀ p ∈ r.2, p.typeId ≠ 0) (At Linked) := by
  refine Meets.bind (((still_loadSchema C).attempt.keeps (Ready C)).mono (fun _ h => h) (fun _ _ h => h)
    (Ready.linked C)) fun loaded => ?_
  split
  · rename_i old
    refine Meets.bind (meets_loadSchemaRegistry C) fun registry => Meets.pure fun g hg => ⟨hg.1, ?_, ?_⟩
    · intro p hp hzero
      obtain ⟨n, -, hn⟩ := List.mem_filterMap.1 hp
      exact hg.2.1 n.name (hzero ▸ typeId_of_planPurge hn)
    · intro p hp hzero
      obtain ⟨e, -, he⟩ := List.mem_filterMap.1 hp
      exact hg.2.2 e.name (hzero ▸ typeId_of_planPurge he)
  · exact Meets.pure fun g hg => ⟨hg.1, by simp, by simp⟩
  · exact Meets.throw (Ready.linked C)

/-- **`apply_schema`.** -/
theorem meets_applySchema (text : String) :
    Meets (Ready C) (applySchema C X text : Action (Graph M) _) (fun _ => At Linked) (At Linked) := by
  refine Meets.bind (Meets.reads (fun g ast hg _ => hg) (Ready.linked C)) fun ast => ?_
  refine Meets.bind (Meets.ofExcept (fun g _ hg _ => hg) (Ready.linked C)) fun _ => ?_
  refine Meets.bind (meets_purgesFor C ast) fun purges => ?_
  obtain ⟨nodePurges, edgePurges⟩ := purges
  rintro g ⟨hg, hn, he⟩
  show Post _ _ ((if nodePurges.isEmpty && edgePurges.isEmpty then saveSchema C ast else _ : Action (Graph M) Unit) g)
  split
  · exact quiet_saveSchemaWith C _ _ Linked g hg
  · exact secures_orRestore (secures_saveSchemaAndPurge C ast hn he) g hg

/-! ## Fields -/

/-- A record of the type, whose properties are replaced. -/
def KnownRecord (kind : RecordKind) (rid : RecordId) : Topo → Prop :=
  match kind with
  | .node => KnownNode rid
  | .edge => KnownEdge rid

theorem KnownRecord.linked {kind : RecordKind} (t : Topo) (h : KnownRecord kind rid t) : t.Linked := by
  cases kind with
  | node => exact h.1
  | edge => exact h.1

/-- The stored properties of a record of a registered type. -/
theorem secures_rawPropsOfType (kind : RecordKind) {typeId : UInt16} (htype : typeId ≠ 0) (rid : RecordId) :
    Secures Linked (rawPropsOfType C kind typeId rid : Action (Graph M) _) fun props t =>
      t.Linked ∧ (props.isSome → KnownRecord kind rid t) := by
  have hrecord : Secures Linked (recordRef kind rid : Action (Graph M) _) fun r t =>
      t.Linked ∧ (r.1 = typeId → KnownRecord kind rid t) := by
    cases kind with
    | node =>
      refine .bind ((secures_readNode (fun _ h => h) rid).mono (fun _ _ h => h) fun _ _ h => h) fun node => ?_
      refine Secures.mono (P := fun t => t.Linked ∧ (node.nodeTypeId = typeId → KnownNode rid t))
        (.pure fun _ h => h) (fun t hn h => ⟨h.1, fun he => (Named.hasNode hn h.1 h.2 (he ▸ htype)).known⟩)
        fun _ _ h => h
    | edge =>
      refine .bind ((secures_readEdge (fun _ h => h) rid).mono (fun _ _ h => h) fun _ _ h => h) fun edge => ?_
      refine Secures.mono (P := fun t => t.Linked ∧ (edge.edgeTypeId = typeId → KnownEdge rid t))
        (.pure fun _ h => h) (fun t hn h => ⟨h.1, fun he => (Named.hasEdge hn h.1 h.2 (he ▸ htype)).known⟩)
        fun _ _ h => h
  refine .bind hrecord fun r => ?_
  obtain ⟨recordType, pref⟩ := r
  cases pref with
  | none => exact .pure fun _ h => ⟨h.1, by simp⟩
  | some pref =>
    show Secures _ (if recordType = typeId then _ else _ : Action (Graph M) _) _
    split
    · rename_i he
      exact .behind (quiet_readProps C _) (fun _ h => h.1) fun _ => .pure fun _ h => ⟨h.1, fun _ => h.2 he⟩
    · exact .pure fun _ h => ⟨h.1, by simp⟩

theorem secures_replaceRawProps (kind : RecordKind) (props : Props F) :
    Secures (KnownRecord kind rid) (replaceRawProps C kind rid props : Action (Graph M) _) fun _ => Linked := by
  refine .behind (quiet_writeProps C _) KnownRecord.linked fun pref => ?_
  refine .bind (Q := fun _ => Linked) ?_ fun _ => .quietly (quiet_freeRef _) (fun _ h => h) fun _ _ h => h
  cases kind with
  | node =>
    exact .bind secures_readKnownNode fun _ => .bind (secures_writeNodeProps pref) fun _ => .pure fun _ h => h.1
  | edge =>
    exact .bind secures_readKnownEdge fun _ => .bind (secures_writeEdgeProps pref) fun _ => .pure fun _ h => h.1

theorem quiet_ridsOfKind (kind : RecordKind) (typeId : UInt16) : Quiet (ridsOfKind kind typeId : Action (Graph M) _) := by
  cases kind with
  | node => exact .lookup _
  | edge => exact .reads _

theorem quiet_moveEntry (typeId : UInt16) (oldName newName : String) (rid : RecordId) (value : Value F) :
    Quiet (moveEntry C typeId oldName newName rid value : Action (Graph M) _) :=
  .bind (.ofExcept _) fun _ => .bind (.onPages _) fun _ => .onPages _

/-- One record of `rename_field_records`. -/
theorem secures_renameRecord (kind : RecordKind) {typeId : UInt16} (htype : typeId ≠ 0) (oldName newName : String)
    (indexed : Bool) (rid : RecordId) :
    Secures Linked (renameRecord C kind typeId oldName newName indexed rid : Action (Graph M) _) fun _ => Linked := by
  refine .bind (secures_rawPropsOfType C kind htype rid) fun props => ?_
  cases props with
  | none => exact .pure fun _ h => h.1
  | some props =>
    refine Secures.mono (P := KnownRecord kind rid) (Q := fun _ => Linked) ?_ (fun t _ h => h.2 rfl) fun _ _ h => h
    dsimp only
    split
    · split
      · exact secures_replaceRawProps C kind _
      · exact .pure KnownRecord.linked
    · exact .behind (.onlyIf (quiet_moveEntry C _ _ _ _ _)) KnownRecord.linked fun _ => secures_replaceRawProps C kind _

theorem secures_renameFieldRecords (ast : SchemaAst) (kind : RecordKind) {typeId : UInt16} (htype : typeId ≠ 0)
    (oldName newName : String) (indexed : Bool) :
    Secures Linked (renameFieldRecords C ast kind typeId oldName newName indexed : Action (Graph M) _) fun _ => Linked :=
  .behind (quiet_saveSchemaWith C _ _) (fun _ h => h) fun _ => .behind (quiet_ridsOfKind kind typeId) (fun _ h => h) fun _ =>
    secures_forEach fun rid _ => secures_renameRecord C kind htype _ _ _ rid

/-- The type id that a schema change works on. -/
theorem meets_schemaTypeId (kind : RecordKind) (typeName : String) :
    Meets (Ready C) (schemaTypeId C kind typeName : Action (Graph M) _) (fun id g => At Linked g ∧ id ≠ 0) (At Linked) := by
  refine Meets.bind (meets_loadSchemaRegistry C) fun registry => ?_
  split
  · rename_i id hid
    refine Meets.pure fun g hg => ⟨hg.1, ?_⟩
    rintro rfl
    cases kind with
    | node => exact hg.2.1 typeName hid
    | edge => exact hg.2.2 typeName hid
  · exact Meets.throw fun g hg => hg.1

/-- A change of the schema that works on one type. -/
theorem meets_typeChange {β : Type} (kind : RecordKind) (typeName : String) {f : SchemaAst → UInt16 → Action (Graph M) β}
    (hf : ∀ ast typeId, typeId ≠ 0 → Secures Linked (f ast typeId : Action (Graph M) _) fun _ => Linked) :
    Meets (Ready C) (do
      let ast ← loadSchema C
      let typeId ← schemaTypeId C kind typeName
      f ast typeId : Action (Graph M) _) (fun _ => At Linked) (At Linked) := by
  refine Meets.bind (((still_loadSchema C).keeps (Ready C)).mono (fun _ h => h) (fun _ _ h => h)
    (Ready.linked C)) fun ast => ?_
  refine Meets.bind (meets_schemaTypeId C kind typeName) fun typeId => ?_
  exact fun g hg => hf ast typeId hg.2 g hg.1

/-- **`rename_node_field`, `rename_edge_field`.** -/
theorem meets_renameField (kind : RecordKind) (typeName oldName newName : String) :
    Meets (Ready C) (renameField C X kind typeName oldName newName : Action (Graph M) _) (fun _ => At Linked) (At Linked) := by
  refine meets_typeChange C kind typeName fun ast typeId htype => ?_
  refine .behind (.ofExcept _) (fun _ h => h) fun fields => ?_
  refine .behind (.ofExcept _) (fun _ h => h) fun found => ?_
  obtain ⟨position, field⟩ := found
  show Secures _ (if oldName = newName then _ else _ : Action (Graph M) _) _
  split
  · exact .pure fun _ h => h
  · split
    · exact .throw fun _ h => h
    · refine .behind (.ofExcept _) (fun _ h => h) fun _ => .behind (.reads _) (fun _ h => h) fun reparsed => ?_
      split
      · exact .throw fun _ h => h
      · exact secures_orRestore (secures_renameFieldRecords C _ kind htype _ _ _)

theorem quiet_checkConverted (fieldName : String) (value : Value F) (rid other : RecordId) :
    Quiet (checkConverted C fieldName value rid other : Action (Graph M) _) :=
  .ite (.pure _) (.bind (quiet_nodePropertiesRaw C other) fun _ => .ite (.throw _) (.pure _))

theorem quiet_reindexConverted (typeId : UInt16) (fieldName : String) (unique : Bool) (rid : RecordId)
    (old new : Value F) : Quiet (reindexConverted C typeId fieldName unique rid old new : Action (Graph M) _) :=
  .bind (.onlyIf (.bind (quiet_indexKey C _ _ _) fun _ => .onPages _)) fun _ =>
    .onlyIf (.bind (quiet_indexKey C _ _ _) fun _ =>
      .bind (.onlyIf (.bind (.lookup _) fun _ => .forEach fun _ => quiet_checkConverted C _ _ _ _)) fun _ =>
        .onPages _)

/-- One record of `convert_field_records`. -/
theorem secures_convertRecord (kind : RecordKind) {typeId : UInt16} (htype : typeId ≠ 0) (fieldName : String)
    (target : TypeExpr) (indexed unique : Bool) (rid : RecordId) :
    Secures Linked (convertRecord C kind typeId fieldName target indexed unique rid : Action (Graph M) _) fun _ => Linked := by
  refine .bind (secures_rawPropsOfType C kind htype rid) fun props => ?_
  cases props with
  | none => exact .pure fun _ h => h.1
  | some props =>
    refine Secures.mono (P := KnownRecord kind rid) (Q := fun _ => Linked) ?_ (fun t _ h => h.2 rfl) fun _ _ h => h
    dsimp only
    split
    · exact .pure KnownRecord.linked
    · exact .pure KnownRecord.linked
    · split
      · exact .pure KnownRecord.linked
      · exact .behind (.onlyIf (quiet_reindexConverted C _ _ _ _ _ _)) KnownRecord.linked fun _ =>
          .bind (secures_replaceRawProps C kind _) fun _ => .pure fun _ h => h

theorem secures_convertField (ast : SchemaAst) (kind : RecordKind) {typeId : UInt16} (htype : typeId ≠ 0)
    (field : FieldDef) (target : TypeExpr) (onFailure : OnConversionFailure) :
    Secures Linked (convertField C ast kind typeId field target onFailure : Action (Graph M) _) fun _ => Linked := by
  refine .behind (quiet_ridsOfKind kind typeId) (fun _ h => h) fun rids => ?_
  refine .bind (secures_collect fun rid _ => ?_) fun failed => ?_
  · refine .bind (secures_rawPropsOfType C kind htype rid) fun props => ?_
    cases props with
    | none => exact .pure fun _ h => h.1
    | some props => exact .pure fun _ h => h.1
  · split
    · exact .pure fun _ h => h
    · refine .bind (secures_orRestore (.behind (quiet_saveSchemaWith C _ _) (fun _ h => h) fun _ => .bind (secures_collect fun rid _ =>
        secures_convertRecord C kind htype _ _ _ _ rid) fun _ => .pure fun _ h => h)) fun _ => .pure fun _ h => h

/-- **`change_node_field_type`, `change_edge_field_type`.** -/
theorem meets_changeFieldType (kind : RecordKind) (typeName fieldName newType : String)
    (onFailure : OnConversionFailure) :
    Meets (Ready C) (changeFieldType C kind typeName fieldName newType onFailure : Action (Graph M) _) (fun _ => At Linked) (At Linked) := by
  unfold changeFieldType
  split
  · exact Meets.throw (Ready.linked C)
  · refine meets_typeChange C kind typeName fun ast typeId htype => ?_
    refine .behind (.ofExcept _) (fun _ h => h) fun fields => ?_
    refine .behind (.ofExcept _) (fun _ h => h) fun found => ?_
    obtain ⟨position, field⟩ := found
    show Secures _ (if field.typeExpr = _ then _ else _ : Action (Graph M) _) _
    split
    · exact .pure fun _ h => h
    · split
      · exact .throw fun _ h => h
      · exact secures_convertField C _ kind htype _ _ _

/-! ## Rebuilding -/

/-- Both databases of a copy are linked. -/
def BothLinked (s : Graph M × Graph M) : Prop := At Linked s.1 ∧ At Linked s.2

theorem keeps_onSource {p : Action (Graph M) α} (hp : Quiet p) : Keeps BothLinked (onSource p) :=
  Meets.zoom (hp Linked) (fun _ h => h.1) (fun _ _ _ h hg => ⟨hg, h.2⟩) fun _ _ h hg => ⟨hg, h.2⟩

theorem keeps_onCopy {p : Action (Graph M) α} (hp : Secures Linked p fun _ => Linked) : Keeps BothLinked (onCopy p) :=
  Meets.zoom hp (fun _ h => h.2) (fun _ _ _ h hg => ⟨h.1, hg⟩) fun _ _ h hg => ⟨h.1, hg⟩

theorem quiet_orEmpty {p : Action (Graph M) (Props F)} (hp : Quiet p) : Quiet (orEmpty p : Action (Graph M) _) := by
  refine .bind hp.attempt fun r => ?_
  split
  · exact .pure _
  · exact .pure _

theorem keeps_copyNode (rid : RecordId) : Keeps BothLinked (copyNode C rid : Action (Graph M × Graph M) _) := by
  refine Meets.bind (keeps_onSource (quiet_readNode rid).attempt) fun r => ?_
  split
  · exact Meets.pure fun _ h => h
  · refine Meets.bind (keeps_onSource (quiet_orEmpty (quiet_getNodeProperties C rid))) fun _ => ?_
    refine Meets.bind (keeps_onSource (quiet_getAdditionalLabels C rid)) fun _ => ?_
    refine Meets.bind (keeps_onCopy ((secures_insertNodeWithLabels C _ _ _).mono (fun _ _ h => h) fun _ _ h => h.1))
      fun _ => Meets.pure fun _ h => h

theorem keeps_copyEdge (ridMap : List (RecordId × RecordId)) (eid : RecordId) :
    Keeps BothLinked (copyEdge C ridMap eid : Action (Graph M × Graph M) _) := by
  refine Meets.bind (keeps_onSource (quiet_readEdge eid).attempt) fun r => ?_
  split
  · exact Meets.pure fun _ h => h
  · split
    · refine Meets.bind (keeps_onSource (quiet_orEmpty (quiet_getEdgeProperties C eid))) fun _ => ?_
      refine Meets.bind (keeps_onSource (quiet_getEdgeAdditionalLabels C eid)) fun _ => ?_
      exact Meets.bind (keeps_onCopy ((secures_insertEdgeWithLabels C _ _ _ _ _).mono (fun _ _ h => h)
        fun _ _ h => h.1)) fun _ => Meets.pure fun _ h => h
    · exact Meets.pure fun _ h => h

theorem keeps_copyLiveContents : Keeps BothLinked (copyLiveContents C : Action (Graph M × Graph M) _) := by
  have hschema : Keeps BothLinked (copySchema C : Action (Graph M × Graph M) _) := by
    refine Meets.bind (Meets.get (R := fun _ => BothLinked) fun _ h => h) fun s => ?_
    split
    · exact Meets.pure fun _ h => h
    · exact Meets.bind (keeps_onSource (quiet_loadSchemaDto C)) fun _ => keeps_onCopy (.quietly (.onPages _) (fun _ h => h) fun _ _ h => h)
  refine Meets.bind hschema fun _ => Meets.bind (keeps_onSource (.reads _)) fun nodes => ?_
  refine Meets.bind (Keeps.collect fun rid _ => keeps_copyNode C rid) fun ridMap => ?_
  exact Meets.bind (keeps_onSource (.reads _)) fun edges => Keeps.forEach fun eid _ => keeps_copyEdge C ridMap eid

theorem linked_new : At Linked (empty : Graph M) := ⟨linked_empty, named_empty⟩

/-- **`vacuum`.** -/
theorem secures_vacuum : Secures Linked (vacuum C : Action (Graph M) _) fun _ => Linked := by
  intro g hg
  have h := keeps_copyLiveContents C (g, empty) ⟨hg, linked_new⟩
  unfold vacuum
  cases hr : copyLiveContents C (g, empty) with
  | mk r s =>
    rw [hr] at h
    obtain ⟨source, copy⟩ := s
    cases r with
    | ok a => exact h.2
    | err e => exact h.1
    | panic => trivial

end Graph

end ChiffonDB
