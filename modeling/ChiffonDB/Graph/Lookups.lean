import ChiffonDB.Graph.Exact

/-!
# Lookups

What the operations read, in terms of the contents.

* `Graph.finds_loadSchemaDto`, `Graph.finds_validateStored` — the schema.
* `Graph.finds_getNodeProperties`, `Graph.finds_getNodeTypeIds` — **the rows**.
* `Graph.meets_maintainPropertyIndex` — the keys of a row.
-/

set_option autoImplicit false

set_option linter.unusedSectionVars false

namespace ChiffonDB

open Action PropertyIndex

variable {F : Type} [F64 F] [F64Text F] {M : Type} [FaithfulBacking M]

theorem Contents.visible_empty (c : Contents F) (kind : RecordKind) (typeId : UInt16) : c.visible kind typeId ∅ = ∅ := by
  unfold Contents.visible Graph.retainDeclared
  split <;> rfl

namespace Graph

variable {C : Codecs F} {t : Topo} {b : Behind} {c : Contents F} {rid : RecordId}

/-! ## The schema -/

theorem finds_lookup {α : Type} {f : M → Outcome α} {r : Except GraphError α}
    (h : ∀ m, FaithfulBacking.behind m = b → f m = .ofExcept r) : Finds (Is t b) (lookup f) r := by
  rintro g ⟨-, hb⟩
  show (f g.pages, g) = _
  rw [h _ hb]

/-- **`load_schema_dto`.** -/
theorem finds_loadSchemaDto (h : Depicts C t b c) (hC : C.Faithful) : Finds (Is (M := M) t b) (loadSchemaDto C) c.loaded := by
  have hschema := h.schema
  unfold Contents.loaded
  cases hs : c.schema with
  | none =>
    rw [hs] at hschema
    refine Finds.bind (r := .error (.schemaError "no schema stored")) (u := fun bytes => C.schema.fromSlice bytes)
      (finds_lookup fun m hm => ?_) fun bytes hb => by cases hb
    rw [FaithfulBacking.loadSchemaBytes_eq, hm, hschema]
    rfl
  | some dto =>
    rw [hs] at hschema
    have hload : Finds (Is (M := M) t b) (lookup Backing.loadSchemaBytes) (.ok (C.schema.toVec dto)) :=
      finds_lookup fun m hm => by
        rw [FaithfulBacking.loadSchemaBytes_eq, hm, hschema]
        rfl
    refine hload.bind (u := fun _ => .ok dto) fun bytes hb => ?_
    cases hb
    rw [hC.schema.fromSlice_toVec dto (h.shallow dto hs)]
    exact Finds.ofExcept _

theorem finds_loadSchema (h : Depicts C t b c) (hC : C.Faithful) :
    Finds (Is (M := M) t b) (loadSchema C) (c.loaded >>= fun dto => .ok (dtoToAst dto)) :=
  (finds_loadSchemaDto h hC).bind fun _ _ => Finds.pure _

theorem finds_loadSchemaRegistry (h : Depicts C t b c) (hC : C.Faithful) :
    Finds (Is (M := M) t b) (loadSchemaRegistry C) (c.loaded >>= fun dto => .ok dto.registry) :=
  (finds_loadSchemaDto h hC).bind fun _ _ => Finds.pure _

theorem loaded_of_schema {dto : SchemaDto} (hs : c.schema = some dto) : c.loaded = .ok dto := by
  unfold Contents.loaded
  rw [hs]

theorem loaded_of_none (hs : c.schema = none) : c.loaded = .error (.schemaError "no schema stored") := by
  unfold Contents.loaded
  rw [hs]

section Loaded

variable {dto : SchemaDto} (h : Depicts C t b c) (hC : C.Faithful) (hs : c.schema = some dto)
include h hC hs

theorem finds_schema : Finds (Is (M := M) t b) (loadSchema C) (.ok (dtoToAst dto)) := by
  have hf := finds_loadSchema (M := M) h hC
  rw [loaded_of_schema hs] at hf
  exact hf

theorem finds_registry : Finds (Is (M := M) t b) (loadSchemaRegistry C) (.ok dto.registry) := by
  have hf := finds_loadSchemaRegistry (M := M) h hC
  rw [loaded_of_schema hs] at hf
  exact hf

end Loaded

theorem finds_noSchema (h : Depicts C t b c) (hC : C.Faithful) (hs : c.schema = none) :
    Finds (Is (M := M) t b) (loadSchema C) (.error (.schemaError "no schema stored")) := by
  have hf := finds_loadSchema (M := M) h hC
  rw [loaded_of_none hs] at hf
  exact hf

/-- **`indexed_paths_for_type`.** -/
theorem finds_indexedPathsForType (h : Depicts C t b c) (hC : C.Faithful) (typeId : UInt16) :
    Finds (Is (M := M) t b) (indexedPathsForType C typeId) (.ok (c.indexedPaths typeId)) := by
  unfold Contents.indexedPaths Contents.fieldsOf
  cases hs : c.schema with
  | none => exact (finds_noSchema h hC hs).attempt.bind (u := fun _ => .ok []) fun r hr => by cases hr; exact Finds.pure _
  | some dto =>
    refine (finds_schema h hC hs).attempt.bind (u := fun _ => .ok _) fun r hr => ?_
    cases hr
    refine (finds_registry h hC hs).attempt.bind (u := fun _ => .ok _) fun r hr => ?_
    cases hr
    exact Finds.pure _

/-- **The check of an update against the stored schema.** -/
theorem finds_validateStored (h : Depicts C t b c) (hC : C.Faithful) (kind : RecordKind) (typeId : UInt16)
    (props : Props F) : Finds (Is (M := M) t b) (validateStored C kind typeId props) (c.validate kind typeId props) := by
  unfold Contents.validate Contents.fieldsOf
  cases hs : c.schema with
  | none => exact (finds_noSchema h hC hs).attempt.bind (u := fun _ => .ok ()) fun r hr => by cases hr; exact Finds.pure _
  | some dto =>
    refine (finds_schema h hC hs).attempt.bind (u := fun _ => _) fun r hr => ?_
    cases hr
    refine (finds_registry h hC hs).bind (u := fun _ => _) fun r hr => ?_
    cases hr
    dsimp only [Option.bind_some]
    cases fieldsOf kind (dtoToAst dto) dto.registry typeId with
    | none => exact Finds.pure _
    | some found => exact Finds.ofExcept _

theorem hasSchema_iff (h : Depicts C t b c) {g : Graph M} (hg : Is t b g) :
    Backing.hasSchema g.pages = c.schema.isSome := by
  rw [FaithfulBacking.hasSchema_eq, hg.2, h.schema, Option.isSome_map]

/-- **`declared_fields`.** -/
theorem finds_declaredFields (h : Depicts C t b c) (hC : C.Faithful) (kind : RecordKind) (typeId : UInt16) :
    Finds (Is (M := M) t b) (declaredFields C kind typeId) (.ok (c.declared kind typeId)) := by
  refine Finds.get fun g hg => ?_
  rw [hasSchema_iff h hg]
  unfold Contents.declared
  cases hs : c.schema with
  | none => exact Finds.pure _
  | some dto =>
    refine (finds_schema h hC hs).attempt.bind (u := fun _ => .ok _) fun r hr => ?_
    cases hr
    refine (finds_registry h hC hs).bind (u := fun _ => .ok _) fun r hr => ?_
    cases hr
    cases kind <;> exact Finds.pure _

/-! ## Rows -/

theorem finds_readRaw {v : RecordId} {bytes : List UInt8} (hv : b.values v = some bytes) :
    Finds (Is (M := M) t b) (readRaw v) (.ok bytes) :=
  finds_lookup fun m hm => FaithfulBacking.reads (by rw [hm, hv])

theorem finds_readProps {ref : Option RecordId} {props : Props F} (h : PropsStored C b.values ref props) :
    Finds (Is (M := M) t b) (readProps C ref) (.ok props) := by
  cases ref with
  | none =>
    obtain rfl : props = ∅ := h
    exact Finds.pure _
  | some v =>
    obtain ⟨bytes, hv, hd⟩ := h
    refine (finds_readRaw hv).bind (u := fun _ => .ok props) fun bytes' hb => ?_
    cases hb
    rw [hd]
    exact Finds.ofExcept _

theorem finds_readLabels {ref : Option RecordId} {labels : List UInt16} (h : LabelsStored C b.values ref labels) :
    Finds (Is (M := M) t b) (readLabels C ref) (.ok labels) := by
  cases ref with
  | none =>
    obtain rfl : labels = [] := h
    exact Finds.pure _
  | some v =>
    obtain ⟨bytes, hv, hd⟩ := h
    refine (finds_readRaw hv).bind (u := fun _ => .ok labels) fun bytes' hb => ?_
    cases hb
    rw [hd]
    exact Finds.ofExcept _

/-- The record of a row. -/
theorem exists_node (h : Depicts C t b c) {row : NodeRow F} (hrow : c.nodes rid = some row) :
    ∃ r, t.nodes.live rid = some r ∧ NodeStored C b.values r row := by
  obtain ⟨body, hbody, hstored⟩ := h.node.right hrow
  obtain ⟨r, hr, rfl⟩ := Topo.node_eq_some.1 hbody
  exact ⟨r, hr, hstored.typeId, hstored.props, hstored.labels⟩

theorem exists_edge (h : Depicts C t b c) {row : EdgeRow F} (hrow : c.edges rid = some row) :
    ∃ r, t.edges.live rid = some r ∧ EdgeStored C b.values r row := by
  obtain ⟨body, hbody, hstored⟩ := h.edge.right hrow
  obtain ⟨r, hr, rfl⟩ := Topo.edge_eq_some.1 hbody
  exact ⟨r, hr, hstored.typeId, hstored.fromNode, hstored.toNode, hstored.props, hstored.labels⟩

/-- **`node_exists`.** -/
theorem finds_nodeExists_row (h : Depicts C t b c) (rid : RecordId) :
    Finds (Is (M := M) t b) (nodeExists rid) (.ok (c.nodes rid).isSome) := by
  have hused : t.nodes.used rid = (c.nodes rid).isSome := by
    cases hrow : c.nodes rid with
    | none =>
      have hn := h.node.none_iff.2 hrow
      exact RecordTable.used_eq_false.2 (Option.map_eq_none_iff.1 hn)
    | some row =>
      obtain ⟨r, hr, -⟩ := exists_node h hrow
      exact RecordTable.used_eq_true.2 ⟨r, hr⟩
  rw [← hused]
  exact finds_nodeExists rid

theorem finds_edgeExists_row (h : Depicts C t b c) (rid : RecordId) :
    Finds (Is (M := M) t b) (edgeExists rid) (.ok (c.edges rid).isSome) := by
  have hused : t.edges.used rid = (c.edges rid).isSome := by
    cases hrow : c.edges rid with
    | none =>
      have he := h.edge.none_iff.2 hrow
      exact RecordTable.used_eq_false.2 (Option.map_eq_none_iff.1 he)
    | some row =>
      obtain ⟨r, hr, -⟩ := exists_edge h hrow
      exact RecordTable.used_eq_true.2 ⟨r, hr⟩
  rw [← hused]
  exact finds_edgeExists rid

section Row

variable (h : Depicts C t b c) {row : NodeRow F} (hrow : c.nodes rid = some row)
include h hrow

/-- **`get_node_properties_raw`.** -/
theorem finds_nodePropertiesRaw : Finds (Is (M := M) t b) (nodePropertiesRaw C rid) (.ok row.props) := by
  obtain ⟨r, hr, hstored⟩ := exists_node h hrow
  refine (finds_readNode hr).bind (u := fun _ => .ok row.props) fun r' hr' => ?_
  cases hr'
  exact finds_readProps hstored.props

/-- **`get_node_properties`.** -/
theorem finds_getNodeProperties (hC : C.Faithful) :
    Finds (Is (M := M) t b) (getNodeProperties C rid) (.ok (c.visible .node row.typeId row.props)) := by
  obtain ⟨r, hr, hstored⟩ := exists_node h hrow
  refine (finds_readNode hr).bind (u := fun _ => .ok (c.visible .node row.typeId row.props)) fun r' hr' => ?_
  cases hr'
  have hprops := hstored.props
  cases href : r.propertyRef with
  | none =>
    rw [href] at hprops
    rw [show row.props = ∅ from hprops, Contents.visible_empty]
    exact Finds.pure _
  | some pref =>
    rw [href] at hprops
    refine (finds_readProps hprops).bind (u := fun _ => .ok _) fun props hp => ?_
    cases hp
    refine (finds_declaredFields h hC .node r.nodeTypeId).bind (u := fun _ => .ok _) fun declared hd => ?_
    cases hd
    rw [hstored.typeId]
    exact Finds.pure _

/-- **`get_additional_labels`.** -/
theorem finds_getAdditionalLabels : Finds (Is (M := M) t b) (getAdditionalLabels C rid) (.ok row.labels) := by
  obtain ⟨r, hr, hstored⟩ := exists_node h hrow
  refine (finds_readNode hr).bind (u := fun _ => .ok row.labels) fun r' hr' => ?_
  cases hr'
  exact finds_readLabels hstored.labels

/-- **`get_node_type_ids`.** -/
theorem finds_getNodeTypeIds : Finds (Is (M := M) t b) (getNodeTypeIds C rid) (.ok (row.typeId :: row.labels)) := by
  obtain ⟨r, hr, hstored⟩ := exists_node h hrow
  refine (finds_readNode hr).bind (u := fun _ => .ok (row.typeId :: row.labels)) fun r' hr' => ?_
  cases hr'
  refine (finds_getAdditionalLabels h hrow).bind (u := fun _ => .ok _) fun labels hl => ?_
  cases hl
  rw [← hstored.typeId]
  exact Finds.pure _

end Row

section EdgeRow

variable (h : Depicts C t b c) {row : EdgeRow F} (hrow : c.edges rid = some row)
include h hrow

/-- **`get_edge_properties`.** -/
theorem finds_getEdgeProperties (hC : C.Faithful) :
    Finds (Is (M := M) t b) (getEdgeProperties C rid) (.ok (c.visible .edge row.typeId row.props)) := by
  obtain ⟨r, hr, hstored⟩ := exists_edge h hrow
  refine (finds_readEdge hr).bind (u := fun _ => .ok (c.visible .edge row.typeId row.props)) fun r' hr' => ?_
  cases hr'
  have hprops := hstored.props
  cases href : r.propertyRef with
  | none =>
    rw [href] at hprops
    rw [show row.props = ∅ from hprops, Contents.visible_empty]
    exact Finds.pure _
  | some pref =>
    rw [href] at hprops
    refine (finds_readProps hprops).bind (u := fun _ => .ok _) fun props hp => ?_
    cases hp
    refine (finds_declaredFields h hC .edge r.edgeTypeId).bind (u := fun _ => .ok _) fun declared hd => ?_
    cases hd
    rw [hstored.typeId]
    exact Finds.pure _

/-- **`get_edge_additional_labels`.** -/
theorem finds_getEdgeAdditionalLabels : Finds (Is (M := M) t b) (getEdgeAdditionalLabels C rid) (.ok row.labels) := by
  obtain ⟨r, hr, hstored⟩ := exists_edge h hrow
  refine (finds_readEdge hr).bind (u := fun _ => .ok row.labels) fun r' hr' => ?_
  cases hr'
  exact finds_readLabels hstored.labels

end EdgeRow

/-! ## Keys -/

theorem finds_indexKey {value : Value F} (typeId : UInt16) (path : String) {key : IndexKey}
    (hkey : keyOf C typeId path value = some key) : Finds (Is (M := M) t b) (indexKey C typeId path value) (.ok key) := by
  unfold keyOf at hkey
  cases he : encodeValue C value with
  | error e => rw [he] at hkey; cases hkey
  | ok bytes =>
    rw [he] at hkey
    cases hkey
    unfold indexKey
    rw [he]
    exact (Finds.ofExcept (.ok bytes)).bind (u := fun bytes => .ok (IndexKey.new typeId (utf8 path) bytes))
      fun _ _ => Finds.pure _

/-- A value that is indexed has a key. -/
theorem exists_key {value : Value F} (h : isIndexableValue value) (typeId : UInt16) (path : String) :
    ∃ key, keyOf C typeId path value = some key := by
  obtain ⟨bytes, hb⟩ := encodeValue_of_indexable C h
  exact ⟨.new typeId (utf8 path) bytes, by rw [keyOf, hb]; rfl⟩

theorem meets_applyIndex (op : IndexOp) (key : IndexKey) (rid : RecordId) :
    Meets (Is (M := M) t b) (applyIndex op key rid)
      (fun _ => Is t { b with entries := indexed op [key] rid b.entries }) fun _ => False := by
  rw [indexed_single]
  cases op with
  | add =>
    exact Meets.zoom (FaithfulBacking.addsEntry key rid b) (fun _ hg => hg.2) (fun _ _ _ hg hm => ⟨hg.1, hm⟩) fun _ _ _ hm => hm
  | remove =>
    exact Meets.zoom (FaithfulBacking.removesEntry key rid b) (fun _ hg => hg.2) (fun _ _ _ hg hm => ⟨hg.1, hm⟩)
      fun _ _ _ hm => hm

theorem meets_maintainPath (typeId : UInt16) (rid : RecordId) (props : Props F) (op : IndexOp) (path : PropertyPath) :
    Meets (Is (M := M) t b) (maintainPath C typeId rid props op path)
      (fun _ => Is t { b with entries := indexed op (pathKey C typeId props path).toList rid b.entries }) fun _ => False := by
  unfold maintainPath pathKey
  cases hv : indexable path props with
  | none =>
    show Meets _ _ (fun _ => Is t { b with entries := indexed op [] rid b.entries }) _
    rw [indexed_nil]
    exact Meets.pure fun _ hg => hg
  | some value =>
    obtain ⟨key, hkey⟩ := exists_key (C := C) (isIndexable_of_indexable hv) typeId path.displayName
    rw [Option.bind_some, hkey]
    exact Meets.found (finds_indexKey typeId _ hkey) (meets_applyIndex op key rid)

theorem meets_maintainPaths (typeId : UInt16) (rid : RecordId) (props : Props F) (op : IndexOp)
    (paths : List PropertyPath) :
    Meets (Is (M := M) t b) (Action.forEach paths (maintainPath C typeId rid props op))
      (fun _ => Is t { b with entries := indexed op (paths.filterMap (pathKey C typeId props)) rid b.entries })
      fun _ => False := by
  induction paths generalizing b with
  | nil =>
    show Meets _ _ (fun _ => Is t { b with entries := indexed op [] rid b.entries }) _
    rw [indexed_nil]
    exact Meets.pure fun _ hg => hg
  | cons path paths ih =>
    refine Meets.bind (meets_maintainPath typeId rid props op path) fun _ => ?_
    refine ih.mono (fun _ hg => hg) (fun _ g hg => ?_) fun _ hg => hg
    rw [List.filterMap_cons]
    cases hk : pathKey C typeId props path with
    | none =>
      rw [hk, Option.toList_none, indexed_nil] at hg
      exact hg
    | some key =>
      rw [hk, Option.toList_some] at hg
      rw [indexed_cons]
      exact hg

/-- **`maintain_property_index`.** -/
theorem meets_maintainPropertyIndex (h : Depicts C t b c) (hC : C.Faithful) (typeId : UInt16) (rid : RecordId)
    (props : Props F) (op : IndexOp) :
    Meets (Is (M := M) t b) (maintainPropertyIndex C typeId rid props op)
      (fun _ => Is t { b with entries := indexed op (c.keys C typeId props) rid b.entries }) fun _ => False := by
  refine Meets.found (finds_indexedPathsForType h hC typeId) ?_
  have hmap : ∀ paths : List (PropertyPath × Bool),
      Action.forEach paths (fun path => maintainPath (M := M) C typeId rid props op path.1) =
        Action.forEach (paths.map Prod.fst) (maintainPath C typeId rid props op) := by
    intro paths
    induction paths with
    | nil => rfl
    | cons path paths ih => exact bind_congr fun _ => ih
  rw [hmap]
  refine (meets_maintainPaths typeId rid props op _).mono (fun _ hg => hg) (fun _ g hg => ?_) fun _ hg => hg
  rw [List.filterMap_map] at hg
  exact hg

/-! ## Uniqueness -/

theorem still_readNode (rid : RecordId) : Still (readNode rid : Action (Graph M) _) := fun _ => rfl

theorem still_loadSchemaBoth (kind : RecordKind) (typeId : UInt16) :
    Still (indexedPathsForType C typeId : Action (Graph M) _) ∧ Still (declaredFields C kind typeId : Action (Graph M) _) := by
  constructor
  · refine (still_loadSchema C).attempt.bind fun r => ?_
    split
    · exact .pure _
    · refine (still_loadSchemaRegistry C).attempt.bind fun r => ?_
      split
      · exact .pure _
      · exact .pure _
  · refine Still.get.bind fun g => .ite (.pure _) ((still_loadSchema C).attempt.bind fun r => ?_)
    split
    · exact (still_loadSchemaRegistry C).bind fun _ => .pure _
    · exact .pure _
    · exact .throw _

theorem still_readProps (ref : Option RecordId) : Still (readProps C ref : Action (Graph M) _) := by
  cases ref with
  | none => exact .pure _
  | some v => exact (Still.reads _).bind fun _ => .ofExcept _

theorem still_nodePropertiesRaw (rid : RecordId) : Still (nodePropertiesRaw C rid : Action (Graph M) _) :=
  (still_readNode rid).bind fun _ => still_readProps _

theorem still_getNodeProperties (rid : RecordId) : Still (getNodeProperties C rid : Action (Graph M) _) := by
  refine (still_readNode rid).bind fun node => ?_
  split
  · exact .pure _
  · exact (still_readProps _).bind fun _ => (still_loadSchemaBoth .node _).2.bind fun _ => .pure _

theorem still_getEdgeProperties (rid : RecordId) : Still (getEdgeProperties C rid : Action (Graph M) _) := by
  refine Still.bind (fun _ => rfl) fun edge => ?_
  split
  · exact .pure _
  · exact (still_readProps _).bind fun _ => (still_loadSchemaBoth .edge _).2.bind fun _ => .pure _

theorem still_findAllNodes (typeId : UInt16) (path : PropertyPath) (value : Value F) :
    Still (findAllNodes C typeId path value : Action (Graph M) _) := by
  refine (still_loadSchemaBoth .node typeId).1.bind fun paths => .ite ?_ ?_
  · refine Still.bind ((Still.ofExcept _).bind fun _ => .pure _) fun key => (Still.reads _).bind fun rids => ?_
    exact .collect fun rid => (still_nodePropertiesRaw rid).bind fun _ => .pure _
  · refine (Still.reads _).bind fun rids => .collect fun rid => (still_readNode rid).bind fun node => .ite (.pure _) ?_
    split
    · exact .pure _
    · exact (still_readProps _).bind fun _ => .pure _

/-- **`check_unique`** only reads. -/
theorem still_checkUnique (typeId : UInt16) (props : Props F) (exclude : Option RecordId) :
    Still (checkUnique C typeId props exclude : Action (Graph M) _) := by
  refine (still_loadSchemaBoth .node typeId).1.bind fun paths => .forEach fun path => ?_
  unfold checkUniquePath
  split
  · exact .pure _
  · exact (still_findAllNodes _ _ _).bind fun _ => .ite (.throw _) (.pure _)

end Graph

end ChiffonDB
