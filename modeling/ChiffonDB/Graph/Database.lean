import ChiffonDB.Graph.Backing
import ChiffonDB.Graph.Topo
import ChiffonDB.Schema.Values

/-!
# The database

The operations on nodes and edges of `db.rs`, over a topology and the backing of everything else: property
and label-list values, the label and property indexes, and the schema.

* `Graph` — the state; `Codecs` — the serializers that the operations call.
* `Graph.insertNode`, `Graph.deleteNode`, `Graph.insertEdge`, `Graph.setAdditionalLabels` — the operations
  that the others are made of.

Every operation is an `Action`: an error in the middle leaves the state as it is then.
-/

set_option autoImplicit false

set_option linter.unusedSectionVars false

namespace ChiffonDB

/-- `rmp_serde` and `serde_json` at what the database stores. -/
structure Codecs (F : Type) where
  packProps : Props F → Except GraphError (List UInt8)
  unpackProps : List UInt8 → Except GraphError (Props F)
  /-- `encode_label_list`, `decode_label_list`. -/
  packLabels : List UInt16 → Except GraphError (List UInt8)
  unpackLabels : List UInt8 → Except GraphError (List UInt16)
  packValue : Value F → Except GraphError (List UInt8)
  schema : SchemaCodec
  /-- `Value::to_string`. -/
  text : Value F → String

/-- A database: the records, and what is behind them. -/
structure Graph (M : Type) where
  topo : Topo
  pages : M

/-- `RecordKind`. -/
inductive RecordKind where
  | node
  | edge
  deriving DecidableEq, Repr

/-- `PropertyPath`. -/
inductive PropertyPath where
  | flat (key : String)
  | path (path : List String)
  deriving DecidableEq, Repr

inductive IndexOp where
  | add
  | remove

/-- `LabelAssignment`. -/
structure LabelAssignment where
  id : UInt16
  created : Bool

def SchemaRegistry.nodeTypeName (r : SchemaRegistry) (id : UInt16) : Option String :=
  AssocList.lastOf (r.nodeAssignments.map Prod.swap) id

def SchemaRegistry.edgeTypeName (r : SchemaRegistry) (id : UInt16) : Option String :=
  AssocList.lastOf (r.edgeAssignments.map Prod.swap) id

variable {F : Type} [F64 F] [F64Text F] {M : Type} [Backing M]

/-! ## Values -/

/-- The steps of `resolve` through nested objects. -/
def Value.descend : List String → Value F → Option (Value F)
  | [], v => some v
  | segment :: rest, .object fields => (fields.lookup segment).bind (Value.descend rest)
  | _ :: _, _ => none

namespace PropertyPath

/-- `resolve`. -/
def resolve (props : Props F) : PropertyPath → Option (Value F)
  | flat key => props[key]?
  | path [] => none
  | path (first :: rest) => (props[first]?).bind (Value.descend rest)

def displayName : PropertyPath → String
  | flat key => key
  | path segments => ".".intercalate segments

end PropertyPath

/-- `is_indexable_value`. -/
def isIndexableValue : Value F → Bool
  | .bool _ | .number _ | .string _ => true
  | _ => false

def utf8 (s : String) : List UInt8 := s.toUTF8.data.toList

/-- The length and the bytes behind a tag. -/
def tagged (tag : UInt8) (bytes : List UInt8) : List UInt8 :=
  tag :: (Bytes.u32Bytes (UInt32.ofNat bytes.length) ++ bytes)

/-- `encode_value`. -/
def encodeValue (C : Codecs F) : Value F → Except GraphError (List UInt8)
  | .null => .ok [0]
  | .bool b => .ok [1, if b then 1 else 0]
  | .number n => .ok (match n.asI64 with
    | some i => 2 :: Bytes.leBytes 8 i.toUInt64.toNat
    | none => 3 :: Bytes.leBytes 8 (F64Text.bits n.asF64).toNat)
  | .string s => .ok (tagged 4 (utf8 s))
  | .array items => do pure (tagged 5 (← C.packValue (.array items)))
  | .object fields => do pure (tagged 6 (← C.packValue (.object fields)))

namespace Graph

/-- A new database. -/
def empty : Graph M := ⟨.empty, Backing.fresh⟩

/-- A call on the records. -/
def onTopo {α : Type} (p : Action Topo α) : Action (Graph M) α := p.zoom Graph.topo fun g t => { g with topo := t }

/-- A call on what is behind them. -/
def onPages {α : Type} (p : Action M α) : Action (Graph M) α :=
  Action.zoom Graph.pages (fun g m => { g with pages := m }) p

/-- A lookup there. -/
def lookup {α : Type} (f : M → Outcome α) : Action (Graph M) α := .reads fun g => f g.pages

/-! ## Records -/

def readNode (rid : RecordId) : Action (Graph M) NodeRecord := onTopo (Topo.readNode rid)

def readEdge (rid : RecordId) : Action (Graph M) EdgeRecord := onTopo (Topo.readEdge rid)

def writeNode (node : NodeRecord) : Action (Graph M) Unit := onTopo (Topo.writeNode node)

def writeEdge (edge : EdgeRecord) : Action (Graph M) Unit := onTopo (Topo.writeEdge edge)

/-- `node_exists_raw`. -/
def nodeExists (rid : RecordId) : Action (Graph M) Bool := .reads fun g => .ok (g.topo.nodes.used rid)

/-- `edge_exists_raw`. -/
def edgeExists (rid : RecordId) : Action (Graph M) Bool := .reads fun g => .ok (g.topo.edges.used rid)

/-- `Page::new`, with its first slot taken. -/
def firstSlotPage : PageData := PageData.zero.splice 0 [1] (by decide)

/-- `alloc_topology_slot` in one of the two tables. -/
def allocSlot {R : Type} (kind : TopologyKind) (table : Topo → RecordTable R)
    (put : Topo → RecordTable R → Topo) (blank : R) : Action (Graph M) RecordId := do
  let g ← Action.get
  match (table g.topo).findFree with
  | some (logical, slot) => do
    Action.update fun g => .ok { g with topo := put g.topo ((table g.topo).take logical slot) }
    pure (RecordTable.ridOf logical slot)
  | none => do
    let _ ← onPages (Backing.allocTopologyPage kind firstSlotPage)
    if h : (table g.topo).pages.length + 1 < UInt32.size then do
      Action.update fun g' => .ok { g' with topo := put g'.topo ((table g.topo).grow blank h) }
      pure (RecordTable.ridOf (table g.topo).pages.length ⟨0, by decide⟩)
    else Action.panic

/-- `alloc_node`. -/
def allocNode (typeId : UInt16) : Action (Graph M) RecordId := do
  let rid ← allocSlot .node Topo.nodes (fun t nodes => { t with nodes := nodes }) NodeRecord.blank
  writeNode (.new rid typeId)
  pure rid

/-- `alloc_edge`. -/
def allocEdge (typeId : UInt16) (fromNode toNode : RecordId) : Action (Graph M) RecordId := do
  let rid ← allocSlot .edge Topo.edges (fun t edges => { t with edges := edges }) EdgeRecord.blank
  writeEdge (.new rid typeId fromNode toNode)
  pure rid

/-! ## Stored values -/

variable (C : Codecs F)

def readRaw (rid : RecordId) : Action (Graph M) (List UInt8) := lookup (Backing.readBytes rid)

def writeRaw (bytes : List UInt8) : Action (Graph M) RecordId := onPages (Backing.writeBytes bytes)

/-- `PropertyStore::free` of a value that may not be there. -/
def freeRef : Option RecordId → Action (Graph M) Unit
  | none => pure ()
  | some rid => onPages (Backing.freeBytes rid)

/-- `PropertyStore::read` of properties that may not be there. -/
def readProps : Option RecordId → Action (Graph M) (Props F)
  | none => pure ∅
  | some rid => do
    let bytes ← readRaw rid
    Action.ofExcept (C.unpackProps bytes)

/-- `PropertyStore::write`, unless there is nothing to write. -/
def writeProps (props : Props F) : Action (Graph M) (Option RecordId) :=
  if props.isEmpty then pure none
  else do
    let bytes ← Action.ofExcept (C.packProps props)
    let rid ← writeRaw bytes
    pure (some rid)

/-- The label list of a record. -/
def readLabels : Option RecordId → Action (Graph M) (List UInt16)
  | none => pure []
  | some rid => do
    let bytes ← readRaw rid
    Action.ofExcept (C.unpackLabels bytes)

def writeLabels (labels : List UInt16) : Action (Graph M) (Option RecordId) :=
  if labels.isEmpty then pure none
  else do
    let bytes ← Action.ofExcept (C.packLabels labels)
    let rid ← writeRaw bytes
    pure (some rid)

/-- `get_node_properties_raw`. -/
def nodePropertiesRaw (rid : RecordId) : Action (Graph M) (Props F) := do
  let node ← readNode rid
  readProps C node.propertyRef

/-! ## The schema -/

/-- `load_schema_dto`. -/
def loadSchemaDto : Action (Graph M) SchemaDto := do
  let bytes ← lookup Backing.loadSchemaBytes
  Action.ofExcept (C.schema.fromSlice bytes)

/-- `write_schema_dto`. -/
def writeSchemaDto (dto : SchemaDto) : Action (Graph M) Unit := onPages (Backing.writeSchemaBytes (C.schema.toVec dto))

/-- The schema that a save inherits from; one that cannot be loaded counts as none. -/
def previousSchema (ast : SchemaAst) (checkMigration : Bool) : Action (Graph M) (Option SchemaDto) := do
  let g ← Action.get
  if Backing.hasSchema g.pages then do
    match ← Action.attempt (loadSchemaDto C) with
    | .ok old => do
      Action.ofExcept (if checkMigration then validateMigration (dtoToAst old) ast else .ok ())
      pure (some old)
    | .error _ => pure none
  else pure none

/-- `save_schema_with`. -/
def saveSchemaWith (ast : SchemaAst) (checkMigration : Bool) : Action (Graph M) Unit := do
  let previous ← previousSchema C ast checkMigration
  match assignTypeIds (astToDto ast) previous with
  | some dto => writeSchemaDto C dto
  | none => Action.panic

def saveSchema (ast : SchemaAst) : Action (Graph M) Unit := saveSchemaWith C ast true

def saveSchemaUnchecked (ast : SchemaAst) : Action (Graph M) Unit := saveSchemaWith C ast false

/-- `register_dynamic_type`. -/
def registerDynamicType (kind : DynamicTypeKind) (name : String) : Action (Graph M) (UInt16 × Bool) := do
  let dto ← loadSchemaDto C
  match dto.register kind name with
  | .error e => Action.throw e
  | .ok (id, none) => pure (id, false)
  | .ok (id, some dto) => do
    writeSchemaDto C dto
    pure (id, true)

def loadSchema : Action (Graph M) SchemaAst := do
  let dto ← loadSchemaDto C
  pure (dtoToAst dto)

/-- `load_type_assignments`, then `SchemaRegistry::from_assignments`. -/
def loadSchemaRegistry : Action (Graph M) SchemaRegistry := do
  let dto ← loadSchemaDto C
  pure ⟨dto.nodeTypeIds, dto.edgeTypeIds⟩

/-- The fields that the stored schema declares for a type id of a kind, with the name of the type. -/
def fieldsOf (kind : RecordKind) (ast : SchemaAst) (registry : SchemaRegistry) (typeId : UInt16) :
    Option (String × List FieldDef) :=
  match kind with
  | .node => do
    let name ← registry.nodeTypeName typeId
    pure (name, (← ast.findNode name).fields)
  | .edge => do
    let name ← registry.edgeTypeName typeId
    pure (name, (← ast.findEdge name).props)

/-- The check of an update against the stored schema, if there is one. -/
def validateStored (kind : RecordKind) (typeId : UInt16) (props : Props F) : Action (Graph M) Unit := do
  match ← Action.attempt (loadSchema C) with
  | .ok ast => do
    let registry ← loadSchemaRegistry C
    match fieldsOf kind ast registry typeId with
    | some (name, fields) => Action.ofExcept (validateProperties name fields props)
    | none => pure ()
  | .error (.schemaError _) => pure ()
  | .error e => Action.throw e

/-- `declared_fields`, at one type id. -/
def declaredFields (kind : RecordKind) (typeId : UInt16) : Action (Graph M) (Option (List String)) := do
  let g ← Action.get
  if !Backing.hasSchema g.pages then pure none
  else do
    match ← Action.attempt (loadSchema C) with
    | .ok ast => do
      let registry ← loadSchemaRegistry C
      pure (AssocList.lastOf (match kind with
        | .node => ast.nodes.filterMap fun n => (registry.nodeTypeId n.name).map fun id =>
            (id, n.fields.map FieldDef.name)
        | .edge => ast.edges.filterMap fun e => (registry.edgeTypeId e.name).map fun id =>
            (id, e.props.map FieldDef.name)) typeId)
    | .error (.schemaError _) => pure none
    | .error e => Action.throw e

/-- `DeclaredFields::retain`. -/
def retainDeclared (declared : Option (List String)) (props : Props F) : Props F :=
  match declared with
  | some names => props.filter fun key _ => key ∈ names
  | none => props

/-- `get_node_properties`. -/
def getNodeProperties (rid : RecordId) : Action (Graph M) (Props F) := do
  let node ← readNode rid
  match node.propertyRef with
  | none => pure ∅
  | some pref => do
    let props ← readProps C (some pref)
    let declared ← declaredFields C .node node.nodeTypeId
    pure (retainDeclared declared props)

/-- `get_edge_properties`. -/
def getEdgeProperties (rid : RecordId) : Action (Graph M) (Props F) := do
  let edge ← readEdge rid
  match edge.propertyRef with
  | none => pure ∅
  | some pref => do
    let props ← readProps C (some pref)
    let declared ← declaredFields C .edge edge.edgeTypeId
    pure (retainDeclared declared props)

/-! ## The property index -/

/-- The fields with `@index` or `@unique`. -/
def indexedFields (fields : List FieldDef) : List (PropertyPath × Bool) :=
  (fields.filter fun f => f.indexed || f.unique).map fun f => (.flat f.name, f.unique)

/-- `indexed_paths_for_type`, which takes an error for a schema without annotations. -/
def indexedPathsForType (typeId : UInt16) : Action (Graph M) (List (PropertyPath × Bool)) := do
  match ← Action.attempt (loadSchema C) with
  | .error _ => pure []
  | .ok ast => do
    match ← Action.attempt (loadSchemaRegistry C) with
    | .error _ => pure []
    | .ok registry => pure (match fieldsOf .node ast registry typeId with
      | some (_, fields) => indexedFields fields
      | none => [])

/-- The value at a path, if it is indexed at all. -/
def indexable (path : PropertyPath) (props : Props F) : Option (Value F) :=
  (path.resolve props).filter isIndexableValue

def indexKey (typeId : UInt16) (path : String) (value : Value F) :
    Action (Graph M) PropertyIndex.IndexKey := do
  let bytes ← Action.ofExcept (encodeValue C value)
  pure (.new typeId (utf8 path) bytes)

def applyIndex : IndexOp → PropertyIndex.IndexKey → RecordId → Action (Graph M) Unit
  | .add, key, rid => onPages (Backing.addEntry key rid)
  | .remove, key, rid => onPages (Backing.removeEntry key rid)

/-- One path of `maintain_property_index`, or of `remove_index_entries`. -/
def maintainPath (typeId : UInt16) (rid : RecordId) (props : Props F) (op : IndexOp) (path : PropertyPath) :
    Action (Graph M) Unit :=
  match indexable path props with
  | none => pure ()
  | some value => do
    let key ← indexKey C typeId path.displayName value
    applyIndex op key rid

/-- `maintain_property_index`. -/
def maintainPropertyIndex (typeId : UInt16) (rid : RecordId) (props : Props F) (op : IndexOp) :
    Action (Graph M) Unit := do
  let paths ← indexedPathsForType C typeId
  Action.forEach paths fun path => maintainPath C typeId rid props op path.1

/-- `index::find_all`: a node of the scan that is found. -/
def scanHit (typeId : UInt16) (path : PropertyPath) (value : Value F) (rid : RecordId) :
    Action (Graph M) (Option RecordId) := do
  let node ← readNode rid
  if node.nodeTypeId ≠ typeId then pure none
  else match node.propertyRef with
    | none => pure none
    | some pref => do
      let props ← readProps C (some pref)
      pure (if (path.resolve props).any (·.eq value) then some rid else none)

/-- A candidate of the index that is confirmed. -/
def confirmed (path : PropertyPath) (value : Value F) (rid : RecordId) :
    Action (Graph M) (Option RecordId) := do
  let props ← nodePropertiesRaw C rid
  pure (if (path.resolve props).any (·.eq value) then some rid else none)

/-- `live_node_rids`. -/
def liveNodeRids : Action (Graph M) (List RecordId) := .reads fun g => .ok g.topo.nodes.liveRids

/-- `live_edge_rids`. -/
def liveEdgeRids : Action (Graph M) (List RecordId) := .reads fun g => .ok g.topo.edges.liveRids

/-- `find_all_nodes`. -/
def findAllNodes (typeId : UInt16) (path : PropertyPath) (value : Value F) :
    Action (Graph M) (List RecordId) := do
  let paths ← indexedPathsForType C typeId
  if paths.any fun p => p.1 = path then do
    let key ← indexKey C typeId path.displayName value
    let candidates ← lookup (Backing.candidates key)
    Action.collect candidates (confirmed C path value)
  else do
    let rids ← liveNodeRids
    Action.collect rids (scanHit C typeId path value)

/-- One path of `check_unique`. -/
def checkUniquePath (typeId : UInt16) (props : Props F) (exclude : Option RecordId) (path : PropertyPath) :
    Action (Graph M) Unit :=
  match indexable path props with
  | none => pure ()
  | some value => do
    let existing ← findAllNodes C typeId path value
    if existing.any fun rid => some rid ≠ exclude then
      Action.throw (.uniqueViolation path.displayName (C.text value))
    else pure ()

/-- `check_unique`. -/
def checkUnique (typeId : UInt16) (props : Props F) (exclude : Option RecordId) : Action (Graph M) Unit := do
  let paths ← indexedPathsForType C typeId
  Action.forEach (paths.filter fun p => p.2) fun path => checkUniquePath C typeId props exclude path.1

/-! ## Nodes -/

/-- A node gets its properties, if it has any. -/
def setNodeProps (rid : RecordId) : Option RecordId → Action (Graph M) Unit
  | none => pure ()
  | some pref => do
    let node ← readNode rid
    writeNode { node with propertyRef := some pref }

/-- `insert_node`. -/
def insertNode (typeId : UInt16) (props : Props F) : Action (Graph M) RecordId := do
  checkUnique C typeId props none
  let pref ← writeProps C props
  let rid ← allocNode typeId
  setNodeProps rid pref
  onPages (Backing.addLabel typeId rid)
  maintainPropertyIndex C typeId rid props .add
  pure rid

/-- `update_node_properties`. -/
def updateNodeProperties (rid : RecordId) (props : Props F) : Action (Graph M) Unit := do
  if ← nodeExists rid then do
    let node ← readNode rid
    validateStored C .node node.nodeTypeId props
    let oldProps ← nodePropertiesRaw C rid
    checkUnique C node.nodeTypeId props (some rid)
    let pref ← writeProps C props
    writeNode { node with propertyRef := pref }
    maintainPropertyIndex C node.nodeTypeId rid oldProps .remove
    maintainPropertyIndex C node.nodeTypeId rid props .add
    freeRef node.propertyRef
  else Action.throw (.nodeNotFound rid.debug)

/-- `patch_node_properties`. -/
def patchNodeProperties (rid : RecordId) (patch : Props F) : Action (Graph M) Unit := do
  let props ← getNodeProperties C rid
  updateNodeProperties C rid (props ∪ patch)

/-- `get_additional_labels`. -/
def getAdditionalLabels (rid : RecordId) : Action (Graph M) (List UInt16) := do
  let node ← readNode rid
  readLabels C node.labelRef

/-- `get_node_type_ids`. -/
def getNodeTypeIds (rid : RecordId) : Action (Graph M) (List UInt16) := do
  let node ← readNode rid
  let extra ← getAdditionalLabels C rid
  pure (node.nodeTypeId :: extra)

/-- The values of an edge, if it can be read. -/
def freeEdgeRefs : Except GraphError EdgeRecord → Action (Graph M) Unit
  | .ok edge => do
    freeRef edge.propertyRef
    freeRef edge.labelRef
  | .error _ => pure ()

/-- One edge of the cascade of `delete_node`. -/
def deleteCascaded (eid : RecordId) : Action (Graph M) Unit := do
  let edge ← Action.attempt (readEdge eid)
  freeEdgeRefs edge
  onTopo (Topo.deleteEdge eid)

/-- The edges of a node, each of them once: those of its own loops are on both lists. -/
def cascadeOf (rid : RecordId) : Action (Graph M) (List RecordId) := do
  let outEdges ← onTopo (Topo.collectEdges .out rid)
  let inEdges ← onTopo (Topo.collectEdges .in rid)
  pure ((outEdges ++ inEdges).map EdgeRecord.id).eraseDups

/-- `delete_node`, behind the cascade. -/
def retireNode (rid : RecordId) : Action (Graph M) Unit := do
  let node ← readNode rid
  let props ← nodePropertiesRaw C rid
  maintainPropertyIndex C node.nodeTypeId rid props .remove
  let typeIds ← getNodeTypeIds C rid
  Action.forEach typeIds fun id => onPages (Backing.removeLabel id rid)
  freeRef node.propertyRef
  freeRef node.labelRef
  onTopo (Topo.freeNode rid)

/-- `delete_node`. -/
def deleteNode (rid : RecordId) : Action (Graph M) Unit := do
  if ← nodeExists rid then do
    let edges ← cascadeOf rid
    Action.forEach edges deleteCascaded
    retireNode C rid
  else Action.throw (.nodeNotFound rid.debug)

/-! ## Edges -/

/-- An edge gets its properties, if it has any. -/
def setEdgeProps (eid : RecordId) : Option RecordId → Action (Graph M) Unit
  | none => pure ()
  | some pref => do
    let edge ← readEdge eid
    writeEdge { edge with propertyRef := some pref }

/-- `insert_edge`, behind its checks. -/
def linkEdge (typeId : UInt16) (fromNode toNode : RecordId) (props : Props F) : Action (Graph M) RecordId := do
  let pref ← writeProps C props
  let eid ← allocEdge typeId fromNode toNode
  setEdgeProps eid pref
  onTopo (Topo.appendEdge .out fromNode eid)
  onTopo (Topo.appendEdge .in toNode eid)
  pure eid

/-- `insert_edge`. -/
def insertEdge (typeId : UInt16) (fromNode toNode : RecordId) (props : Props F) : Action (Graph M) RecordId := do
  if ← nodeExists fromNode then do
    if ← nodeExists toNode then linkEdge C typeId fromNode toNode props
    else Action.throw (.nodeNotFound ("edge to " ++ toNode.debug))
  else Action.throw (.nodeNotFound ("edge from " ++ fromNode.debug))

/-- `update_edge_properties`. -/
def updateEdgeProperties (rid : RecordId) (props : Props F) : Action (Graph M) Unit := do
  if ← edgeExists rid then do
    let edge ← readEdge rid
    validateStored C .edge edge.edgeTypeId props
    let pref ← writeProps C props
    let edge ← readEdge rid
    writeEdge { edge with propertyRef := pref }
    freeRef edge.propertyRef
  else Action.throw (.edgeNotFound rid.debug)

/-- `patch_edge_properties`. -/
def patchEdgeProperties (rid : RecordId) (patch : Props F) : Action (Graph M) Unit := do
  let props ← getEdgeProperties C rid
  updateEdgeProperties C rid (props ∪ patch)

/-- `delete_edge`. -/
def deleteEdge (rid : RecordId) : Action (Graph M) Unit := do
  if ← edgeExists rid then do
    let edge ← readEdge rid
    freeRef edge.propertyRef
    freeRef edge.labelRef
    onTopo (Topo.deleteEdge rid)
  else Action.throw (.edgeNotFound rid.debug)

/-! ## Slots -/

section Slots

variable {R : Type} {kind : TopologyKind} {table : Topo → RecordTable R} {put : Topo → RecordTable R → Topo} {blank : R}
  {g : Graph M}

/-- A free slot is taken. -/
theorem run_allocSlot_some {logical : Nat} {slot : Fin SLOTS} (h : (table g.topo).findFree = some (logical, slot)) :
    allocSlot kind table put blank g = (.ok (RecordTable.ridOf logical slot),
      { g with topo := put g.topo ((table g.topo).take logical slot) }) := by
  unfold allocSlot
  rw [Action.run_bind, Action.run_get, Action.andThen, h]
  rfl

/-- A full table grows by a page. -/
theorem run_allocSlot_none (h : (table g.topo).findFree = none) :
    allocSlot kind table put blank g = (onPages (Backing.allocTopologyPage kind firstSlotPage) >>= fun _ =>
      if h : (table g.topo).pages.length + 1 < UInt32.size then do
        Action.update fun g' => .ok { g' with topo := put g'.topo ((table g.topo).grow blank h) }
        pure (RecordTable.ridOf (table g.topo).pages.length ⟨0, by decide⟩)
      else Action.panic) g := by
  unfold allocSlot
  rw [Action.run_bind, Action.run_get, Action.andThen, h]

end Slots

/-! ## On page maps -/

section PageMaps

variable {α β : Type}

theorem onPages_bind (p : Action M α) (f : α → Action M β) : (onPages (p >>= f) : Action (Graph M) β) = (do
    let a ← onPages p
    onPages (f a)) := by
  funext g
  rw [Action.run_bind]
  unfold onPages Action.zoom
  rw [Action.run_bind]
  obtain ⟨r | e | _, m⟩ := p g.pages <;> rfl

theorem onPages_attempt (p : Action M α) :
    (onPages (Action.attempt p) : Action (Graph M) _) = Action.attempt (onPages p) := by
  funext g
  unfold onPages Action.attempt Action.zoom
  dsimp only
  obtain ⟨r | e | _, m⟩ := p g.pages <;> rfl

theorem onPages_ofExcept (r : Except GraphError α) :
    (onPages (Action.ofExcept r) : Action (Graph M) α) = Action.ofExcept r := rfl

theorem loadSchemaDto_pages :
    (loadSchemaDto C : Action (Graph PageMap) SchemaDto) = onPages (ChiffonDB.loadSchemaDto C.schema).act := by
  have hload : (lookup Backing.loadSchemaBytes : Action (Graph PageMap) (List UInt8)) = onPages loadSchemaBytes.act := by
    funext g
    show (_, g) = (_, ({ g with pages := (loadSchemaBytes.run g.pages).2 } : Graph PageMap))
    rw [readOnly_loadSchemaBytes.run_snd]
    rfl
  rw [ChiffonDB.loadSchemaDto, Prog.act_bind, onPages_bind, loadSchemaDto, hload]
  exact bind_congr fun bytes => by rw [Prog.act_ofExcept, onPages_ofExcept]

theorem previousSchema_pages (ast : SchemaAst) (checkMigration : Bool) :
    (previousSchema C ast checkMigration : Action (Graph PageMap) _) =
      onPages (ChiffonDB.previousSchema C.schema ast checkMigration).act := by
  funext g
  unfold previousSchema ChiffonDB.previousSchema
  rw [Prog.act_bind, onPages_bind]
  show (if _ then _ else _ : Action (Graph PageMap) _) g = onPages (Prog.act (if _ then _ else _)) g
  by_cases hroot : g.pages.header.schemaRoot ≠ 0
  · have hset : Backing.hasSchema g.pages = true := decide_eq_true hroot
    rw [if_pos hset, if_pos hroot, Prog.act_bind, onPages_bind, Prog.act_attempt, onPages_attempt, ← loadSchemaDto_pages]
    refine congrFun (bind_congr fun loaded => ?_) g
    cases loaded with
    | ok old =>
      rw [Prog.act_bind, onPages_bind, Prog.act_ofExcept, onPages_ofExcept]
      rfl
    | error e => rfl
  · have hset : ¬ Backing.hasSchema g.pages = true := fun h => hroot (of_decide_eq_true h)
    rw [if_neg hset, if_neg hroot]
    rfl

theorem saveSchemaWith_pages (ast : SchemaAst) (checkMigration : Bool) :
    (saveSchemaWith C ast checkMigration : Action (Graph PageMap) Unit) =
      onPages (ChiffonDB.saveSchemaWith C.schema ast checkMigration).act := by
  rw [saveSchemaWith, ChiffonDB.saveSchemaWith, Prog.act_bind, onPages_bind, previousSchema_pages]
  refine bind_congr fun previous => ?_
  cases assignTypeIds (astToDto ast) previous <;> rfl

theorem registerDynamicType_pages (kind : DynamicTypeKind) (name : String) :
    (registerDynamicType C kind name : Action (Graph PageMap) _) =
      onPages (ChiffonDB.registerDynamicType C.schema kind name).act := by
  rw [registerDynamicType, ChiffonDB.registerDynamicType, Prog.act_bind, onPages_bind, loadSchemaDto_pages]
  refine bind_congr fun dto => ?_
  rcases dto.register kind name with e | ⟨id, dto | _⟩
  · rfl
  · rfl
  · rw [Prog.act_bind, onPages_bind]
    rfl

end PageMaps

end Graph

end ChiffonDB
