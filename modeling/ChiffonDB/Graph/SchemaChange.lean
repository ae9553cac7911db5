import ChiffonDB.Graph.Labels
import ChiffonDB.Schema.Parser

/-!
# Schema changes and rebuilding

The operations of `db.rs` that rewrite many records: `apply_schema` with its purges, the renaming of a
field, the change of its type, and `vacuum`.

* `Graph.orRestore` — the snapshot around a change.
* `Graph.applySchema`, `Graph.renameField`, `Graph.changeFieldType` — the changes.
* `Graph.vacuum` — the copy into a new database.
-/

set_option autoImplicit false

namespace ChiffonDB

variable {F : Type} [F64 F] [F64Text F] {M : Type} [Backing M]

/-! ## Fields of a schema -/

def RecordKind.label : RecordKind → String
  | .node => "node"
  | .edge => "edge"

/-- The fields of a definition of a kind and a name. -/
def Definition.fieldsOf (kind : RecordKind) (name : String) : Definition → Option (List FieldDef)
  | .node n => if kind = .node ∧ n.name = name then some n.fields else none
  | .edge e => if kind = .edge ∧ e.name = name then some e.props else none

def Definition.setFields (fields : List FieldDef) : Definition → Definition
  | .node n => .node { n with fields := fields }
  | .edge e => .edge { e with props := fields }

def SchemaAst.fieldsOf (ast : SchemaAst) (kind : RecordKind) (name : String) : Option (List FieldDef) :=
  ast.definitions.findSome? (Definition.fieldsOf kind name)

/-- A write through `schema_fields_mut`: to the first definition of the kind and the name. -/
def setFirstFields (kind : RecordKind) (name : String) (fields : List FieldDef) :
    List Definition → List Definition
  | [] => []
  | d :: defs =>
    if (d.fieldsOf kind name).isSome then d.setFields fields :: defs
    else d :: setFirstFields kind name fields defs

def SchemaAst.setFields (ast : SchemaAst) (kind : RecordKind) (name : String) (fields : List FieldDef) :
    SchemaAst :=
  ⟨setFirstFields kind name fields ast.definitions⟩

/-- `schema_fields_mut`. -/
def schemaFields (ast : SchemaAst) (kind : RecordKind) (typeName : String) : Except GraphError (List FieldDef) :=
  match ast.fieldsOf kind typeName with
  | some fields => .ok fields
  | none => .error (.schemaError ("unknown " ++ kind.label ++ " type: " ++ typeName))

/-- `field_position`, with the field there. -/
def fieldPosition (fields : List FieldDef) (kind : RecordKind) (typeName fieldName : String) :
    Except GraphError (Nat × FieldDef) :=
  match fields.findIdx? fun f => f.name = fieldName, fields.find? fun f => f.name = fieldName with
  | some i, some f => .ok (i, f)
  | _, _ => .error (.schemaError (kind.label ++ " '" ++ typeName ++ "' has no field '" ++ fieldName ++ "'"))

/-! ## Purges -/

/-- `FieldPurge`. -/
structure FieldPurge where
  typeId : UInt16
  keep : List String
  droppedIndexed : List PropertyPath

def sameNames (old new : List String) : Bool := old.all (· ∈ new) && new.all (· ∈ old)

/-- The purge for a type of both schemas whose field names differ. -/
def planPurge (new : SchemaAst) (kind : RecordKind) (name : String) (oldFields : List FieldDef)
    (typeId : Option UInt16) : Option FieldPurge := do
  let newFields ← new.fieldsOf kind name
  let oldNames := oldFields.map FieldDef.name
  let newNames := newFields.map FieldDef.name
  if sameNames oldNames newNames then none
  else do
    let typeId ← typeId
    some ⟨typeId, oldNames.filter (· ∈ newNames),
      (oldFields.filter fun f => (f.indexed || f.unique) && f.name ∉ newNames).map fun f => .flat f.name⟩

/-- `plan_field_purges`. -/
def planFieldPurges (registry : SchemaRegistry) (old new : SchemaAst) : List FieldPurge × List FieldPurge :=
  (old.nodes.filterMap fun n => planPurge new .node n.name n.fields (registry.nodeTypeId n.name),
    old.edges.filterMap fun e => planPurge new .edge e.name e.props (registry.edgeTypeId e.name))

/-- The properties that a purge keeps, if it drops any. -/
def FieldPurge.kept (purge : FieldPurge) (props : Props F) : Option (Props F) :=
  if props.keys.all (· ∈ purge.keep) then none else some (props.filter fun key _ => key ∈ purge.keep)

/-- `OnConversionFailure`. -/
inductive OnConversionFailure where
  | reject
  | setNull
  deriving DecidableEq

/-- `FieldTypeChange`. -/
structure FieldTypeChange where
  applied : Bool
  converted : Nat
  failed : Nat
  failedRecords : List RecordId

def MAX_REPORTED_FAILURES : Nat := 100

namespace Graph

/-- `take_snapshot`, and `restore_snapshot` on an error. -/
def orRestore {α : Type} (p : Action (Graph M) α) : Action (Graph M) α := fun g =>
  match p g with
  | (.err e, _) => (.err e, g)
  | r => r

variable (C : Codecs F) (X : Pest)

/-- One node of `purge_node_fields`. -/
def purgeNode (purge : FieldPurge) (rid : RecordId) : Action (Graph M) Unit := do
  let node ← readNode rid
  if node.nodeTypeId ≠ purge.typeId then pure ()
  else match node.propertyRef with
    | none => pure ()
    | some oldRef => do
      let props ← readProps C (some oldRef)
      match purge.kept props with
      | none => pure ()
      | some kept => do
        Action.forEach purge.droppedIndexed (maintainPath C purge.typeId rid props .remove)
        let pref ← writeProps C kept
        writeNode { node with propertyRef := pref }
        freeRef (some oldRef)

/-- One edge of `purge_edge_fields`. -/
def purgeEdge (purges : List FieldPurge) (rid : RecordId) : Action (Graph M) Unit := do
  let edge ← readEdge rid
  match purges.find? fun p => p.typeId = edge.edgeTypeId, edge.propertyRef with
  | some purge, some oldRef => do
    let props ← readProps C (some oldRef)
    match purge.kept props with
    | none => pure ()
    | some kept => do
      let pref ← writeProps C kept
      writeEdge { edge with propertyRef := pref }
      freeRef (some oldRef)
  | _, _ => pure ()

/-- `purge_node_fields`. -/
def purgeNodeFields (purge : FieldPurge) : Action (Graph M) Unit := do
  let rids ← lookup (Backing.labelled purge.typeId)
  Action.forEach rids (purgeNode C purge)

/-- `purge_edge_fields`. -/
def purgeEdgeFields (purges : List FieldPurge) : Action (Graph M) Unit := do
  let rids ← liveEdgeRids
  Action.forEach rids (purgeEdge C purges)

/-- `save_schema_and_purge`. -/
def saveSchemaAndPurge (ast : SchemaAst) (nodePurges edgePurges : List FieldPurge) : Action (Graph M) Unit := do
  saveSchema C ast
  Action.forEach nodePurges (purgeNodeFields C)
  if edgePurges.isEmpty then pure () else purgeEdgeFields C edgePurges

/-- The purges that a new schema asks for. -/
def purgesFor (ast : SchemaAst) : Action (Graph M) (List FieldPurge × List FieldPurge) := do
  match ← Action.attempt (loadSchema C) with
  | .ok old => do
    let registry ← loadSchemaRegistry C
    pure (planFieldPurges registry old ast)
  | .error (.schemaError _) => pure ([], [])
  | .error e => Action.throw e

/-- `apply_schema`. -/
def applySchema (text : String) : Action (Graph M) Unit := do
  let ast ← Action.reads fun _ => parse X text
  Action.ofExcept (validate ast)
  let (nodePurges, edgePurges) ← purgesFor C ast
  if nodePurges.isEmpty && edgePurges.isEmpty then saveSchema C ast
  else orRestore (saveSchemaAndPurge C ast nodePurges edgePurges)

/-! ## Fields of records -/

/-- `schema_type_id`. -/
def schemaTypeId (kind : RecordKind) (typeName : String) : Action (Graph M) UInt16 := do
  let registry ← loadSchemaRegistry C
  match (match kind with | .node => registry.nodeTypeId typeName | .edge => registry.edgeTypeId typeName) with
  | some id => pure id
  | none => Action.throw (.schemaError ("unknown " ++ kind.label ++ " type: " ++ typeName))

/-- `rids_of_kind`. -/
def ridsOfKind (kind : RecordKind) (typeId : UInt16) : Action (Graph M) (List RecordId) :=
  match kind with
  | .node => lookup (Backing.labelled typeId)
  | .edge => liveEdgeRids

/-- The type and the stored properties of a record. -/
def recordRef (kind : RecordKind) (rid : RecordId) : Action (Graph M) (UInt16 × Option RecordId) :=
  match kind with
  | .node => do
    let node ← readNode rid
    pure (node.nodeTypeId, node.propertyRef)
  | .edge => do
    let edge ← readEdge rid
    pure (edge.edgeTypeId, edge.propertyRef)

/-- `raw_props_of_type`. -/
def rawPropsOfType (kind : RecordKind) (typeId : UInt16) (rid : RecordId) : Action (Graph M) (Option (Props F)) := do
  let (recordType, pref) ← recordRef kind rid
  match pref with
  | none => pure none
  | some pref =>
    if recordType = typeId then do pure (some (← readProps C (some pref))) else pure none

/-- A record gets other properties; the old ones are returned. -/
def swapRef (kind : RecordKind) (rid : RecordId) (pref : Option RecordId) : Action (Graph M) (Option RecordId) :=
  match kind with
  | .node => do
    let node ← readNode rid
    writeNode { node with propertyRef := pref }
    pure node.propertyRef
  | .edge => do
    let edge ← readEdge rid
    writeEdge { edge with propertyRef := pref }
    pure edge.propertyRef

/-- `replace_raw_props`. -/
def replaceRawProps (kind : RecordKind) (rid : RecordId) (props : Props F) : Action (Graph M) Unit := do
  let pref ← writeProps C props
  let old ← swapRef kind rid pref
  freeRef old

/-! ## Renaming a field -/

/-- The index entry of a renamed field. -/
def moveEntry (typeId : UInt16) (oldName newName : String) (rid : RecordId) (value : Value F) :
    Action (Graph M) Unit := do
  let bytes ← Action.ofExcept (encodeValue C value)
  onPages (Backing.removeEntry (.new typeId (utf8 oldName) bytes) rid)
  onPages (Backing.addEntry (.new typeId (utf8 newName) bytes) rid)

/-- One record of `rename_field_records`. -/
def renameRecord (kind : RecordKind) (typeId : UInt16) (oldName newName : String) (indexed : Bool)
    (rid : RecordId) : Action (Graph M) Unit := do
  match ← rawPropsOfType C kind typeId rid with
  | none => pure ()
  | some props =>
    let stripped := (props.erase newName).erase oldName
    match (props.erase newName)[oldName]? with
    | none => if newName ∈ props then replaceRawProps C kind rid stripped else pure ()
    | some value => do
      Action.onlyIf (indexed && kind = .node && isIndexableValue value)
        (moveEntry C typeId oldName newName rid value)
      replaceRawProps C kind rid (stripped.insert newName value)

/-- `rename_field_records`. -/
def renameFieldRecords (ast : SchemaAst) (kind : RecordKind) (typeId : UInt16) (oldName newName : String)
    (indexed : Bool) : Action (Graph M) Unit := do
  saveSchemaUnchecked C ast
  let rids ← ridsOfKind kind typeId
  Action.forEach rids (renameRecord C kind typeId oldName newName indexed)

/-- `rename_field`. -/
def renameField (kind : RecordKind) (typeName oldName newName : String) : Action (Graph M) Unit := do
  let ast ← loadSchema C
  let typeId ← schemaTypeId C kind typeName
  let fields ← Action.ofExcept (schemaFields ast kind typeName)
  let (position, field) ← Action.ofExcept (fieldPosition fields kind typeName oldName)
  if oldName = newName then pure ()
  else if fields.any fun f => f.name = newName then
    Action.throw (.schemaError (kind.label ++ " '" ++ typeName ++ "' already has a field '" ++ newName ++ "'"))
  else do
    let ast := ast.setFields kind typeName (fields.set position { field with name := newName })
    Action.ofExcept (validate ast)
    let reparsed ← Action.reads fun _ => parse X (unparse X ast)
    if reparsed ≠ ast then Action.throw (.schemaError ("invalid field name '" ++ newName ++ "'"))
    else orRestore (renameFieldRecords C ast kind typeId oldName newName (field.indexed || field.unique))

/-! ## Changing the type of a field -/

/-- A record whose value has no counterpart in the new type. -/
def unconvertible (kind : RecordKind) (typeId : UInt16) (fieldName : String) (target : TypeExpr)
    (rid : RecordId) : Action (Graph M) (Option RecordId) := do
  match ← rawPropsOfType C kind typeId rid with
  | none => pure none
  | some props => pure (match props[fieldName]? with
    | none | some .null => none
    | some value => if (convertValue value target).isNone then some rid else none)

/-- Another record with the converted value breaks `@unique`. -/
def checkConverted (fieldName : String) (value : Value F) (rid other : RecordId) : Action (Graph M) Unit :=
  if other = rid then pure ()
  else do
    let props ← nodePropertiesRaw C other
    if (props[fieldName]?).any (·.eq value) then Action.throw (.uniqueViolation fieldName (C.text value))
    else pure ()

/-- The index entries of a converted value. -/
def reindexConverted (typeId : UInt16) (fieldName : String) (unique : Bool) (rid : RecordId)
    (old new : Value F) : Action (Graph M) Unit := do
  Action.onlyIf (isIndexableValue old) do
    let key ← indexKey C typeId fieldName old
    onPages (Backing.removeEntry key rid)
  Action.onlyIf (isIndexableValue new) do
    let key ← indexKey C typeId fieldName new
    Action.onlyIf unique do
      let candidates ← lookup (Backing.candidates key)
      Action.forEach candidates (checkConverted C fieldName new rid)
    onPages (Backing.addEntry key rid)

/-- One record of `convert_field_records`: something, if its value holds the new type now. -/
def convertRecord (kind : RecordKind) (typeId : UInt16) (fieldName : String) (target : TypeExpr)
    (indexed unique : Bool) (rid : RecordId) : Action (Graph M) (Option Unit) := do
  match ← rawPropsOfType C kind typeId rid with
  | none => pure none
  | some props =>
    match props[fieldName]? with
    | none | some .null => pure none
    | some old =>
      let converted := convertValue old target
      let new := converted.getD .null
      if new.eq old then pure (converted.map fun _ => ())
      else do
        Action.onlyIf indexed (reindexConverted C typeId fieldName unique rid old new)
        replaceRawProps C kind rid (props.insert fieldName new)
        pure (converted.map fun _ => ())

/-- `convert_field_records`. -/
def convertFieldRecords (ast : SchemaAst) (kind : RecordKind) (typeId : UInt16) (rids : List RecordId)
    (fieldName : String) (target : TypeExpr) (indexed unique : Bool) : Action (Graph M) Nat := do
  saveSchemaUnchecked C ast
  let converted ← Action.collect rids (convertRecord C kind typeId fieldName target indexed unique)
  pure converted.length

/-- `change_field_type`, from the scan of the records on. -/
def convertField (ast : SchemaAst) (kind : RecordKind) (typeId : UInt16) (field : FieldDef) (target : TypeExpr)
    (onFailure : OnConversionFailure) : Action (Graph M) FieldTypeChange := do
  let rids ← ridsOfKind kind typeId
  let failed ← Action.collect rids (unconvertible C kind typeId field.name target)
  if !failed.isEmpty && onFailure = .reject then
    pure ⟨false, 0, failed.length, failed.take MAX_REPORTED_FAILURES⟩
  else do
    let converted ← orRestore (convertFieldRecords C ast kind typeId rids field.name target
      (kind = .node && (field.indexed || field.unique)) (kind = .node && field.unique))
    pure ⟨true, converted, failed.length, failed.take MAX_REPORTED_FAILURES⟩

/-- `change_field_type`. -/
def changeFieldType (kind : RecordKind) (typeName fieldName newType : String) (onFailure : OnConversionFailure) :
    Action (Graph M) FieldTypeChange := do
  match scalarTypeFromName newType with
  | none => Action.throw (.schemaError ("cannot change a field to type '" ++ newType ++
      "': expected String, Int, Float, Boolean or DateTime"))
  | some target => do
    let ast ← loadSchema C
    let typeId ← schemaTypeId C kind typeName
    let fields ← Action.ofExcept (schemaFields ast kind typeName)
    let (position, field) ← Action.ofExcept (fieldPosition fields kind typeName fieldName)
    if field.typeExpr = target then pure ⟨true, 0, 0, []⟩
    else if !conversionSupported field.typeExpr target then
      Action.throw (.schemaError (kind.label ++ " '" ++ typeName ++ "' field '" ++ fieldName ++
        "': changing the type to " ++ newType ++ " is not supported"))
    else
      convertField C (ast.setFields kind typeName (fields.set position { field with typeExpr := target }))
        kind typeId field target onFailure

/-! ## Rebuilding -/

/-- A call on the database that is copied. -/
def onSource {α : Type} (p : Action (Graph M) α) : Action (Graph M × Graph M) α := p.zoom Prod.fst fun s g => (g, s.2)

/-- A call on the copy. -/
def onCopy {α : Type} (p : Action (Graph M) α) : Action (Graph M × Graph M) α := p.zoom Prod.snd fun s g => (s.1, g)

/-- `copy_schema`, of a database that has one. -/
def copySchema : Action (Graph M × Graph M) Unit := do
  let s ← Action.get
  if !Backing.hasSchema s.1.pages then pure ()
  else do
    let dto ← onSource (loadSchemaDto C)
    onCopy (writeSchemaDto C dto)

/-- The default of `unwrap_or_default`. -/
def orEmpty (p : Action (Graph M) (Props F)) : Action (Graph M) (Props F) := do
  match ← Action.attempt p with
  | .ok props => pure props
  | .error _ => pure ∅

/-- One node of the copy: its old and its new record id. -/
def copyNode (rid : RecordId) : Action (Graph M × Graph M) (Option (RecordId × RecordId)) := do
  match ← onSource (Action.attempt (readNode rid)) with
  | .error _ => pure none
  | .ok node => do
    let props ← onSource (orEmpty (getNodeProperties C rid))
    let labels ← onSource (getAdditionalLabels C rid)
    let new ← onCopy (insertNodeWithLabels C node.nodeTypeId labels props)
    pure (some (rid, new))

/-- One edge of the copy. -/
def copyEdge (ridMap : List (RecordId × RecordId)) (eid : RecordId) : Action (Graph M × Graph M) Unit := do
  match ← onSource (Action.attempt (readEdge eid)) with
  | .error _ => pure ()
  | .ok edge =>
    match ridMap.lookup edge.fromNode, ridMap.lookup edge.toNode with
    | some newFrom, some newTo => do
      let props ← onSource (orEmpty (getEdgeProperties C eid))
      let labels ← onSource (getEdgeAdditionalLabels C eid)
      let _ ← onCopy (insertEdgeWithLabels C edge.edgeTypeId newFrom newTo labels props)
      pure ()
    | _, _ => pure ()

/-- `copy_live_contents_into`. -/
def copyLiveContents : Action (Graph M × Graph M) Unit := do
  copySchema C
  let nodes ← onSource liveNodeRids
  let ridMap ← Action.collect nodes (copyNode C)
  let edges ← onSource liveEdgeRids
  Action.forEach edges (copyEdge C ridMap)

/-- `vacuum`; `vacuum_file` replaces a file in the same way. -/
def vacuum : Action (Graph M) Unit := fun g =>
  match copyLiveContents C (g, empty) with
  | (.ok (), _, copy) => (.ok (), copy)
  | (.err e, g, _) => (.err e, g)
  | (.panic, g, _) => (.panic, g)

end Graph

end ChiffonDB
