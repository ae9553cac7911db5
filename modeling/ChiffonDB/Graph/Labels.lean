import ChiffonDB.Graph.Database

/-!
# Labels and names

The operations of `db.rs` on additional labels, and those that take names in place of type ids.

* `Graph.setAdditionalLabels`, `Graph.setEdgeAdditionalLabels` — the single points where label lists are
  written.
* `Graph.insertNodeByName`, `Graph.insertEdgeByName` — the inserts that the schema checks.
-/

set_option autoImplicit false

namespace ChiffonDB

variable {F : Type} [F64 F] [F64Text F] {M : Type} [Backing M]

/-- The set that a label list stands for: without the primary type, each label once. -/
def normalizeLabels (primary : UInt16) (labels : List UInt16) : List UInt16 :=
  (labels.filter (· ≠ primary)).eraseDups

def unknownNodeType {α : Type} (name : String) : Action (Graph M) α :=
  Action.throw (.schemaError ("unknown node type: " ++ name))

def unknownEdgeType {α : Type} (name : String) : Action (Graph M) α :=
  Action.throw (.schemaError ("unknown edge type: " ++ name))

namespace Graph

variable (C : Codecs F)

/-! ## Labels of nodes -/

/-- The label index follows the change of a node's additional labels. -/
def reindexLabels (rid : RecordId) (old new : List UInt16) : Action (Graph M) Unit := do
  Action.forEach (old.filter (· ∉ new)) fun id => onPages (Backing.removeLabel id rid)
  Action.forEach (new.filter (· ∉ old)) fun id => onPages (Backing.addLabel id rid)

/-- `set_additional_labels`. -/
def setAdditionalLabels (rid : RecordId) (labels : List UInt16) : Action (Graph M) Unit := do
  let node ← readNode rid
  let new := normalizeLabels node.nodeTypeId labels
  let old ← getAdditionalLabels C rid
  reindexLabels rid old new
  let lref ← writeLabels C new
  writeNode { node with labelRef := lref }
  freeRef node.labelRef

/-- `add_node_label`. -/
def addNodeLabel (rid : RecordId) (typeId : UInt16) : Action (Graph M) Unit := do
  let labels ← getAdditionalLabels C rid
  if typeId ∈ labels then pure () else setAdditionalLabels C rid (labels ++ [typeId])

/-- `remove_node_label`. -/
def removeNodeLabel (rid : RecordId) (typeId : UInt16) : Action (Graph M) Unit := do
  let labels ← getAdditionalLabels C rid
  setAdditionalLabels C rid (labels.filter (· ≠ typeId))

/-- `node_type_id` of the stored registry, for a name that has to be there. -/
def nodeTypeIdOf (name : String) : Action (Graph M) UInt16 := do
  let registry ← loadSchemaRegistry C
  match registry.nodeTypeId name with
  | some id => pure id
  | none => unknownNodeType name

def edgeTypeIdOf (name : String) : Action (Graph M) UInt16 := do
  let registry ← loadSchemaRegistry C
  match registry.edgeTypeId name with
  | some id => pure id
  | none => unknownEdgeType name

def addNodeLabelByName (rid : RecordId) (name : String) : Action (Graph M) Unit := do
  addNodeLabel C rid (← nodeTypeIdOf C name)

def removeNodeLabelByName (rid : RecordId) (name : String) : Action (Graph M) Unit := do
  removeNodeLabel C rid (← nodeTypeIdOf C name)

/-- `resolve_or_register_node_type`, and what `add_edge_label_dynamic` does in its place. -/
def resolveOrRegister (kind : DynamicTypeKind) (name : String) : Action (Graph M) LabelAssignment := do
  let registry ← loadSchemaRegistry C
  match (match kind with | .node => registry.nodeTypeId name | .edge => registry.edgeTypeId name) with
  | some id => pure ⟨id, false⟩
  | none => do
    let (id, created) ← registerDynamicType C kind name
    pure ⟨id, created⟩

def addNodeLabelDynamic (rid : RecordId) (name : String) : Action (Graph M) LabelAssignment := do
  let a ← resolveOrRegister C .node name
  addNodeLabel C rid a.id
  pure a

/-! ## Labels of edges -/

/-- `get_edge_additional_labels`. -/
def getEdgeAdditionalLabels (rid : RecordId) : Action (Graph M) (List UInt16) := do
  let edge ← readEdge rid
  readLabels C edge.labelRef

/-- `set_edge_additional_labels`. -/
def setEdgeAdditionalLabels (rid : RecordId) (labels : List UInt16) : Action (Graph M) Unit := do
  let edge ← readEdge rid
  let lref ← writeLabels C (normalizeLabels edge.edgeTypeId labels)
  writeEdge { edge with labelRef := lref }
  freeRef edge.labelRef

/-- `add_edge_label`. -/
def addEdgeLabel (rid : RecordId) (typeId : UInt16) : Action (Graph M) Unit := do
  let labels ← getEdgeAdditionalLabels C rid
  if typeId ∈ labels then pure () else setEdgeAdditionalLabels C rid (labels ++ [typeId])

/-- `remove_edge_label`. -/
def removeEdgeLabel (rid : RecordId) (typeId : UInt16) : Action (Graph M) Unit := do
  let labels ← getEdgeAdditionalLabels C rid
  setEdgeAdditionalLabels C rid (labels.filter (· ≠ typeId))

def addEdgeLabelByName (rid : RecordId) (name : String) : Action (Graph M) Unit := do
  addEdgeLabel C rid (← edgeTypeIdOf C name)

def removeEdgeLabelByName (rid : RecordId) (name : String) : Action (Graph M) Unit := do
  removeEdgeLabel C rid (← edgeTypeIdOf C name)

def addEdgeLabelDynamic (rid : RecordId) (name : String) : Action (Graph M) LabelAssignment := do
  let a ← resolveOrRegister C .edge name
  addEdgeLabel C rid a.id
  pure a

/-! ## Inserts -/

/-- `insert_node_with_labels`. -/
def insertNodeWithLabels (primary : UInt16) (additional : List UInt16) (props : Props F) :
    Action (Graph M) RecordId := do
  let rid ← insertNode C primary props
  if additional.isEmpty then pure rid
  else do
    setAdditionalLabels C rid additional
    pure rid

/-- `insert_node_by_name`. -/
def insertNodeByName (name : String) (props : Props F) : Action (Graph M) RecordId := do
  let ast ← loadSchema C
  match ast.findNode name with
  | none => unknownNodeType name
  | some node => do
    Action.ofExcept (validateProperties name node.fields props)
    insertNode C (← nodeTypeIdOf C name) props

/-- The ids of names that have to be there; the first one that is not is the error. -/
def nodeTypeIdsIn (registry : SchemaRegistry) : List String → Action (Graph M) (List UInt16)
  | [] => pure []
  | name :: names =>
    match registry.nodeTypeId name with
    | none => unknownNodeType name
    | some id => do pure (id :: (← nodeTypeIdsIn registry names))

/-- `insert_node_with_label_names`. -/
def insertNodeWithLabelNames (primary : String) (additional : List String) (props : Props F) :
    Action (Graph M) RecordId := do
  let registry ← loadSchemaRegistry C
  match registry.nodeTypeId primary with
  | none => unknownNodeType primary
  | some id => do
    let ids ← nodeTypeIdsIn registry additional
    insertNodeWithLabels C id ids props

/-- The loop of `insert_node_with_dynamic_labels`. -/
def resolveAll : List String → Action (Graph M) (List (String × LabelAssignment))
  | [] => pure []
  | name :: names => do
    let a ← resolveOrRegister C .node name
    pure ((name, a) :: (← resolveAll names))

/-- `insert_node_with_dynamic_labels`. -/
def insertNodeWithDynamicLabels (primary : String) (additional : List String) (props : Props F) :
    Action (Graph M) (RecordId × List (String × LabelAssignment)) := do
  let a ← resolveOrRegister C .node primary
  let assignments ← resolveAll C additional
  let rid ← insertNodeWithLabels C a.id (assignments.map fun p => p.2.id) props
  pure (rid, (primary, a) :: assignments)

/-- `insert_edge_with_labels`. -/
def insertEdgeWithLabels (primary : UInt16) (fromNode toNode : RecordId) (additional : List UInt16)
    (props : Props F) : Action (Graph M) RecordId := do
  let eid ← insertEdge C primary fromNode toNode props
  if additional.isEmpty then pure eid
  else do
    setEdgeAdditionalLabels C eid additional
    pure eid

/-- The check of an endpoint against the type that the definition of an edge requires. -/
def checkEndpoint (registry : SchemaRegistry) (name side : String) (required : Option String) (node : NodeRecord) :
    Action (Graph M) Unit :=
  match required with
  | none => pure ()
  | some required =>
    let actual := (registry.nodeTypeName node.nodeTypeId).getD ""
    if actual = required then pure ()
    else Action.throw (.validationError ("edge " ++ name ++ ": '" ++ side ++ "' node must be type '" ++ required ++
      "', got '" ++ actual ++ "'"))

/-- `insert_edge_by_name`, behind the checks of its endpoints. -/
def insertEdgeChecked (name : String) (fromNode toNode : RecordId) (props : Props F) : Action (Graph M) RecordId := do
  let fromRecord ← readNode fromNode
  let toRecord ← readNode toNode
  let ast ← loadSchema C
  match ast.findEdge name with
  | none => unknownEdgeType name
  | some edge => do
    Action.ofExcept (validateProperties name edge.props props)
    let registry ← loadSchemaRegistry C
    match registry.edgeTypeId name with
    | none => unknownEdgeType name
    | some typeId => do
      checkEndpoint registry name "from" (resolveEndpointType edge.fromType edge.genericParams) fromRecord
      checkEndpoint registry name "to" (resolveEndpointType edge.toType edge.genericParams) toRecord
      insertEdge C typeId fromNode toNode props

/-- `insert_edge_by_name`. -/
def insertEdgeByName (name : String) (fromNode toNode : RecordId) (props : Props F) :
    Action (Graph M) RecordId := do
  if ← nodeExists fromNode then do
    if ← nodeExists toNode then insertEdgeChecked C name fromNode toNode props
    else Action.throw (.nodeNotFound ("to node " ++ toNode.debug))
  else Action.throw (.nodeNotFound ("from node " ++ fromNode.debug))

end Graph

end ChiffonDB
