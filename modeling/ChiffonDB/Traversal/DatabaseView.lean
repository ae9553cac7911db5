import ChiffonDB.Graph.Database
import ChiffonDB.Graph.Linked
import ChiffonDB.Traversal.Executor

/-!
# Databases as graphs

`DatabaseGraphView` of `db.rs`: a traversal reads a database.

* `ridToId`, `idToRid` — record ids as the numbers of a traversal.
* `databaseView` — the reads; those that fail give what stands for nothing.
* `loadView` — the view of a database, with the names of its types.
-/

set_option autoImplicit false

set_option linter.unusedSectionVars false

namespace ChiffonDB

/-! ## Record ids -/

/-- `rid_to_id`. -/
def ridToId (rid : RecordId) : UInt64 := rid.pageId.toUInt64 <<< 16 ||| rid.slotId.toUInt64

/-- `id_to_rid`. -/
def idToRid (id : UInt64) : RecordId := ⟨(id >>> 16).toUInt32, (id &&& 0xFFFF).toUInt16⟩

theorem toNat_ridToId (rid : RecordId) : (ridToId rid).toNat = rid.pageId.toNat * 2 ^ 16 + rid.slotId.toNat := by
  have hp := rid.pageId.toNat_lt
  have hs := rid.slotId.toNat_lt
  have hpage : (rid.pageId.toUInt64 <<< 16).toNat = rid.pageId.toNat <<< 16 := by
    rw [UInt64.toNat_shiftLeft, UInt32.toNat_toUInt64]
    exact Nat.mod_eq_of_lt (by rw [Nat.shiftLeft_eq]; show _ * 2 ^ 16 < _; omega)
  rw [ridToId, UInt64.toNat_or, hpage, UInt16.toNat_toUInt64, ← Nat.shiftLeft_add_eq_or_of_lt hs, Nat.shiftLeft_eq]

@[simp] theorem idToRid_ridToId (rid : RecordId) : idToRid (ridToId rid) = rid := by
  have hp := rid.pageId.toNat_lt
  have hs := rid.slotId.toNat_lt
  have hid := toNat_ridToId rid
  have hpage : (ridToId rid >>> 16).toUInt32 = rid.pageId := by
    apply UInt32.toNat_inj.1
    rw [UInt64.toNat_toUInt32, UInt64.toNat_shiftRight, hid]
    show (_ >>> 16) % 2 ^ 32 = _
    rw [Nat.shiftRight_eq_div_pow]
    omega
  have hslot : (ridToId rid &&& 0xFFFF).toUInt16 = rid.slotId := by
    apply UInt16.toNat_inj.1
    rw [UInt64.toNat_toUInt16, UInt64.toNat_and, hid]
    show (_ &&& (2 ^ 16 - 1)) % 2 ^ 16 = _
    rw [Nat.and_two_pow_sub_one_eq_mod]
    omega
  rw [idToRid, hpage, hslot]

theorem ridToId_injective : Function.Injective ridToId := Function.LeftInverse.injective idToRid_ridToId

attribute [irreducible] ridToId idToRid

/-- `parse::<u16>`. -/
def parseU16 (s : String) : Option UInt16 := do
  let n ← (match s.toList with
    | '+' :: cs => parseDigits cs
    | cs => parseDigits cs)
  if n < UInt16.size then some (UInt16.ofNat n) else none

variable {F : Type} [F64 F] [F64Text F] {M : Type} [Backing M]

namespace Graph

variable (C : Codecs F)

/-! ## The first node -/

/-- `index::find`. -/
def scanFirst (typeId : UInt16) (path : PropertyPath) (value : Value F) :
    List RecordId → Action (Graph M) (Option RecordId)
  | [] => pure none
  | rid :: rids => do
    match ← scanHit C typeId path value rid with
    | some found => pure (some found)
    | none => scanFirst typeId path value rids

/-- `find_node`. -/
def findNode (typeId : UInt16) (path : PropertyPath) (value : Value F) : Action (Graph M) (Option RecordId) := do
  let paths ← indexedPathsForType C typeId
  if paths.any fun p => p.1 = path then do
    let rids ← findAllNodes C typeId path value
    pure rids.head?
  else do
    let rids ← liveNodeRids
    scanFirst C typeId path value rids

/-! ## Labels -/

variable (registry : Option SchemaRegistry)

/-- `node_type_label` and `edge_type_label`: the name of a type, or its number. -/
def typeLabel (kind : RecordKind) (typeId : UInt16) : String :=
  (registry.bind fun r => match kind with
    | .node => r.nodeTypeName typeId
    | .edge => r.edgeTypeName typeId).getD (toString typeId)

/-- A label list, or nothing where there is none to read. -/
def extraLabels (labelRef : Option RecordId) : Action (Graph M) (List UInt16) := do
  let labels ← Action.attempt (readLabels C labelRef)
  pure (labels.toOption.getD [])

/-- `read_node_all_labels`. -/
def readNodeAllLabels (id : NodeId) : Action (Graph M) (List String) := do
  match ← Action.attempt (readNode (idToRid id)) with
  | .error _ => pure []
  | .ok node => do
    let extra ← extraLabels C node.labelRef
    pure ((node.nodeTypeId :: extra).map (typeLabel registry .node))

/-- `read_edge_all_labels`. -/
def readEdgeAllLabels (id : EdgeId) : Action (Graph M) (List String) := do
  match ← Action.attempt (readEdge (idToRid id)) with
  | .error _ => pure []
  | .ok edge => do
    let extra ← extraLabels C edge.labelRef
    pure ((edge.edgeTypeId :: extra).map (typeLabel registry .edge))

/-- The edges of one list of a node that have a label. -/
def labelledEdges (dir : EdgeDirection) (id : NodeId) (label : Option String) : Action (Graph M) (List EdgeId) := do
  let edges ← Action.attempt (onTopo (Topo.collectEdges dir (idToRid id)))
  let eids := (edges.toOption.getD []).map fun e => ridToId e.id
  match label with
  | none => pure eids
  | some l => Action.collect eids fun eid => do
    let labels ← readEdgeAllLabels C registry eid
    pure (if l ∈ labels then some eid else none)

/-- The elements that have a label; the empty label is that of all. -/
def labelledIds (rids : List RecordId) (labels : UInt64 → Action (Graph M) (List String)) (label : String) :
    Action (Graph M) (List UInt64) :=
  if label.isEmpty then pure (rids.map ridToId)
  else Action.collect (rids.map ridToId) fun id => do
    let names ← labels id
    pure (if label ∈ names then some id else none)

/-- `find_node_by`. -/
def findNodeBy (label key : String) (value : Value F) : Action (Graph M) (Option NodeId) :=
  match (registry.bind fun r => r.nodeTypeId label) <|> parseU16 label with
  | none => pure none
  | some typeId => do
    let found ← Action.attempt (findNode C typeId (.flat key) value)
    pure (found.toOption.join.map ridToId)

/-! ## The view -/

/-- What a read gives, if it does not fail. -/
def readOr {α β : Type} (read : Action (Graph M) α) (f : α → β) (g : Graph M) : Outcome (Option β) :=
  ((do
    let r ← Action.attempt read
    pure (r.toOption.map f) : Action (Graph M) (Option β)) g).1

/-- The properties of a record, or none of them. -/
def propertiesOr (read : Action (Graph M) (Props F)) (g : Graph M) : Outcome (Option (Props F)) :=
  ((do
    let r ← Action.attempt read
    pure (some (r.toOption.getD ∅)) : Action (Graph M) (Option (Props F))) g).1

/-- `DatabaseGraphView`; no read changes the database. -/
def databaseView (g : Graph M) : GraphAccess F where
  findNode label key value := (findNodeBy C registry label key value g).1
  allNodesOfLabel label := (labelledIds g.topo.nodes.liveRids (readNodeAllLabels C registry) label g).1
  allEdgesOfLabel label := (labelledIds g.topo.edges.liveRids (readEdgeAllLabels C registry) label g).1
  nodeProperties id := propertiesOr (getNodeProperties C (idToRid id)) g
  nodeLabel id := readOr (readNode (idToRid id)) (fun node => typeLabel registry .node node.nodeTypeId) g
  nodeLabels id := (readNodeAllLabels C registry id g).1
  outEdges id label := (labelledEdges C registry .out id label g).1
  inEdges id label := (labelledEdges C registry .in id label g).1
  edgeToNode id := readOr (readEdge (idToRid id)) (fun edge => ridToId edge.toNode) g
  edgeFromNode id := readOr (readEdge (idToRid id)) (fun edge => ridToId edge.fromNode) g
  edgeLabel id := readOr (readEdge (idToRid id)) (fun edge => typeLabel registry .edge edge.edgeTypeId) g
  edgeProperties id := propertiesOr (getEdgeProperties C (idToRid id)) g
  applyCustomFilter _ candidates := pure (candidates.map Prod.fst)

/-- `DatabaseGraphView::load`. -/
def loadView : Action (Graph M) (GraphAccess F) := do
  let registry ← Action.attempt (loadSchemaRegistry C)
  let g ← Action.get
  pure (databaseView C registry.toOption g)

end Graph

end ChiffonDB
