import ChiffonDB.Graph.Lookups

/-!
# Listing the records

The lists of `db.rs` that a client asks for, and the names of the types of what is in them.

* `Graph.listNodes`, `Graph.listEdges` — the records of a type, or all of them, with their properties.
* `Graph.getNodeTypeName`, `Graph.getEdgeTypeName`, `Graph.getEdgeEndpoints` — what else there is to know.
* `Graph.finds_listNodes`, `Graph.finds_listEdges` — **the lists are the rows**.
-/

set_option autoImplicit false

set_option linter.unusedSectionVars false

namespace ChiffonDB

open Action

namespace Graph

section Model

variable {F : Type} [F64 F] [F64Text F] {M : Type} [Backing M] (C : Codecs F)

/-- The loop of `list_nodes`. -/
def nodesWithProps (rids : List RecordId) : Action (Graph M) (List (RecordId × Props F)) :=
  Action.collect rids fun rid => do
    let props ← getNodeProperties C rid
    pure (some (rid, props))

/-- `list_nodes`; a name that is not registered lists all nodes. -/
def listNodes (typeName : Option String) : Action (Graph M) (List (RecordId × Props F)) :=
  match typeName with
  | some name => do
    let registry ← Action.attempt (loadSchemaRegistry C)
    match registry.toOption.bind fun r => r.nodeTypeId name with
    | some typeId => do
      let rids ← lookup (Backing.labelled typeId)
      nodesWithProps C rids
    | none => do
      let rids ← liveNodeRids
      nodesWithProps C rids
  | none => do
    let rids ← liveNodeRids
    nodesWithProps C rids

/-- One edge of the loop of `list_edges`. -/
def listedEdge (typeId : Option UInt16) (rid : RecordId) : Action (Graph M) (Option (RecordId × UInt16 × Props F)) := do
  let edge ← readEdge rid
  if typeId.any fun id => edge.edgeTypeId ≠ id then pure none
  else do
    let props ← getEdgeProperties C rid
    pure (some (rid, edge.edgeTypeId, props))

/-- `list_edges`; a name that is not registered lists no edge. -/
def listEdges (typeName : Option String) : Action (Graph M) (List (RecordId × UInt16 × Props F)) := do
  let registry ← Action.attempt (loadSchemaRegistry C)
  let typeId := typeName.bind fun name => registry.toOption.bind fun r => r.edgeTypeId name
  if typeName.isSome && typeId.isNone then pure []
  else do
    let rids ← liveEdgeRids
    Action.collect rids (listedEdge C typeId)

/-- `get_node_type_name`: the number of a type that has no name. -/
def getNodeTypeName (rid : RecordId) : Action (Graph M) String := do
  let node ← readNode rid
  let registry ← Action.attempt (loadSchemaRegistry C)
  pure ((registry.toOption.bind fun r => r.nodeTypeName node.nodeTypeId).getD (toString node.nodeTypeId))

/-- `get_edge_type_name`. -/
def getEdgeTypeName (rid : RecordId) : Action (Graph M) String := do
  let edge ← readEdge rid
  let registry ← Action.attempt (loadSchemaRegistry C)
  pure ((registry.toOption.bind fun r => r.edgeTypeName edge.edgeTypeId).getD (toString edge.edgeTypeId))

/-- `get_edge_endpoints`. -/
def getEdgeEndpoints (rid : RecordId) : Action (Graph M) (RecordId × RecordId) := do
  let edge ← readEdge rid
  pure (edge.fromNode, edge.toNode)

end Model

end Graph

/-! ## On contents -/

variable {F : Type} [F64 F] [F64Text F] {M : Type} [FaithfulBacking M]

namespace Contents

variable (c : Contents F)

/-- The name of a type, or its number. -/
def typeName (kind : RecordKind) (typeId : UInt16) : String :=
  (c.schema.bind fun dto => match kind with
    | .node => dto.registry.nodeTypeName typeId
    | .edge => dto.registry.edgeTypeName typeId).getD (toString typeId)

/-- The properties of a row, as they are shown. -/
def shownNode (row : NodeRow F) : Props F := c.visible .node row.typeId row.props

def shownEdge (row : EdgeRow F) : Props F := c.visible .edge row.typeId row.props

/-- The live nodes among some, with their properties. -/
def listedNodes (rids : List RecordId) : List (RecordId × Props F) :=
  rids.filterMap fun rid => (c.nodes rid).map fun row => (rid, c.shownNode row)

def listedEdges (rids : List RecordId) : List (RecordId × UInt16 × Props F) :=
  rids.filterMap fun rid => (c.edges rid).map fun row => (rid, row.typeId, c.shownEdge row)

end Contents

namespace Graph

variable {C : Codecs F} {t : Topo} {b : Behind} {c : Contents F} {rid : RecordId}

theorem finds_attemptRegistry (h : Depicts C t b c) (hC : C.Faithful) : ∃ r, Finds (Is (M := M) t b)
    (Action.attempt (loadSchemaRegistry C)) (.ok r) ∧ r.toOption = c.schema.map SchemaDto.registry := by
  refine ⟨_, (finds_loadSchemaRegistry h hC).attempt, ?_⟩
  unfold Contents.loaded
  cases c.schema <;> rfl

/-! ## Names -/

theorem finds_getNodeTypeName (h : Depicts C t b c) (hC : C.Faithful) {row : NodeRow F} (hrow : c.nodes rid = some row) :
    Finds (Is (M := M) t b) (getNodeTypeName C rid) (.ok (c.typeName .node row.typeId)) := by
  obtain ⟨r, hr, hstored⟩ := exists_node h hrow
  obtain ⟨registry, hreg, hopt⟩ := finds_attemptRegistry (M := M) h hC
  refine (finds_readNode hr).bind (u := fun _ => .ok _) fun r' hr' => ?_
  cases hr'
  refine hreg.bind (u := fun _ => .ok _) fun registry' h' => ?_
  cases h'
  rw [hopt, ← hstored.typeId, Option.bind_map]
  exact Finds.pure _

theorem finds_getEdgeTypeName (h : Depicts C t b c) (hC : C.Faithful) {row : EdgeRow F} (hrow : c.edges rid = some row) :
    Finds (Is (M := M) t b) (getEdgeTypeName C rid) (.ok (c.typeName .edge row.typeId)) := by
  obtain ⟨r, hr, hstored⟩ := exists_edge h hrow
  obtain ⟨registry, hreg, hopt⟩ := finds_attemptRegistry (M := M) h hC
  refine (finds_readEdge hr).bind (u := fun _ => .ok _) fun r' hr' => ?_
  cases hr'
  refine hreg.bind (u := fun _ => .ok _) fun registry' h' => ?_
  cases h'
  rw [hopt, ← hstored.typeId, Option.bind_map]
  exact Finds.pure _

theorem finds_getEdgeEndpoints (h : Depicts C t b c) {row : EdgeRow F} (hrow : c.edges rid = some row) :
    Finds (Is (M := M) t b) (getEdgeEndpoints rid) (.ok (row.fromNode, row.toNode)) := by
  obtain ⟨r, hr, hstored⟩ := exists_edge h hrow
  refine (finds_readEdge hr).bind (u := fun _ => .ok _) fun r' hr' => ?_
  cases hr'
  rw [← hstored.fromNode, ← hstored.toNode]
  exact Finds.pure _

/-! ## Lists -/

/-- A list of all live nodes, each of them once. -/
theorem finds_liveNodeRids (h : Depicts C t b c) : ∃ rids, Finds (Is (M := M) t b) liveNodeRids (.ok rids) ∧ rids.Nodup ∧
    ∀ rid, rid ∈ rids ↔ ∃ row, c.nodes rid = some row := by
  refine ⟨t.nodes.liveRids, ?_, RecordTable.nodup_liveRids, fun rid => ?_⟩
  · rintro g ⟨rfl, -⟩
    rfl
  · rw [RecordTable.mem_liveRids]
    constructor
    · rintro ⟨r, hr⟩
      obtain ⟨row, hrow, -⟩ := h.node.left (Topo.node_of_live hr)
      exact ⟨row, hrow⟩
    · rintro ⟨row, hrow⟩
      obtain ⟨r, hr, -⟩ := exists_node h hrow
      exact ⟨r, hr⟩

theorem finds_liveEdgeRids (h : Depicts C t b c) : ∃ rids, Finds (Is (M := M) t b) liveEdgeRids (.ok rids) ∧ rids.Nodup ∧
    ∀ rid, rid ∈ rids ↔ ∃ row, c.edges rid = some row := by
  refine ⟨t.edges.liveRids, ?_, RecordTable.nodup_liveRids, fun rid => ?_⟩
  · rintro g ⟨rfl, -⟩
    rfl
  · rw [RecordTable.mem_liveRids]
    constructor
    · rintro ⟨r, hr⟩
      obtain ⟨row, hrow, -⟩ := h.edge.left (Topo.edge_of_live hr)
      exact ⟨row, hrow⟩
    · rintro ⟨row, hrow⟩
      obtain ⟨r, hr, -⟩ := exists_edge h hrow
      exact ⟨r, hr⟩

theorem finds_nodesWithProps (h : Depicts C t b c) (hC : C.Faithful) {rids : List RecordId}
    (hlive : ∀ rid ∈ rids, ∃ row, c.nodes rid = some row) :
    Finds (Is (M := M) t b) (nodesWithProps C rids) (.ok (c.listedNodes rids)) := by
  refine Finds.collect fun rid hrid => ?_
  obtain ⟨row, hrow⟩ := hlive rid hrid
  rw [hrow]
  exact (finds_getNodeProperties h hrow hC).bind (u := fun props => .ok (some (rid, props))) fun _ _ => Finds.pure _

/-- **`list_nodes`** of all nodes. -/
theorem finds_listNodes (h : Depicts C t b c) (hC : C.Faithful) : ∃ rids, rids.Nodup ∧
    (∀ rid, rid ∈ rids ↔ ∃ row, c.nodes rid = some row) ∧
    Finds (Is (M := M) t b) (listNodes C none) (.ok (c.listedNodes rids)) := by
  obtain ⟨rids, hfind, hnd, hmem⟩ := finds_liveNodeRids (M := M) h
  refine ⟨rids, hnd, hmem, hfind.bind (u := fun _ => .ok _) fun rids' hr => ?_⟩
  cases hr
  exact finds_nodesWithProps h hC fun rid => (hmem rid).1

/-- **`list_nodes`** of a type that is registered: the nodes under its label. -/
theorem finds_listNodesOf (h : Depicts C t b c) (hC : C.Faithful) {name : String} {dto : SchemaDto} {typeId : UInt16}
    (hs : c.schema = some dto) (hid : dto.registry.nodeTypeId name = some typeId)
    (hlive : ∀ rid ∈ c.labelled typeId, ∃ row, c.nodes rid = some row) {g : Graph M} (hg : Is t b g) :
    ∃ rids : List RecordId, (rids : Multiset RecordId) = c.labelled typeId ∧
      listNodes C (some name) g = (.ok (c.listedNodes rids), g) := by
  obtain ⟨registry, hreg, hopt⟩ := finds_attemptRegistry (M := M) h hC
  obtain ⟨rids, hget, hmulti⟩ := FaithfulBacking.labelled_eq typeId g.pages
  rw [hg.2, h.labelled] at hmulti
  refine ⟨rids, hmulti, ?_⟩
  show (Action.attempt (loadSchemaRegistry C) >>= fun registry => _ : Action (Graph M) _) g = _
  rw [run_bind, hreg g hg]
  show (match registry.toOption.bind fun r => r.nodeTypeId name with
    | some typeId => _
    | none => _ : Action (Graph M) _) g = _
  rw [hopt, hs, Option.map_some, Option.bind_some, hid]
  show andThen (Backing.labelled typeId g.pages, g) (nodesWithProps C) = _
  rw [hget]
  exact finds_nodesWithProps h hC (fun rid hrid => hlive rid (hmulti ▸ Multiset.mem_coe.2 hrid)) g hg

/-- **`list_edges`** of all edges. -/
theorem finds_listEdges (h : Depicts C t b c) (hC : C.Faithful) : ∃ rids, rids.Nodup ∧
    (∀ rid, rid ∈ rids ↔ ∃ row, c.edges rid = some row) ∧
    Finds (Is (M := M) t b) (listEdges C none) (.ok (c.listedEdges rids)) := by
  obtain ⟨rids, hfind, hnd, hmem⟩ := finds_liveEdgeRids (M := M) h
  obtain ⟨registry, hreg, -⟩ := finds_attemptRegistry (M := M) h hC
  refine ⟨rids, hnd, hmem, hreg.bind (u := fun _ => .ok _) fun registry' hr => hfind.bind (u := fun _ => .ok _) fun rids' hr' => ?_⟩
  cases hr'
  refine Finds.collect fun rid hrid => ?_
  obtain ⟨row, hrow⟩ := (hmem rid).1 hrid
  obtain ⟨r, hr, hstored⟩ := exists_edge h hrow
  rw [hrow]
  refine (finds_readEdge hr).bind (u := fun _ => .ok _) fun r' hr' => ?_
  cases hr'
  refine (finds_getEdgeProperties h hrow hC).bind (u := fun _ => .ok _) fun props hp => ?_
  cases hp
  rw [hstored.typeId]
  exact Finds.pure _

end Graph

end ChiffonDB
