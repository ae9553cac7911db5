import ChiffonDB.Graph.Action
import ChiffonDB.Graph.Table

/-!
# The topology store

`TopologyStore` of `storage/topology.rs` over record tables.

* `Topo` — the node table and the edge table.
* `appendEdge`, `removeFromList`, `deleteEdge`, `collectEdges` — the adjacency lists of the nodes.

A loop along a list that has passed more edges than there are slots never ends; the model gives such
a call the outcome of one that does not return.
-/

set_option autoImplicit false

namespace ChiffonDB

structure Topo where
  nodes : RecordTable NodeRecord
  edges : RecordTable EdgeRecord

/-- The record of a slot that nothing has been written to. -/
def NodeRecord.blank : NodeRecord := NodeRecord.deserialize (List.replicate NODE_RECORD_SIZE 0)

def EdgeRecord.blank : EdgeRecord := EdgeRecord.deserialize (List.replicate EDGE_RECORD_SIZE 0)

/-- The record that `alloc_node` writes. -/
def NodeRecord.new (rid : RecordId) (nodeTypeId : UInt16) : NodeRecord where
  id := rid
  nodeTypeId := nodeTypeId
  firstOutEdge := none
  firstInEdge := none
  propertyRef := none
  labelRef := none
  flags := 0

/-- The record that `alloc_edge` writes. -/
def EdgeRecord.new (rid : RecordId) (edgeTypeId : UInt16) (fromNode toNode : RecordId) : EdgeRecord where
  id := rid
  edgeTypeId := edgeTypeId
  fromNode := fromNode
  toNode := toNode
  nextOutEdge := none
  nextInEdge := none
  propertyRef := none
  flags := 0
  labelRef := none

def NodeRecord.setFirst (n : NodeRecord) : EdgeDirection → Option RecordId → NodeRecord
  | .out, e => { n with firstOutEdge := e }
  | .in, e => { n with firstInEdge := e }

def EdgeRecord.setNext (e : EdgeRecord) : EdgeDirection → Option RecordId → EdgeRecord
  | .out, n => { e with nextOutEdge := n }
  | .in, n => { e with nextInEdge := n }

namespace Topo

def empty : Topo := ⟨.empty, .empty⟩

def readNode (rid : RecordId) : Action Topo NodeRecord := .reads fun t => .ofExcept (t.nodes.read rid)

def readEdge (rid : RecordId) : Action Topo EdgeRecord := .reads fun t => .ofExcept (t.edges.read rid)

/-- `write_node`, which writes a record into the slot that the record names. -/
def writeNode (node : NodeRecord) : Action Topo Unit := .update fun t => do
  pure { t with nodes := ← t.nodes.write node.id node }

def writeEdge (edge : EdgeRecord) : Action Topo Unit := .update fun t => do
  pure { t with edges := ← t.edges.write edge.id edge }

/-- `append_out_edge`, `append_in_edge`. -/
def appendEdge (dir : EdgeDirection) (nodeRid edgeRid : RecordId) : Action Topo Unit := do
  let node ← readNode nodeRid
  let edge ← readEdge edgeRid
  writeEdge (edge.setNext dir (node.first dir))
  writeNode (node.setFirst dir (some edgeRid))

/-- More edges than a list without a repetition can have. -/
def walkLimit (t : Topo) : Nat := t.edges.pages.length * SLOTS + 1

/-- The loop of `remove_from_out_list` and `remove_from_in_list`. -/
def unlink (dir : EdgeDirection) (target : RecordId) (targetNext : Option RecordId) :
    Nat → Option RecordId → Action Topo Unit
  | _, none => pure ()
  | 0, some _ => .panic
  | fuel + 1, some rid => do
    let edge ← readEdge rid
    if edge.next dir = some target then writeEdge (edge.setNext dir targetNext)
    else unlink dir target targetNext fuel (edge.next dir)

/-- `remove_from_out_list`, `remove_from_in_list`. -/
def removeFromList (dir : EdgeDirection) (nodeRid target : RecordId) (targetNext : Option RecordId) :
    Action Topo Unit := do
  let node ← readNode nodeRid
  if node.first dir = some target then writeNode (node.setFirst dir targetNext)
  else do
    let t ← Action.get
    unlink dir target targetNext t.walkLimit (node.first dir)

/-- `delete_edge`. -/
def deleteEdge (edgeRid : RecordId) : Action Topo Unit := do
  let edge ← readEdge edgeRid
  removeFromList .out edge.fromNode edgeRid edge.nextOutEdge
  removeFromList .in edge.toNode edgeRid edge.nextInEdge
  .update fun t => do pure { t with edges := ← t.edges.free edgeRid }

/-- `free_node`. -/
def freeNode (rid : RecordId) : Action Topo Unit := .update fun t => do
  pure { t with nodes := ← t.nodes.free rid }

/-- The loop of `collect_edge_chain`. -/
def collectFrom (t : Topo) (dir : EdgeDirection) : Nat → Option RecordId → Outcome (List EdgeRecord)
  | _, none => .ok []
  | 0, some _ => .panic
  | fuel + 1, some rid => do
    let edge ← Outcome.ofExcept (t.edges.read rid)
    let rest ← collectFrom t dir fuel (edge.next dir)
    pure (edge :: rest)

/-- `collect_out_edges`, `collect_in_edges`. -/
def collectEdges (dir : EdgeDirection) (nodeRid : RecordId) : Action Topo (List EdgeRecord) := .reads fun t => do
  let node ← Outcome.ofExcept (t.nodes.read nodeRid)
  collectFrom t dir t.walkLimit (node.first dir)

end Topo

end ChiffonDB
