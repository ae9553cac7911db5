import ChiffonDB.Storage.LogicalPages
import ChiffonDB.Storage.RecordPage

/-!
# Reading the topology

The reads of `storage/topology.rs`: records by their ids, and the edges of a node.

* `collectEdgeChain` — the edges of a node; `none` is a walk that is still under way.
-/

set_option autoImplicit false

namespace ChiffonDB

namespace Topology

def readNode (rid : RecordId) : Prog NodeRecord := do
  let header ← Prog.getHeader
  let logical := rid.pageId.toNat
  if logical ≥ header.nodePageCount.toNat then .throw (.storageCorrupted rid.pageId)
  else do
    let page ← readTopologyPage .node logical
    let bytes ← Prog.ofExcept (RecordPage.readSlot NODE_RECORD_SIZE page rid.slotId)
    pure (NodeRecord.deserialize bytes)

def readEdge (rid : RecordId) : Prog EdgeRecord := do
  let header ← Prog.getHeader
  let logical := rid.pageId.toNat
  if logical ≥ header.edgePageCount.toNat then .throw (.storageCorrupted rid.pageId)
  else do
    let page ← readTopologyPage .edge logical
    let bytes ← Prog.ofExcept (RecordPage.readSlot EDGE_RECORD_SIZE page rid.slotId)
    pure (EdgeRecord.deserialize bytes)

/-- The loop of `collect_edge_chain`, which no count bounds: what it has collected after at most `fuel`
    edges, if it has come to the end. -/
def collectEdges (dir : EdgeDirection) : Nat → Option RecordId → Prog (Option (List EdgeRecord))
  | _, none => pure (some [])
  | 0, some _ => pure none
  | fuel + 1, some rid => do
    let edge ← readEdge rid
    let rest ← collectEdges dir fuel (edge.next dir)
    pure (rest.map (edge :: ·))

/-- `collect_edge_chain`. -/
def collectEdgeChain (fuel : Nat) (nodeRid : RecordId) (dir : EdgeDirection) :
    Prog (Option (List EdgeRecord)) := do
  let node ← readNode nodeRid
  collectEdges dir fuel (node.first dir)

end Topology

end ChiffonDB
