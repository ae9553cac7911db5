import ChiffonDB.Graph.InMemory
import ChiffonDB.Graph.Operations

/-!
# Runs on the records

Runs of `insert_node`, `insert_edge`, `delete_edge` and `delete_node`, from an empty database.

* `RecordCall` — the calls; `RecordCall.Reached` — the states behind the runs.
* `adjacency_exact` — **in each of them the lists of a live node are its live edges, each of them once, and live edges
  join live nodes**.
-/

set_option autoImplicit false

set_option linter.unusedSectionVars false

namespace ChiffonDB

open Action Graph

variable {F : Type} [F64 F] [F64Text F] {M : Type} [Backing M]

/-- A call that changes the records. -/
inductive RecordCall (F : Type) where
  | insertNode (typeId : UInt16) (props : Props F)
  | insertEdge (typeId : UInt16) (fromNode toNode : RecordId) (props : Props F)
  | deleteEdge (rid : RecordId)
  | deleteNode (rid : RecordId)

namespace RecordCall

variable (C : Codecs F)

def run : RecordCall F → Action (Graph M) Unit
  | insertNode typeId props => drop (Graph.insertNode C typeId props)
  | insertEdge typeId fromNode toNode props => drop (Graph.insertEdge C typeId fromNode toNode props)
  | deleteEdge rid => Graph.deleteEdge rid
  | deleteNode rid => Graph.deleteNode C rid

/-- The states that such calls lead to, whatever their arguments. -/
abbrev Reached (g : Graph M) : Prop := Action.Reached Graph.empty (run C) (fun _ _ => True) g

variable {C}

/-- **Every call keeps the topology linked.** -/
theorem secures_run (c : RecordCall F) : Secures Topo.Linked (c.run C : Action (Graph M) Unit) fun _ => Topo.Linked := by
  cases c with
  | insertNode typeId props =>
    exact .bind (secures_insertNode C typeId props) fun _ => .pure fun _ h => h.1
  | insertEdge typeId fromNode toNode props =>
    exact .bind (secures_insertEdge C typeId fromNode toNode props) fun _ => .pure fun _ h => h.1
  | deleteEdge rid => exact secures_deleteEdge rid
  | deleteNode rid => exact secures_deleteNode C rid

theorem Reached.linked {g : Graph M} (h : Reached C g) : g.topo.Linked :=
  (Action.Reached.invariant (I := At Topo.Linked) ⟨Topo.linked_empty, Topo.named_empty⟩
    (fun c => Meets.mono (secures_run c) (fun _ hg => hg.1) (fun _ _ hg => hg) fun _ hg => hg) h).1

end RecordCall

/-- **The lists are exact**: in every state that is reached, both ends of a live edge are live nodes, and the walks from a
    live node end, having passed exactly its live edges, each of them once. -/
theorem adjacency_exact {C : Codecs F} {g : Graph M} (h : RecordCall.Reached C g) :
    (∀ e edge, g.topo.edges.live e = some edge → ∀ dir, g.topo.LiveNode (edge.anchor dir)) ∧
    ∀ n, g.topo.LiveNode n → ∀ dir, ∃ edges, Topo.collectEdges dir n g.topo = (.ok edges, g.topo) ∧
      (edges.map (·.id)).Nodup ∧
      ∀ e, e ∈ edges.map (·.id) ↔ ∃ edge, g.topo.edges.live e = some edge ∧ edge.anchor dir = n := by
  have hlinked := h.linked
  refine ⟨fun e edge he dir => hlinked.ends he dir, fun n hn dir => ?_⟩
  obtain ⟨edges, hrun, hnd, hmem⟩ := hlinked.collectEdges hn dir
  refine ⟨edges, hrun, hnd, fun e => ?_⟩
  constructor
  · intro he
    obtain ⟨edge, hedge, rfl⟩ := List.mem_map.1 he
    exact ⟨edge, (hmem edge).1 hedge⟩
  · rintro ⟨edge, hlive, hanchor⟩
    have hid := hlinked.edgeId hlive
    exact List.mem_map.2 ⟨edge, (hmem edge).2 ⟨by rw [hid]; exact hlive, hanchor⟩, hid⟩

/-- A node with an edge to itself. -/
theorem adjacency_exact_loop : ∃ rid eid, ∃ g : Graph Parts, RecordCall.Reached plainCodecs g ∧
    ∀ dir, ∃ edges, Topo.collectEdges dir rid g.topo = (.ok edges, g.topo) ∧ eid ∈ edges.map (·.id) := by
  have hlive : (Contents.empty : Contents Double).EntriesLive := fun _ _ h => by cases h
  have hadmits : (Contents.empty : Contents Double).Admits plainCodecs 1 ∅ none := fun _ h => by cases h
  have htaken : PropsTaken Parts plainCodecs ∅ := .inl rfl
  have hroom : Roomy 13 (Graph.empty : Graph Parts) := Spacious.roomy (Spacious.empty (by decide))
  obtain ⟨rid, g₁, hrun₁, ⟨-, hshows₁⟩, hroom₁⟩ := runs_insertNode plainCodecs_faithful hlive htaken hadmits
    Graph.empty 8 (shows_empty plainCodecs) hroom
  have hnode : ((Contents.empty : Contents Double).insertNode plainCodecs rid 1 ∅).nodes rid =
      some ⟨1, ∅, []⟩ := Function.update_self _ _ _
  have hsome : (((Contents.empty : Contents Double).insertNode plainCodecs rid 1 ∅).nodes rid).isSome := by
    rw [hnode]
    rfl
  obtain ⟨eid, g₂, hrun₂, ⟨-, hshows₂⟩, -⟩ := runs_insertEdge plainCodecs_faithful hsome hsome 1 htaken g₁ 0 hshows₁
    hroom₁
  have hfirst : RecordCall.Reached plainCodecs g₁ :=
    .step (k := .insertNode 1 ∅) (r := .ok ()) .init trivial (run_then hrun₁ _) (by rintro ⟨⟩)
  have hreached : RecordCall.Reached plainCodecs g₂ :=
    .step (k := .insertEdge 1 rid rid ∅) (r := .ok ()) hfirst trivial (run_then hrun₂ _) (by rintro ⟨⟩)
  obtain ⟨edge, hedge, hstored⟩ := exists_edge hshows₂ (Function.update_self eid _ _)
  have hanchor : ∀ dir, edge.anchor dir = rid := by
    rintro (_ | _)
    · exact hstored.fromNode
    · exact hstored.toNode
  obtain ⟨hends, hlists⟩ := adjacency_exact hreached
  refine ⟨rid, eid, g₂, hreached, fun dir => ?_⟩
  obtain ⟨edges, hrun, -, hmem⟩ := hlists rid (hanchor dir ▸ hends eid edge hedge dir) dir
  exact ⟨edges, hrun, (hmem eid).2 ⟨edge, hedge, hanchor dir⟩⟩

end ChiffonDB
