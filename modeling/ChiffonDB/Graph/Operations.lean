import ChiffonDB.Graph.Secures

/-!
# Operations on a linked topology

* `Graph.secures_insertNode`, `Graph.secures_insertEdge`, `Graph.secures_deleteNode`,
  `Graph.secures_deleteEdge` — **the operations on nodes and edges keep the topology linked**.
* `Graph.secures_addNodeLabel`, `Graph.secures_addEdgeLabel` — the operations on labels do so on handles
  that have been handed out.
-/

set_option autoImplicit false

set_option linter.unusedSectionVars false

namespace ChiffonDB

open Action

variable {F : Type} [F64 F] [F64Text F] {M : Type} [Backing M]

namespace Graph

open Topo

variable (C : Codecs F) {rid : RecordId}

/-! ## Nodes -/

theorem secures_setNodeProps (pref : Option RecordId) :
    Secures (KnownNode rid) (setNodeProps rid pref : Action (Graph M) _) fun _ => KnownNode rid := by
  cases pref with
  | none => exact .pure fun _ h => h
  | some pref => exact .bind secures_readKnownNode fun _ => secures_writeNodeProps _

/-- **`insert_node`.** -/
theorem secures_insertNode (typeId : UInt16) (props : Props F) :
    Secures Linked (insertNode C typeId props : Action (Graph M) _) fun rid => KnownNode rid :=
  .behind (quiet_checkUnique C _ _ _) (fun _ h => h) fun _ =>
    .behind (quiet_writeProps C _) (fun _ h => h) fun pref =>
      .bind ((secures_allocNode typeId).mono (fun _ _ h => h) fun _ _ h => h.1) fun _ =>
        .bind (secures_setNodeProps pref) fun _ =>
          .behind (.onPages _) (fun _ h => h.1) fun _ =>
            .behind (quiet_maintainPropertyIndex C _ _ _ _) (fun _ h => h.1) fun _ => .pure fun _ h => h

/-- **`update_node_properties`.** -/
theorem secures_updateNodeProperties (rid : RecordId) (props : Props F) :
    Secures Linked (updateNodeProperties C rid props : Action (Graph M) _) fun _ => Linked := by
  refine .bind (secures_nodeExists (fun _ h => h) rid) fun b => ?_
  split
  · refine .bind (Q := HasNode rid) (secures_readKnownNode.mono (fun t _ h => h.1.knownNode (h.2 ‹_›)) fun _ _ h => h)
      fun node => ?_
    refine .behind (quiet_validateStored C _ _ _) (fun _ h => h.1) fun _ => ?_
    refine .behind (quiet_nodePropertiesRaw C _) (fun _ h => h.1) fun _ => ?_
    refine .behind (quiet_checkUnique C _ _ _) (fun _ h => h.1) fun _ => ?_
    refine .behind (quiet_writeProps C _) (fun _ h => h.1) fun pref => ?_
    refine .bind (secures_writeNodeProps pref) fun _ => ?_
    refine .behind (quiet_maintainPropertyIndex C _ _ _ _) (fun _ h => h.1) fun _ => ?_
    refine .behind (quiet_maintainPropertyIndex C _ _ _ _) (fun _ h => h.1) fun _ => ?_
    exact .quietly (quiet_freeRef _) (fun _ h => h.1) fun _ _ h => h.1
  · exact .throw fun _ h => h.1

theorem secures_patchNodeProperties (rid : RecordId) (patch : Props F) :
    Secures Linked (patchNodeProperties C rid patch : Action (Graph M) _) fun _ => Linked :=
  .behind (quiet_getNodeProperties C rid) (fun _ h => h) fun _ => secures_updateNodeProperties C rid _

/-! ## Edges -/

/-- **`insert_edge`.** -/
theorem secures_insertEdge (typeId : UInt16) (fromNode toNode : RecordId) (props : Props F) :
    Secures Linked (insertEdge C typeId fromNode toNode props : Action (Graph M) _) fun eid => KnownEdge eid := by
  refine .bind (secures_nodeExists (fun _ h => h) fromNode) fun b => ?_
  split
  · refine .bind (secures_nodeExists (fun _ h => h.1) toNode) fun b => ?_
    split
    · refine Secures.mono (P := Joinable fromNode toNode) (Q := fun eid => KnownEdge eid) ?_
        (fun t _ h => ⟨h.1.1, h.1.2 ‹_›, h.2 ‹_›⟩) fun _ _ h => h
      refine .behind (quiet_writeProps C _) (fun _ h => h.1) fun pref => ?_
      refine .bind (secures_allocEdge typeId fromNode toNode) fun eid => ?_
      refine .bind (secures_setEdgeProps pref) fun _ => ?_
      refine .bind (secures_appendEdge .out rfl) fun _ => ?_
      refine .bind (secures_appendEdge .in rfl) fun _ => .pure fun t h => ?_
      obtain ⟨hlinked, r, hr, -⟩ := h
      have hoff : Function.update (Function.update (fun _ => some eid) .out none) .in none =
          fun _ : EdgeDirection => (none : Option RecordId) := by
        funext dir
        cases dir <;> rfl
      rw [hoff] at hlinked
      exact Linked.knownEdge hlinked ⟨r, hr⟩
    · exact .throw fun _ h => h.1.1
  · exact .throw fun _ h => h.1

/-- **`update_edge_properties`.** -/
theorem secures_updateEdgeProperties (rid : RecordId) (props : Props F) :
    Secures Linked (updateEdgeProperties C rid props : Action (Graph M) _) fun _ => Linked := by
  refine .bind (secures_edgeExists (fun _ h => h) rid) fun b => ?_
  split
  · refine Secures.mono (P := KnownEdge rid) (Q := fun _ => Linked) ?_
      (fun t _ h => h.1.knownEdge (h.2 ‹_›)) fun _ _ h => h
    refine .behind (quiet_readEdge rid) (fun _ h => h.1) fun edge => ?_
    refine .behind (quiet_validateStored C _ _ _) (fun _ h => h.1) fun _ => ?_
    refine .behind (quiet_writeProps C _) (fun _ h => h.1) fun pref => ?_
    refine .bind secures_readKnownEdge fun edge => ?_
    refine .bind (secures_writeEdgeProps pref) fun _ => ?_
    exact .quietly (quiet_freeRef _) (fun _ h => h.1) fun _ _ h => h.1
  · exact .throw fun _ h => h.1

theorem secures_patchEdgeProperties (rid : RecordId) (patch : Props F) :
    Secures Linked (patchEdgeProperties C rid patch : Action (Graph M) _) fun _ => Linked :=
  .behind (quiet_getEdgeProperties C rid) (fun _ h => h) fun _ => secures_updateEdgeProperties C rid _

/-- `delete_edge` of the topology, on a live edge. -/
theorem meets_deleteEdge (eid : RecordId) :
    Meets (fun t => t.Linked ∧ t.LiveEdge eid) (Topo.deleteEdge eid) (fun _ => Linked) Linked := by
  rintro t ⟨h, he⟩
  obtain ⟨t', hrun, hlinked, -⟩ := h.deleteEdge he
  rw [hrun]
  exact hlinked

/-- **`delete_edge`.** -/
theorem secures_deleteEdge (rid : RecordId) : Secures Linked (deleteEdge rid : Action (Graph M) _) fun _ => Linked := by
  refine .bind (secures_edgeExists (fun _ h => h) rid) fun b => ?_
  split
  · refine Secures.mono (P := fun t => t.Linked ∧ t.LiveEdge rid) (Q := fun _ => Linked) ?_
      (fun t _ h => ⟨h.1, h.2 ‹_›⟩) fun _ _ h => h
    refine .behind (quiet_readEdge rid) (fun _ h => h.1) fun edge => ?_
    refine .behind (quiet_freeRef _) (fun _ h => h.1) fun _ => ?_
    refine .behind (quiet_freeRef _) (fun _ h => h.1) fun _ => ?_
    exact .onTopo (keeps_deleteEdge rid) (meets_deleteEdge rid)
  · exact .throw fun _ h => h.1

/-! ## Deleting a node -/

/-- The edges of a node that are still to be deleted. -/
structure Cascading (rid : RecordId) (edges : List RecordId) (t : Topo) : Prop where
  linked : t.Linked
  node : t.LiveNode rid
  nodup : edges.Nodup
  live : ∀ e ∈ edges, t.LiveEdge e
  all : ∀ e r dir, t.edges.live e = some r → r.anchor dir = rid → e ∈ edges

/-- The edges on the two lists of a node. -/
theorem secures_cascadeOf (rid : RecordId) :
    Secures (fun t => t.Linked ∧ t.LiveNode rid) (cascadeOf rid : Action (Graph M) _) (Cascading rid) := by
  rintro g ⟨⟨h, hn⟩, hnamed⟩
  obtain ⟨outs, hout, -, houtMem⟩ := h.collectEdges hn .out
  obtain ⟨ins, hin, -, hinMem⟩ := h.collectEdges hn .in
  have hrun : cascadeOf rid g = (.ok ((outs ++ ins).map EdgeRecord.id).eraseDups, g) := by
    unfold cascadeOf onTopo
    rw [run_bind]
    show andThen (let (r, t) := Topo.collectEdges .out rid g.topo; (r, { g with topo := t })) _ = _
    rw [hout]
    show andThen (let (r, t) := Topo.collectEdges .in rid g.topo; (r, { g with topo := t })) _ = _
    rw [hin]
    rfl
  rw [hrun]
  refine ⟨⟨h, hn, nodup_eraseDups _ _ (Nat.le_refl _), fun e he => ?_, fun e r dir hr hanchor => ?_⟩, hnamed⟩
  · obtain ⟨r, hr, rfl⟩ := List.mem_map.1 (List.mem_eraseDups.1 he)
    rcases List.mem_append.1 hr with hr | hr
    · exact ⟨r, ((houtMem r).1 hr).1⟩
    · exact ⟨r, ((hinMem r).1 hr).1⟩
  · have hid : r.id = e := h.edgeId hr
    have hlive : g.topo.edges.live r.id = some r := by rw [hid, hr]
    refine List.mem_eraseDups.2 (List.mem_map.2 ⟨r, List.mem_append.2 ?_, hid⟩)
    cases dir with
    | out => exact .inl ((houtMem r).2 ⟨hlive, hanchor⟩)
    | «in» => exact .inr ((hinMem r).2 ⟨hlive, hanchor⟩)

/-- **One edge of the cascade.** -/
theorem meets_cascade (e : RecordId) (edges : List RecordId) :
    Meets (Cascading rid (e :: edges)) (Topo.deleteEdge e) (fun _ => Cascading rid edges) Linked := by
  intro t h
  obtain ⟨t', hrun, hlinked, hnodes, hedges⟩ := h.linked.deleteEdge (h.live e List.mem_cons_self)
  obtain ⟨hout, hnd⟩ := List.nodup_cons.1 h.nodup
  rw [hrun]
  refine ⟨hlinked, ?_, hnd, fun d hd => ?_, fun d r' dir hr' hanchor => ?_⟩
  · obtain ⟨r, hr⟩ := h.node
    exact (node_eq_some.1 ((congrFun hnodes rid).trans (node_of_live hr))).imp fun _ => And.left
  · have hde : d ≠ e := by
      rintro rfl
      exact hout hd
    obtain ⟨r, hr⟩ := h.live d (List.mem_cons_of_mem _ hd)
    have hsame : t'.edge d = some r.body := by rw [hedges, Function.update_of_ne hde, edge_of_live hr]
    exact (edge_eq_some.1 hsame).imp fun _ => And.left
  · have hsame := edge_of_live hr'
    rw [hedges] at hsame
    by_cases hde : d = e
    · rw [hde, Function.update_self] at hsame
      cases hsame
    · rw [Function.update_of_ne hde] at hsame
      obtain ⟨r, hr, he⟩ := edge_eq_some.1 hsame
      have hmem := h.all d r dir hr (by rw [← EdgeRecord.anchor_body, he, EdgeRecord.anchor_body]; exact hanchor)
      exact (List.mem_cons.1 hmem).resolve_left hde

theorem secures_deleteCascaded (e : RecordId) (edges : List RecordId) :
    Secures (Cascading rid (e :: edges)) (deleteCascaded e : Action (Graph M) _) fun _ => Cascading rid edges := by
  refine .behind (quiet_readEdge e).attempt (fun _ h => h.linked) fun r => ?_
  have hfree : Quiet (freeEdgeRefs r : Action (Graph M) _) := by
    cases r with
    | ok edge => exact .bind (quiet_freeRef _) fun _ => quiet_freeRef _
    | error e => exact .pure _
  exact .behind hfree (fun _ h => h.linked) fun _ => .onTopo (keeps_deleteEdge e) (meets_cascade e edges)

/-- A node that no edge is at goes. -/
theorem meets_freeNode (rid : RecordId) :
    Meets (Cascading rid []) (Topo.freeNode rid) (fun _ => Linked) Linked := by
  intro t h
  obtain ⟨r, hr⟩ := h.node
  obtain ⟨nodes, hfree, hlive⟩ := RecordTable.live_free hr
  have hrun : Topo.freeNode rid t = (.ok (), { t with nodes := nodes }) := Action.run_update (by rw [hfree]; rfl)
  rw [hrun]
  exact h.linked.removeNode (fun d r hd dir hanchor => List.not_mem_nil (h.all d r dir hd hanchor)) rfl hlive

theorem secures_retireNode : Secures (Cascading rid []) (retireNode C rid : Action (Graph M) _) fun _ => Linked :=
  .behind (quiet_readNode rid) (fun _ h => h.linked) fun _ =>
    .behind (quiet_nodePropertiesRaw C rid) (fun _ h => h.linked) fun _ =>
      .behind (quiet_maintainPropertyIndex C _ _ _ _) (fun _ h => h.linked) fun _ =>
        .behind (quiet_getNodeTypeIds C rid) (fun _ h => h.linked) fun _ =>
          .behind (.forEach fun _ => .onPages _) (fun _ h => h.linked) fun _ =>
            .behind (quiet_freeRef _) (fun _ h => h.linked) fun _ =>
              .behind (quiet_freeRef _) (fun _ h => h.linked) fun _ =>
                .onTopo (keeps_freeNode rid) (meets_freeNode rid)

/-- **`delete_node`**: its edges go one by one, a loop of its own once. -/
theorem secures_deleteNode (rid : RecordId) : Secures Linked (deleteNode C rid : Action (Graph M) _) fun _ => Linked := by
  refine .bind (secures_nodeExists (fun _ h => h) rid) fun b => ?_
  split
  · refine Secures.mono (P := fun t => t.Linked ∧ t.LiveNode rid) (Q := fun _ => Linked) ?_
      (fun t _ h => ⟨h.1, h.2 ‹_›⟩) fun _ _ h => h
    refine .bind (secures_cascadeOf rid) fun edges => ?_
    exact .bind (.forEach secures_deleteCascaded) fun _ => secures_retireNode C
  · exact .throw fun _ h => h.1

/-! ## Labels -/

theorem secures_setAdditionalLabels (labels : List UInt16) :
    Secures (KnownNode rid) (setAdditionalLabels C rid labels : Action (Graph M) _) fun _ => KnownNode rid := by
  refine .bind secures_readKnownNode fun node => ?_
  refine .behind (quiet_getAdditionalLabels C rid) (fun _ h => h.1) fun old => ?_
  refine .behind (quiet_reindexLabels _ _ _) (fun _ h => h.1) fun _ => ?_
  refine .behind (quiet_writeLabels C _) (fun _ h => h.1) fun lref => ?_
  refine .bind (secures_writeNodeLabels lref) fun _ => ?_
  exact .quietly (quiet_freeRef _) (fun _ h => h.1) fun _ _ h => h

theorem secures_setEdgeAdditionalLabels (labels : List UInt16) :
    Secures (KnownEdge rid) (setEdgeAdditionalLabels C rid labels : Action (Graph M) _) fun _ => KnownEdge rid := by
  refine .bind secures_readKnownEdge fun edge => ?_
  refine .behind (quiet_writeLabels C _) (fun _ h => h.1) fun lref => ?_
  refine .bind (secures_writeEdgeLabels lref) fun _ => ?_
  exact .quietly (quiet_freeRef _) (fun _ h => h.1) fun _ _ h => h

/-- **`add_node_label`** on a handle that has been handed out. -/
theorem secures_addNodeLabel (typeId : UInt16) :
    Secures (KnownNode rid) (addNodeLabel C rid typeId : Action (Graph M) _) fun _ => KnownNode rid := by
  refine .behind (quiet_getAdditionalLabels C rid) (fun _ h => h.1) fun labels => ?_
  split
  · exact .pure fun _ h => h
  · exact secures_setAdditionalLabels C _

theorem secures_removeNodeLabel (typeId : UInt16) :
    Secures (KnownNode rid) (removeNodeLabel C rid typeId : Action (Graph M) _) fun _ => KnownNode rid :=
  .behind (quiet_getAdditionalLabels C rid) (fun _ h => h.1) fun _ => secures_setAdditionalLabels C _

/-- **`add_edge_label`** on a handle that has been handed out. -/
theorem secures_addEdgeLabel (typeId : UInt16) :
    Secures (KnownEdge rid) (addEdgeLabel C rid typeId : Action (Graph M) _) fun _ => KnownEdge rid := by
  refine .behind (quiet_getEdgeAdditionalLabels C rid) (fun _ h => h.1) fun labels => ?_
  split
  · exact .pure fun _ h => h
  · exact secures_setEdgeAdditionalLabels C _

theorem secures_removeEdgeLabel (typeId : UInt16) :
    Secures (KnownEdge rid) (removeEdgeLabel C rid typeId : Action (Graph M) _) fun _ => KnownEdge rid :=
  .behind (quiet_getEdgeAdditionalLabels C rid) (fun _ h => h.1) fun _ => secures_setEdgeAdditionalLabels C _

theorem secures_addNodeLabelByName (name : String) :
    Secures (KnownNode rid) (addNodeLabelByName C rid name : Action (Graph M) _) fun _ => KnownNode rid :=
  .behind (quiet_nodeTypeIdOf C name) (fun _ h => h.1) fun _ => secures_addNodeLabel C _

theorem secures_removeNodeLabelByName (name : String) :
    Secures (KnownNode rid) (removeNodeLabelByName C rid name : Action (Graph M) _) fun _ => KnownNode rid :=
  .behind (quiet_nodeTypeIdOf C name) (fun _ h => h.1) fun _ => secures_removeNodeLabel C _

theorem secures_addNodeLabelDynamic (name : String) :
    Secures (KnownNode rid) (addNodeLabelDynamic C rid name : Action (Graph M) _) fun _ => KnownNode rid :=
  .behind (quiet_resolveOrRegister C _ name) (fun _ h => h.1) fun _ =>
    .bind (secures_addNodeLabel C _) fun _ => .pure fun _ h => h

theorem secures_addEdgeLabelByName (name : String) :
    Secures (KnownEdge rid) (addEdgeLabelByName C rid name : Action (Graph M) _) fun _ => KnownEdge rid :=
  .behind (quiet_edgeTypeIdOf C name) (fun _ h => h.1) fun _ => secures_addEdgeLabel C _

theorem secures_removeEdgeLabelByName (name : String) :
    Secures (KnownEdge rid) (removeEdgeLabelByName C rid name : Action (Graph M) _) fun _ => KnownEdge rid :=
  .behind (quiet_edgeTypeIdOf C name) (fun _ h => h.1) fun _ => secures_removeEdgeLabel C _

theorem secures_addEdgeLabelDynamic (name : String) :
    Secures (KnownEdge rid) (addEdgeLabelDynamic C rid name : Action (Graph M) _) fun _ => KnownEdge rid :=
  .behind (quiet_resolveOrRegister C _ name) (fun _ h => h.1) fun _ =>
    .bind (secures_addEdgeLabel C _) fun _ => .pure fun _ h => h

/-! ## Inserts by name -/

theorem secures_insertNodeWithLabels (primary : UInt16) (additional : List UInt16) (props : Props F) :
    Secures Linked (insertNodeWithLabels C primary additional props : Action (Graph M) _) fun rid => KnownNode rid := by
  refine .bind (secures_insertNode C primary props) fun rid => ?_
  split
  · exact .pure fun _ h => h
  · exact .bind (secures_setAdditionalLabels C _) fun _ => .pure fun _ h => h

theorem secures_insertNodeByName (name : String) (props : Props F) :
    Secures Linked (insertNodeByName C name props : Action (Graph M) _) fun rid => KnownNode rid := by
  refine .behind (quiet_loadSchema C) (fun _ h => h) fun ast => ?_
  split
  · exact .throw fun _ h => h
  · exact .behind (.ofExcept _) (fun _ h => h) fun _ =>
      .behind (quiet_nodeTypeIdOf C name) (fun _ h => h) fun _ => secures_insertNode C _ _

theorem secures_insertNodeWithLabelNames (primary : String) (additional : List String) (props : Props F) :
    Secures Linked (insertNodeWithLabelNames C primary additional props : Action (Graph M) _) fun rid => KnownNode rid := by
  refine .behind (quiet_loadSchemaRegistry C) (fun _ h => h) fun registry => ?_
  split
  · exact .throw fun _ h => h
  · exact .behind (quiet_nodeTypeIdsIn registry _) (fun _ h => h) fun _ => secures_insertNodeWithLabels C _ _ _

theorem secures_insertNodeWithDynamicLabels (primary : String) (additional : List String) (props : Props F) :
    Secures Linked (insertNodeWithDynamicLabels C primary additional props : Action (Graph M) _) fun r => KnownNode r.1 :=
  .behind (quiet_resolveOrRegister C _ _) (fun _ h => h) fun _ =>
    .behind (quiet_resolveAll C _) (fun _ h => h) fun _ =>
      .bind (secures_insertNodeWithLabels C _ _ _) fun _ => .pure fun _ h => h

theorem secures_insertEdgeWithLabels (primary : UInt16) (fromNode toNode : RecordId) (additional : List UInt16)
    (props : Props F) :
    Secures Linked (insertEdgeWithLabels C primary fromNode toNode additional props : Action (Graph M) _) fun eid => KnownEdge eid := by
  refine .bind (secures_insertEdge C primary fromNode toNode props) fun eid => ?_
  split
  · exact .pure fun _ h => h
  · exact .bind (secures_setEdgeAdditionalLabels C _) fun _ => .pure fun _ h => h

theorem quiet_checkEndpoint (registry : SchemaRegistry) (name side : String) (required : Option String)
    (node : NodeRecord) : Quiet (checkEndpoint registry name side required node : Action (Graph M) _) := by
  cases required with
  | none => exact .pure _
  | some required => exact .ite (.pure _) (.throw _)

theorem secures_insertEdgeByName (name : String) (fromNode toNode : RecordId) (props : Props F) :
    Secures Linked (insertEdgeByName C name fromNode toNode props : Action (Graph M) _) fun eid => KnownEdge eid := by
  refine .behind (quiet_nodeExists fromNode) (fun _ h => h) fun b => ?_
  split
  · refine .behind (quiet_nodeExists toNode) (fun _ h => h) fun b => ?_
    split
    · refine .behind (quiet_readNode fromNode) (fun _ h => h) fun fromRecord => ?_
      refine .behind (quiet_readNode toNode) (fun _ h => h) fun toRecord => ?_
      refine .behind (quiet_loadSchema C) (fun _ h => h) fun ast => ?_
      split
      · exact .throw fun _ h => h
      · refine .behind (.ofExcept _) (fun _ h => h) fun _ => ?_
        refine .behind (quiet_loadSchemaRegistry C) (fun _ h => h) fun registry => ?_
        split
        · exact .throw fun _ h => h
        · exact .behind (quiet_checkEndpoint _ _ _ _ _) (fun _ h => h) fun _ =>
            .behind (quiet_checkEndpoint _ _ _ _ _) (fun _ h => h) fun _ => secures_insertEdge C _ _ _ _
    · exact .throw fun _ h => h
  · exact .throw fun _ h => h

end Graph

end ChiffonDB
