import ChiffonDB.Graph.Naming

/-!
# Effects on edges

What the operations on edges do to the contents of a database.

* `Graph.meets_updateEdgeProperties`, `Graph.meets_deleteEdgeRow` — **an operation that succeeds has its effect, and one
  that fails has none**.
* `Graph.meets_insertEdgeAny` — between any two record ids.
-/

set_option autoImplicit false

set_option linter.unusedSectionVars false

namespace ChiffonDB

open Action PropertyIndex

variable {F : Type} [F64 F] [F64Text F] {M : Type} [FaithfulBacking M]

namespace Graph

variable {C : Codecs F} {t : Topo} {b : Behind} {c : Contents F} {rid : RecordId}

/-! ## Properties -/

/-- **`update_edge_properties`** on a live edge. -/
theorem meets_updateEdgeProperties (hC : C.Faithful) {row : EdgeRow F} (hrow : c.edges rid = some row) (props : Props F) :
    Meets (Shows (M := M) C c) (updateEdgeProperties C rid props)
      (fun _ g => (PropsTaken M C props ∧ c.validate .edge row.typeId props = .ok ()) ∧
        Shows C (c.setEdge rid (some { row with props := props })) g) (Shows C c) := by
  refine meets_shows fun t b h => ?_
  obtain ⟨r, hr, hstored⟩ := exists_edge h hrow
  obtain ⟨typeId, fromNode, toNode, oldProps, labels⟩ := row
  obtain rfl : r.edgeTypeId = typeId := hstored.typeId
  refine Meets.found (finds_edgeExists_row h rid) ?_
  rw [hrow, if_pos (by rfl)]
  refine Meets.found (finds_readEdge hr) ?_
  refine Meets.find (finds_validateStored h hC .edge r.edgeTypeId props) (fun _ hg => hg.shows h) fun _ hvalid => ?_
  refine Meets.bind ((meets_writeProps hC props).mono (fun _ hg => hg) (fun _ _ hg => hg) fun _ hg => hg.2.shows h)
    fun ref => Meets.given fun htaken => Meets.exists fun b' => Meets.given fun hw => ?_
  have h' := hw.depicts h
  refine Meets.found (finds_readEdge hr) ?_
  refine Meets.bind (meets_writeEdgeProps h.linked h.named hr ref).sure fun _ =>
    Meets.exists fun t' => Meets.given fun hwritten => ?_
  obtain ⟨hset, hold⟩ := h'.setEdgeProps (Topo.edge_of_live hr) hrow hwritten.linked hwritten.named hwritten.node
    hwritten.edge hw.valueAt (hw.unowned h)
  have hsome : ∀ v, r.propertyRef = some v → (b'.values v).isSome := fun v hv =>
    h'.isSome_of_ref (s := .edgeProps rid) (by rw [Topo.ref, Topo.edge_of_live hr]; exact hv)
  exact (meets_freeRef hsome).sure.mono (fun _ hg => hg)
    (fun _ g hg => ⟨⟨htaken, hvalid⟩, hg.shows (hset.release hold)⟩) fun _ hg => hg

/-- A handle that is not live. -/
theorem meets_updateEdgeProperties_dead (hrow : c.edges rid = none) (props : Props F) :
    Meets (Shows (M := M) C c) (updateEdgeProperties C rid props) (fun _ _ => False) (Shows C c) := by
  refine meets_shows fun t b h => Meets.found (finds_edgeExists_row h rid) ?_
  rw [hrow]
  exact Meets.throw fun _ hg => hg.shows h

/-- **`patch_edge_properties`** on a live edge. -/
theorem meets_patchEdgeProperties (hC : C.Faithful) {row : EdgeRow F} (hrow : c.edges rid = some row) (patch : Props F) :
    Meets (Shows (M := M) C c) (patchEdgeProperties C rid patch)
      (fun _ g => (PropsTaken M C (c.visible .edge row.typeId row.props ∪ patch) ∧
        c.validate .edge row.typeId (c.visible .edge row.typeId row.props ∪ patch) = .ok ()) ∧
        Shows C (c.setEdge rid (some { row with props := c.visible .edge row.typeId row.props ∪ patch })) g) (Shows C c) :=
  meets_shows fun _ _ h => Meets.found (finds_getEdgeProperties h hrow hC)
    ((meets_updateEdgeProperties hC hrow _).mono (fun _ hg => hg.shows h) (fun _ _ hg => hg) fun _ hg => hg)

theorem meets_patchEdgeProperties_dead (hrow : c.edges rid = none) (patch : Props F) :
    Meets (Shows (M := M) C c) (patchEdgeProperties C rid patch) (fun _ _ => False) (Shows C c) :=
  Meets.bind ((still_getEdgeProperties rid).keeps _) fun _ => meets_updateEdgeProperties_dead hrow _

/-! ## Inserting and deleting -/

/-- **`delete_edge`.** -/
theorem meets_deleteEdgeRow (rid : RecordId) :
    Meets (Shows (M := M) C c) (deleteEdge rid)
      (fun _ g => (c.edges rid).isSome ∧ Shows C (c.setEdge rid none) g)
      fun g => c.edges rid = none ∧ Shows C c g := by
  refine meets_shows fun t b h => Meets.found (finds_edgeExists_row h rid) ?_
  cases hrow : c.edges rid with
  | none => exact Meets.throw fun _ hg => ⟨rfl, hg.shows h⟩
  | some row =>
    refine Meets.sure ?_
    obtain ⟨r, hr, -⟩ := exists_edge h hrow
    refine Meets.found (finds_readEdge hr) ?_
    have hp : t.ref (.edgeProps rid) = r.propertyRef := by rw [Topo.ref, Topo.edge_of_live hr]; rfl
    have hlab : t.ref (.edgeLabels rid) = r.labelRef := by rw [Topo.ref, Topo.edge_of_live hr]; rfl
    have hfree := meets_freeRefs (M := M) h (show RefSlot.edgeProps rid ≠ .edgeLabels rid by simp)
    rw [hp, hlab] at hfree
    obtain ⟨t', hrun, hlinked, hnode, hedge⟩ := h.linked.deleteEdge ⟨r, hr⟩
    obtain ⟨hgone, hun⟩ := h.removeEdge (Topo.edge_of_live hr) hlinked
      (Topo.named_of_run (Topo.keeps_deleteEdge rid) h.named hrun) hnode hedge
    rw [← bind_assoc]
    refine Meets.bind hfree fun _ => ?_
    refine (meets_onTopo hrun).mono (fun _ hg => hg) (fun _ g hg => ⟨rfl, hg.2.shows ?_⟩) fun _ hg => hg
    exact (hgone.release fun v hv => hun v (.inl hv)).release fun v hv => hun v (.inr hv)

/-- **`insert_edge`**: one end that is not live is an error. -/
theorem meets_insertEdgeAny (hC : C.Faithful) (typeId : UInt16) (fromNode toNode : RecordId) (props : Props F) :
    Meets (Shows (M := M) C c) (insertEdge C typeId fromNode toNode props)
      (fun eid g => ((c.nodes fromNode).isSome ∧ (c.nodes toNode).isSome ∧ c.edges eid = none ∧ PropsTaken M C props) ∧
        Shows C (c.setEdge eid (some ⟨typeId, fromNode, toNode, props, []⟩)) g)
      (Shows C c) := by
  by_cases hends : (c.nodes fromNode).isSome ∧ (c.nodes toNode).isSome
  · exact (meets_insertEdge hC hends.1 hends.2 typeId props).mono (fun _ hg => hg)
      (fun _ g hg => ⟨⟨hends.1, hends.2, hg.1⟩, hg.2⟩) fun _ hg => hg.2
  · refine meets_shows fun t b h => Meets.found (finds_nodeExists_row h fromNode) ?_
    split
    · rename_i hfrom
      refine Meets.found (finds_nodeExists_row h toNode) ?_
      rw [if_neg fun hto => hends ⟨hfrom, hto⟩]
      exact Meets.throw fun _ hg => hg.shows h
    · exact Meets.throw fun _ hg => hg.shows h

end Graph

end ChiffonDB
