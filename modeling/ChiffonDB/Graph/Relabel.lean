import ChiffonDB.Graph.Inserts

/-!
# Labels of records

What the operations on additional labels do to the contents of a database.

* `Contents.relabel`, `Contents.relabelEdge` — a record gets other labels; `Contents.moveLabels` — the label index
  follows the labels of a node.
* `Graph.meets_setAdditionalLabels` — **the label index has moved also where the new list is refused**.
* `Graph.meets_addNodeLabel`, `Graph.meets_removeEdgeLabel`, … — the operations on single labels.
-/

set_option autoImplicit false

set_option linter.unusedSectionVars false

namespace ChiffonDB

open Action PropertyIndex

variable {F : Type} [F64 F] [F64Text F] {M : Type} [FaithfulBacking M]

/-! ## Contents -/

namespace NodeRow

variable (row : NodeRow F)

/-- The label list that `add_node_label` writes, if it writes one. -/
def labelsWith (typeId : UInt16) : Option (List UInt16) :=
  if typeId ∈ row.labels then none else some (normalizeLabels row.typeId (row.labels ++ [typeId]))

/-- The label list that `remove_node_label` writes. -/
def labelsWithout (typeId : UInt16) : List UInt16 := normalizeLabels row.typeId (row.labels.filter (· ≠ typeId))

end NodeRow

namespace EdgeRow

variable (row : EdgeRow F)

/-- The label list that `add_edge_label` writes, if it writes one. -/
def labelsWith (typeId : UInt16) : Option (List UInt16) :=
  if typeId ∈ row.labels then none else some (normalizeLabels row.typeId (row.labels ++ [typeId]))

/-- The label list that `remove_edge_label` writes. -/
def labelsWithout (typeId : UInt16) : List UInt16 := normalizeLabels row.typeId (row.labels.filter (· ≠ typeId))

end EdgeRow

/-- A record id moves from labels to others. -/
def moveAll (rid : RecordId) (old new : List UInt16) (l : UInt16 → Multiset RecordId) : UInt16 → Multiset RecordId :=
  labelAll rid (new.filter (· ∉ old)) (unlabelAll rid (old.filter (· ∉ new)) l)

namespace Contents

variable (c : Contents F)

/-- The label index follows the labels of a node. -/
def moveLabels (rid : RecordId) (old new : List UInt16) : Contents F :=
  { c with labelled := moveAll rid old new c.labelled }

/-- A node gets other labels. -/
def relabel (rid : RecordId) (row : NodeRow F) (labels : List UInt16) : Contents F :=
  (c.moveLabels rid row.labels labels).setNode rid (some { row with labels := labels })

/-- An edge gets other labels. -/
def relabelEdge (rid : RecordId) (row : EdgeRow F) (labels : List UInt16) : Contents F :=
  c.setEdge rid (some { row with labels := labels })

end Contents

namespace Graph

variable {C : Codecs F} {t : Topo} {b : Behind} {c : Contents F} {rid : RecordId}

/-! ## Labels of nodes -/

theorem meets_reindexLabels (rid : RecordId) (old new : List UInt16) :
    Meets (Is (M := M) t b) (reindexLabels rid old new)
      (fun _ => Is t { b with labelled := moveAll rid old new b.labelled }) fun _ => False :=
  Meets.bind (meets_unlabelAll _) fun _ => meets_labelAll _

/-- **`set_additional_labels`** on a live node. -/
theorem meets_setAdditionalLabels (hC : C.Faithful) {row : NodeRow F} (hrow : c.nodes rid = some row)
    (labels : List UInt16) :
    Meets (Shows (M := M) C c) (setAdditionalLabels C rid labels)
      (fun _ g => LabelsTaken M C (normalizeLabels row.typeId labels) ∧
        Shows C (c.relabel rid row (normalizeLabels row.typeId labels)) g)
      fun g => ¬ LabelsTaken M C (normalizeLabels row.typeId labels) ∧
        Shows C (c.moveLabels rid row.labels (normalizeLabels row.typeId labels)) g := by
  refine meets_shows fun t b h => ?_
  obtain ⟨r, hr, hstored⟩ := exists_node h hrow
  obtain ⟨typeId, props, old⟩ := row
  obtain rfl : r.nodeTypeId = typeId := hstored.typeId
  refine Meets.found (finds_readNode hr) (Meets.found (finds_getAdditionalLabels h hrow) ?_)
  refine Meets.bind (meets_reindexLabels rid old (normalizeLabels r.nodeTypeId labels)).sure fun _ => ?_
  have hmoved : Depicts C t _ (c.moveLabels rid old (normalizeLabels r.nodeTypeId labels)) := h.setLabelled _
  rw [h.labelled]
  refine Meets.bind ((meets_writeLabels hC _).mono (fun _ hg => hg) (fun _ _ hg => hg)
    fun _ hg => ⟨hg.1, hg.2.shows hmoved⟩) fun ref =>
      Meets.given fun htaken => Meets.exists fun b' => Meets.given fun hw => ?_
  have h' := hw.depicts hmoved
  refine Meets.bind (meets_writeNodeLabels h.linked h.named hr ref).sure fun _ =>
    Meets.exists fun t' => Meets.given fun hwritten => ?_
  obtain ⟨hset, hold⟩ := h'.setNodeLabels (Topo.node_of_live hr) hrow hwritten.linked hwritten.named hwritten.node
    hwritten.edge hw.valueAt (hw.unowned hmoved)
  have hsome : ∀ v, r.labelRef = some v → (b'.values v).isSome := fun v hv =>
    h'.isSome_of_ref (s := .nodeLabels rid) (by rw [Topo.ref, Topo.node_of_live hr]; exact hv)
  exact (meets_freeRef hsome).sure.mono (fun _ hg => hg) (fun _ g hg => ⟨htaken, hg.shows (hset.release hold)⟩)
    fun _ hg => hg

/-- **`add_node_label`** on a live node. -/
theorem meets_addNodeLabel (hC : C.Faithful) {row : NodeRow F} (hrow : c.nodes rid = some row) (typeId : UInt16) :
    Meets (Shows (M := M) C c) (addNodeLabel C rid typeId)
      (fun _ g => match row.labelsWith typeId with
        | none => Shows C c g
        | some new => LabelsTaken M C new ∧ Shows C (c.relabel rid row new) g)
      fun g => ∃ new, row.labelsWith typeId = some new ∧ ¬ LabelsTaken M C new ∧
        Shows C (c.moveLabels rid row.labels new) g := by
  refine meets_shows fun t b h => Meets.found (finds_getAdditionalLabels h hrow) ?_
  unfold NodeRow.labelsWith
  split
  · exact Meets.pure fun _ hg => hg.shows h
  · exact (meets_setAdditionalLabels hC hrow _).mono (fun _ hg => hg.shows h) (fun _ _ hg => hg)
      fun _ hg => ⟨_, rfl, hg⟩

/-- **`remove_node_label`** on a live node. -/
theorem meets_removeNodeLabel (hC : C.Faithful) {row : NodeRow F} (hrow : c.nodes rid = some row) (typeId : UInt16) :
    Meets (Shows (M := M) C c) (removeNodeLabel C rid typeId)
      (fun _ g => LabelsTaken M C (row.labelsWithout typeId) ∧ Shows C (c.relabel rid row (row.labelsWithout typeId)) g)
      fun g => ¬ LabelsTaken M C (row.labelsWithout typeId) ∧
        Shows C (c.moveLabels rid row.labels (row.labelsWithout typeId)) g :=
  meets_shows fun _ _ h => Meets.found (finds_getAdditionalLabels h hrow)
    ((meets_setAdditionalLabels hC hrow _).mono (fun _ hg => hg.shows h) (fun _ _ hg => hg) fun _ hg => hg)

/-! ## Labels of edges -/

/-- **`set_edge_additional_labels`** on a live edge. -/
theorem meets_setEdgeAdditionalLabels (hC : C.Faithful) {row : EdgeRow F} (hrow : c.edges rid = some row)
    (labels : List UInt16) :
    Meets (Shows (M := M) C c) (setEdgeAdditionalLabels C rid labels)
      (fun _ g => LabelsTaken M C (normalizeLabels row.typeId labels) ∧
        Shows C (c.relabelEdge rid row (normalizeLabels row.typeId labels)) g)
      fun g => ¬ LabelsTaken M C (normalizeLabels row.typeId labels) ∧ Shows C c g := by
  refine meets_shows fun t b h => ?_
  obtain ⟨r, hr, hstored⟩ := exists_edge h hrow
  obtain ⟨typeId, fromNode, toNode, props, old⟩ := row
  obtain rfl : r.edgeTypeId = typeId := hstored.typeId
  refine Meets.found (finds_readEdge hr) ?_
  refine Meets.bind ((meets_writeLabels hC _).mono (fun _ hg => hg) (fun _ _ hg => hg)
    fun _ hg => ⟨hg.1, hg.2.shows h⟩) fun ref => Meets.given fun htaken => Meets.exists fun b' => Meets.given fun hw => ?_
  have h' := hw.depicts h
  refine Meets.bind (meets_writeEdgeLabels h.linked h.named hr ref).sure fun _ =>
    Meets.exists fun t' => Meets.given fun hwritten => ?_
  obtain ⟨hset, hold⟩ := h'.setEdgeLabels (Topo.edge_of_live hr) hrow hwritten.linked hwritten.named hwritten.node
    hwritten.edge hw.valueAt (hw.unowned h)
  have hsome : ∀ v, r.labelRef = some v → (b'.values v).isSome := fun v hv =>
    h'.isSome_of_ref (s := .edgeLabels rid) (by rw [Topo.ref, Topo.edge_of_live hr]; exact hv)
  exact (meets_freeRef hsome).sure.mono (fun _ hg => hg) (fun _ g hg => ⟨htaken, hg.shows (hset.release hold)⟩)
    fun _ hg => hg

/-- **`add_edge_label`** on a live edge. -/
theorem meets_addEdgeLabel (hC : C.Faithful) {row : EdgeRow F} (hrow : c.edges rid = some row) (typeId : UInt16) :
    Meets (Shows (M := M) C c) (addEdgeLabel C rid typeId)
      (fun _ g => match row.labelsWith typeId with
        | none => Shows C c g
        | some new => LabelsTaken M C new ∧ Shows C (c.relabelEdge rid row new) g)
      fun g => ∃ new, row.labelsWith typeId = some new ∧ ¬ LabelsTaken M C new ∧ Shows C c g := by
  refine meets_shows fun t b h => Meets.found (finds_getEdgeAdditionalLabels h hrow) ?_
  unfold EdgeRow.labelsWith
  split
  · exact Meets.pure fun _ hg => hg.shows h
  · exact (meets_setEdgeAdditionalLabels hC hrow _).mono (fun _ hg => hg.shows h) (fun _ _ hg => hg)
      fun _ hg => ⟨_, rfl, hg⟩

/-- **`remove_edge_label`** on a live edge. -/
theorem meets_removeEdgeLabel (hC : C.Faithful) {row : EdgeRow F} (hrow : c.edges rid = some row) (typeId : UInt16) :
    Meets (Shows (M := M) C c) (removeEdgeLabel C rid typeId)
      (fun _ g => LabelsTaken M C (row.labelsWithout typeId) ∧
        Shows C (c.relabelEdge rid row (row.labelsWithout typeId)) g)
      fun g => ¬ LabelsTaken M C (row.labelsWithout typeId) ∧ Shows C c g :=
  meets_shows fun _ _ h => Meets.found (finds_getEdgeAdditionalLabels h hrow)
    ((meets_setEdgeAdditionalLabels hC hrow _).mono (fun _ hg => hg.shows h) (fun _ _ hg => hg) fun _ hg => hg)

end Graph

end ChiffonDB
